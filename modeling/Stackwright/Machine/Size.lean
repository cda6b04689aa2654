import Stackwright.Text.Numeral
import Stackwright.Word

/-!
# Memory sizes

The size of memory as it is given on a command line: a number of words, at most as
many as there are addresses.
-/

namespace Stackwright

/-- Why a text is no memory size. -/
inductive MemorySizeError where
  /-- it is no number that a size could be -/
  | malformed (text : String)
  /-- it is more than there are addresses -/
  | tooLarge
  deriving DecidableEq, Repr

/-- The wording of the error. -/
def MemorySizeError.message : MemorySizeError → String
  | malformed text => s!"cannot construct a machine with memory of `{text}`"
  | tooLarge => s!"memory is limited to {Word.greatest} words"

/-- The greatest number that fits in 64 bits. -/
def greatestCount : Nat := 18446744073709551615

/-- Read a memory size. -/
def readMemorySize (text : String) : Except MemorySizeError Nat :=
  match Text.unsigned? greatestCount text.toList with
  | none => .error (.malformed text)
  | some size => if Word.greatest < size then .error .tooLarge else .ok size

end Stackwright
