import Stackwright.Opcode
import Stackwright.Token

/-!
# Label names, literals and operands

An operand is a literal or the name of a label. The two are told apart by their
first character, minus signs aside: a digit makes a literal.

* A label name starts with an ASCII letter or an underscore, goes on with ASCII
  letters, digits, underscores and points, and is no mnemonic.
* A literal is an optional minus sign, an optional mark for the radix (`0b`, `0o`
  or `0x`, in small letters) and digits. Its value has to be a word.

A literal is read digit by digit with room for 63 bits. The first digit that is
wrong or that bursts this room decides what kind of error it is.
-/

namespace Stackwright

/-- Whether labels may have this name. -/
def isLabelName (name : String) : Bool :=
  match name.toList with
  | [] => false
  | c :: cs =>
    (c.isAlpha || c == '_') && cs.all (fun d => d.isAlphanum || d == '_' || d == '.') &&
      (Opcode.ofName? name).isNone

namespace Literal

/-- Split off the mark of the radix; without one, numerals are decimal. -/
def radix : List Char → Nat × List Char
  | '0' :: 'b' :: digits => (2, digits)
  | '0' :: 'o' :: digits => (8, digits)
  | '0' :: 'x' :: digits => (16, digits)
  | digits => (10, digits)

/-- The greatest absolute value that is kept while reading. -/
def room : Nat := 9223372036854775807

/-- The absolute value of a literal without its sign. -/
def magnitude (cs : List Char) : Except Text.Misread Nat :=
  match radix cs with
  | (_, []) => .error .notADigit
  | (base, digits) => Text.readDigits base room 0 digits

/-- The value of a literal. -/
def read : List Char → Except Text.Misread Int
  | '-' :: cs => (magnitude cs).map fun (n : Nat) => -(n : Int)
  | cs => (magnitude cs).map fun (n : Nat) => (n : Int)

/-- Whether a text is meant to be a literal. -/
def isMeant (cs : List Char) : Bool := (cs.dropWhile (· == '-')).head?.any Char.isDigit

end Literal

/-- An operand as it is written. -/
inductive Operand where
  /-- a value -/
  | literal (value : Word)
  /-- the address of a label -/
  | label (name : String)
  deriving DecidableEq, Repr

/-- Read an operand; `line` is the line that errors point at. -/
def Operand.parse (text : String) (line : Nat) : Except AssemblyError Operand :=
  if Literal.isMeant text.toList then
    match Literal.read text.toList with
    | .error .notADigit => .error (.invalidOperand text line)
    | .error .tooLarge => .error (.literalOutOfRange text line)
    | .ok value =>
      match Word.ofInt? value with
      | some w => .ok (.literal w)
      | none => .error (.literalOutOfRange text line)
  else if isLabelName text then .ok (.label text)
  else .error (.invalidOperand text line)

end Stackwright
