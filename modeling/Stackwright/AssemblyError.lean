import Stackwright.Stream

/-!
# Errors of the assembler

Every way in which assembling, or writing down what was assembled, can go wrong.
Errors about the source carry the number of the source line they point at, counted
from one.
-/

namespace Stackwright

/-- Why a source was not assembled, or its results not written. -/
inductive AssemblyError where
  /-- the source broke off -/
  | read (cause : IoError)
  /-- the first word of a statement is neither label, directive nor mnemonic -/
  | unknownMnemonic (name : String) (line : Nat)
  /-- the source ends where an operand is due -/
  | missingOperand (name : String) (expected : Nat) (line : Nat)
  /-- what stands before the colon is no label name -/
  | invalidLabel (name : String) (line : Nat)
  /-- a word is neither literal nor label name -/
  | invalidOperand (text : String) (line : Nat)
  /-- a literal is no word of the machine -/
  | literalOutOfRange (text : String) (line : Nat)
  /-- the program is longer than the greatest address -/
  | addressOverflow (line : Nat)
  /-- a label is defined twice; `first` is the line of the first definition -/
  | duplicateSymbol (name : String) (line : Nat) (first : Nat)
  /-- an operand names a label that is defined nowhere -/
  | undefinedSymbol (name : String) (line : Nat)
  /-- results were asked for before there were any -/
  | notAssembled
  /-- the source file cannot be opened -/
  | fileOpen (path : String) (cause : IoError)
  /-- a result file cannot be created -/
  | fileCreate (path : String) (cause : IoError)
  /-- a result file cannot be written -/
  | fileWrite (path : String) (cause : IoError)
  deriving DecidableEq, Repr

namespace AssemblyError

/-- A coarse classification of the errors. -/
inductive Kind where
  | malformedSource
  | duplicateSymbol
  | undefinedSymbol
  | usage
  | io
  deriving DecidableEq, Repr

/-- The class of an error. A source that cannot be had counts as malformed. -/
def kind : AssemblyError → Kind
  | duplicateSymbol .. => .duplicateSymbol
  | undefinedSymbol .. => .undefinedSymbol
  | notAssembled => .usage
  | fileCreate .. | fileWrite .. => .io
  | _ => .malformedSource

/-- The source line that the error points at, if any. -/
def line? : AssemblyError → Option Nat
  | unknownMnemonic _ line | missingOperand _ _ line | invalidLabel _ line
  | invalidOperand _ line | literalOutOfRange _ line | addressOverflow line
  | duplicateSymbol _ line _ | undefinedSymbol _ line => some line
  | _ => none

/-- The failure behind the error, if any. -/
def cause : AssemblyError → Option IoError
  | read cause | fileOpen _ cause | fileCreate _ cause | fileWrite _ cause => some cause
  | _ => none

/-- The wording of the error. -/
def message : AssemblyError → String
  | read _ => "Failed to read source"
  | unknownMnemonic name _ => s!"Unknown operation: `{name}`"
  | missingOperand name expected _ => s!"More argument required: `{name}` takes {expected}"
  | invalidLabel name _ => s!"Invalid label name: `{name}`"
  | invalidOperand text _ => s!"Cannot parse `{text}` as operand"
  | literalOutOfRange text _ => s!"Literal `{text}` does not fit in a word"
  | addressOverflow _ => "Address space exhausted"
  | duplicateSymbol name _ _ => s!"Re-defined label: `{name}`"
  | undefinedSymbol name _ => s!"Undefined label: `{name}`"
  | notAssembled => "Program has not been assembled"
  | fileOpen path _ => s!"Failed to open file: {path}"
  | fileCreate path _ => s!"Failed to create file: {path}"
  | fileWrite path _ => s!"Failed to write file: {path}"

end AssemblyError

end Stackwright
