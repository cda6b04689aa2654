import Stackwright.Operand

/-!
# Statements

A source is a sequence of statements, and the first token of each tells its kind:

* `name:` defines a label,
* `.word` puts its one operand into memory as it is,
* anything else has to be a mnemonic, which takes as many operands as the
  instruction set says.

Operands are simply the tokens that follow, on whatever line they stand, so the
end of a statement is known before the next token is looked at. The parser walks
over the tokens once and keeps, between two tokens, the statement that still waits
for operands, if any. A bad statement ends at the token that makes it bad, and the
next statement starts after it.
-/

namespace Stackwright

/-- A statement of the source. -/
inductive Statement where
  /-- the definition of a label -/
  | label (name : String)
  /-- an instruction -/
  | instruction (op : Opcode) (operands : List Operand)
  /-- a word of data -/
  | data (operand : Operand)
  deriving DecidableEq, Repr

/-- The number of words that a statement puts into memory. -/
def Statement.width : Statement → Nat
  | label _ => 0
  | instruction op _ => op.width
  | data _ => 1

/-- A statement and the line of its first token. -/
structure SourceStatement where
  /-- the statement -/
  statement : Statement
  /-- the line on which it begins -/
  line : Nat
  deriving DecidableEq, Repr

/-- One item of a parsed source. -/
abbrev Parsed : Type := Except AssemblyError SourceStatement

/-- The directive for a word of data. -/
def wordDirective : String := ".word"

/-! ## Statements that wait for operands -/

/-- A statement that wants at least one operand more. -/
structure Pending where
  /-- the first token of the statement -/
  head : Token
  /-- the operation, or none for a word of data -/
  op? : Option Opcode
  /-- the operands so far -/
  taken : List Operand
  deriving DecidableEq, Repr

namespace Pending

/-- The number of operands that the statement takes in all. -/
def arity (p : Pending) : Nat :=
  match p.op? with
  | some op => op.operands.length
  | none => 1

/-- The error if the source ends here. -/
def missing (p : Pending) : AssemblyError := .missingOperand p.head.text p.arity p.head.line

/-- Add an operand. This either completes the statement or leaves it waiting. -/
def supply (p : Pending) (operand : Operand) : Pending ⊕ Statement :=
  match p.op? with
  | none => .inr (.data operand)
  | some op =>
    let taken := p.taken ++ [operand]
    if taken.length < op.operands.length then .inl { p with taken := taken }
    else .inr (.instruction op taken)

end Pending

/-! ## Parsing -/

namespace Statement

/-- The name in front of a final colon. -/
def labelDefinition? (text : String) : Option String :=
  let cs := text.toList
  if cs.getLast? = some ':' then some (String.ofList cs.dropLast) else none

/-- What the first token of a statement makes of it: a statement that waits for
operands, or one that is complete, whether good or bad. -/
def start (head : Token) : Pending ⊕ Parsed :=
  match labelDefinition? head.text with
  | some name =>
    if isLabelName name then .inr (.ok ⟨.label name, head.line⟩)
    else .inr (.error (.invalidLabel name head.line))
  | none =>
    if head.text = wordDirective then .inl ⟨head, none, []⟩
    else
      match Opcode.ofName? head.text with
      | none => .inr (.error (.unknownMnemonic head.text head.line))
      | some op =>
        if op.operands.isEmpty then .inr (.ok ⟨.instruction op [], head.line⟩)
        else .inl ⟨head, some op, []⟩

/-- Parse the rest of a source, given the statement that waits for operands. -/
def parseFrom : Option Pending → List Token → List Parsed
  | none, [] => []
  | some p, [] => [.error p.missing]
  | none, t :: ts =>
    match start t with
    | .inl p => parseFrom (some p) ts
    | .inr item => item :: parseFrom none ts
  | some p, t :: ts =>
    match Operand.parse t.text t.line with
    | .error e => .error e :: parseFrom none ts
    | .ok operand =>
      match p.supply operand with
      | .inl q => parseFrom (some q) ts
      | .inr s => .ok ⟨s, p.head.line⟩ :: parseFrom none ts

/-- The statements of a source, good and bad, in order. -/
def parse (tokens : List Token) : List Parsed := parseFrom none tokens

end Statement

end Stackwright
