import Stackwright.Image
import Stackwright.LineMap
import Stackwright.Statement
import Stackwright.SymbolTable

/-!
# Assembling

Assembling goes over the statements twice. The first time it adds up their widths
and binds each label to the address reached so far, so that a label names the
statement that follows it. The second time every label is known, and each statement
becomes its words.

Both passes stop at the first bad statement. As the first pass meets all of them,
and all double definitions, what is left for the second are labels that are used
but not defined.
-/

namespace Stackwright

/-! ## The first pass -/

namespace SymbolTable

/-- Continue the first pass at an address with the labels found so far. -/
def collectFrom (address : Nat) (table : SymbolTable) :
    List Parsed → Except AssemblyError SymbolTable
  | [] => .ok table
  | .error e :: _ => .error e
  | .ok ⟨.label name, line⟩ :: rest =>
    match insert name (Word.ofNat address) line table with
    | .error e _ => .error e
    | .ok () table' => collectFrom address table' rest
  | .ok ⟨statement, line⟩ :: rest =>
    let next := address + statement.width
    if Word.greatest < next then .error (.addressOverflow line)
    else collectFrom next table rest

/-- The labels that a source defines. -/
def collect (tokens : List Token) : Except AssemblyError SymbolTable :=
  collectFrom 0 empty (Statement.parse tokens)

end SymbolTable

/-! ## The second pass -/

/-- The word for an operand; `line` is the line that an error points at. -/
def Operand.resolve (symbols : SymbolTable) (line : Nat) :
    Operand → Except AssemblyError Word
  | literal value => .ok value
  | label name =>
    match symbols.address? name with
    | some address => .ok address
    | none => .error (.undefinedSymbol name line)

/-- The words for a statement. -/
def Statement.words (symbols : SymbolTable) (line : Nat) :
    Statement → Except AssemblyError (List Word)
  | label _ => .ok []
  | instruction op operands => do
    let arguments ← operands.mapM (Operand.resolve symbols line)
    return op.code :: arguments
  | data operand => do
    let word ← operand.resolve symbols line
    return [word]

/-- What one statement puts into memory. -/
structure Emitted where
  /-- the address of the first word -/
  address : Nat
  /-- the line of the statement -/
  line : Nat
  /-- its words -/
  words : List Word
  deriving DecidableEq, Repr

/-- Continue the second pass at an address. Labels put nothing into memory and
leave no trace. -/
def emitFrom (symbols : SymbolTable) (address : Nat) :
    List Parsed → Except AssemblyError (List Emitted)
  | [] => .ok []
  | .error e :: _ => .error e
  | .ok ⟨statement, line⟩ :: rest =>
    if Word.greatest < address then .error (.addressOverflow line)
    else
      match statement with
      | .label _ => emitFrom symbols address rest
      | _ => do
        let words ← statement.words symbols line
        let emitted ← emitFrom symbols (address + words.length) rest
        return ⟨address, line, words⟩ :: emitted

/-- The program that statements add up to. -/
def Emitted.program (emitted : List Emitted) : List Word := emitted.flatMap (·.words)

/-- The line map of a sequence of statements, entered one after the other. -/
def Emitted.lineMap (emitted : List Emitted) : LineMap :=
  emitted.foldl (fun map e => map.insert (Word.ofNat e.address) e.line) .empty

/-- Program and line map of a source, given its labels. -/
def emit (tokens : List Token) (symbols : SymbolTable) :
    Except AssemblyError (List Word × LineMap) := do
  let emitted ← emitFrom symbols 0 (Statement.parse tokens)
  return (Emitted.program emitted, Emitted.lineMap emitted)

/-! ## Both passes -/

/-- The results of assembling a source. -/
structure Assembly where
  /-- the words of the program, in address order from zero -/
  program : List Word
  /-- the labels -/
  symbols : SymbolTable
  /-- where the words come from -/
  lineMap : LineMap
  deriving DecidableEq, Repr

namespace Assembly

/-- Assemble a tokenized source. -/
def ofTokens (tokens : List Token) : Except AssemblyError Assembly := do
  let symbols ← SymbolTable.collect tokens
  let (program, lineMap) ← emit tokens symbols
  return ⟨program, symbols, lineMap⟩

/-- Assemble a source. -/
def ofFeed (feed : Feed) : Except AssemblyError Assembly := do
  let tokens ← tokenize feed
  ofTokens tokens

/-- Assemble a text. -/
def ofText (text : String) : Except AssemblyError Assembly := ofFeed (Feed.ofText text)

/-- The program in image format. -/
def image (assembly : Assembly) : String := Image.text assembly.program

end Assembly

end Stackwright
