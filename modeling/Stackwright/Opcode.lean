import Stackwright.Arithmetic
import Stackwright.Text.Capital

/-!
# Operation codes

The instruction set as a table. An instruction is one word for the operation, the
*code*, followed by one word per operand; `Opcode.operands` lists what the
operands are, and `Opcode.width` counts the words. Assembler and machine both
read this table, and nothing else tells them how long an instruction is.
-/

namespace Stackwright

/-- The operations of the machine, in the order of their codes. -/
inductive Opcode where
  | halt
  | push
  | pop
  | dup
  | swap
  | add
  | sub
  | mul
  | div
  | mod
  | neg
  | eq
  | lt
  | gt
  | jmp
  | jz
  | jnz
  | load
  | store
  | call
  | ret
  | out
  deriving DecidableEq, Repr

/-- What an operand word means to its operation. -/
inductive OperandKind where
  /-- a value that is used as it is -/
  | value
  /-- an address in memory -/
  | address
  deriving DecidableEq, Repr

/-- A name that no operation has. -/
structure UnknownOpcode where
  /-- the name as it was given -/
  name : String
  deriving DecidableEq, Repr

/-- The wording of the error. -/
def UnknownOpcode.message (e : UnknownOpcode) : String := s!"Undefined Op: {e.name}"

namespace Opcode

/-- All operations in the order of their codes. -/
def all : List Opcode :=
  [halt, push, pop, dup, swap, add, sub, mul, div, mod, neg, eq, lt, gt, jmp, jz, jnz, load,
    store, call, ret, out]

/-- The word that stands for the operation in memory: its place in `all`. -/
def code : Opcode → Word
  | halt => 0
  | push => 1
  | pop => 2
  | dup => 3
  | swap => 4
  | add => 5
  | sub => 6
  | mul => 7
  | div => 8
  | mod => 9
  | neg => 10
  | eq => 11
  | lt => 12
  | gt => 13
  | jmp => 14
  | jz => 15
  | jnz => 16
  | load => 17
  | store => 18
  | call => 19
  | ret => 20
  | out => 21

/-- The operation that a word stands for. -/
def decode? (w : Word) : Option Opcode := (Word.index? w).bind (all[·]?)

/-- Codes are places in the list of all operations. -/
theorem toInt_code_getElem_all : ∀ (i : Nat) (h : i < all.length), all[i].code.toInt = i := by
  decide

/-- A word stands for an operation just if it is the code of the operation. -/
theorem decode?_eq_some_iff {w : Word} {op : Opcode} : decode? w = some op ↔ w = op.code := by
  constructor
  · intro h
    obtain ⟨i, index, found⟩ := Option.bind_eq_some_iff.mp h
    obtain ⟨bound, rfl⟩ := List.getElem?_eq_some_iff.mp found
    rw [← Int32.toInt_inj, toInt_code_getElem_all, Word.index?_eq_some_iff.mp index]
  · rintro rfl
    cases op <;> rfl

/-- No two operations have the same code. -/
theorem code_inj {op op' : Opcode} (h : op.code = op'.code) : op = op' :=
  Option.some.inj ((decode?_eq_some_iff.mpr rfl).symm.trans (decode?_eq_some_iff.mpr h))

/-- The mnemonic in capitals. -/
def mnemonic : Opcode → String
  | halt => "HALT"
  | push => "PUSH"
  | pop => "POP"
  | dup => "DUP"
  | swap => "SWAP"
  | add => "ADD"
  | sub => "SUB"
  | mul => "MUL"
  | div => "DIV"
  | mod => "MOD"
  | neg => "NEG"
  | eq => "EQ"
  | lt => "LT"
  | gt => "GT"
  | jmp => "JMP"
  | jz => "JZ"
  | jnz => "JNZ"
  | load => "LOAD"
  | store => "STORE"
  | call => "CALL"
  | ret => "RET"
  | out => "OUT"

/-- The operation with a given name; names are compared in capitals. -/
def ofName? (name : String) : Option Opcode :=
  let capitals := String.ofList (Text.capitals name.toList)
  all.find? (·.mnemonic == capitals)

/-- No two operations share a mnemonic, so each is found under its own. -/
theorem ofName?_mnemonic (op : Opcode) : ofName? op.mnemonic = some op := by
  cases op <;> decide +kernel

/-- The operation with a given name, or the complaint that there is none. -/
def ofName (name : String) : Except UnknownOpcode Opcode :=
  match ofName? name with
  | some op => .ok op
  | none => .error ⟨name⟩

/-- The operands that follow the operation, in order. -/
def operands : Opcode → List OperandKind
  | push => [.value]
  | jmp | jz | jnz | load | store | call => [.address]
  | _ => []

/-- No operation has more than one operand. -/
theorem operands_cases (op : Opcode) : op.operands = [] ∨ ∃ kind, op.operands = [kind] := by
  cases op <;> simp [operands]

/-- The number of words an instruction takes up. -/
def width (op : Opcode) : Nat := 1 + op.operands.length

/-- The binary operation that an instruction computes, if it is of that kind. -/
def binary? : Opcode → Option BinaryOp
  | add => some .add
  | sub => some .sub
  | mul => some .mul
  | div => some .div
  | mod => some .mod
  | eq => some .eq
  | lt => some .lt
  | gt => some .gt
  | _ => none

end Opcode

end Stackwright
