import Stackwright.Machine.Fault
import Stackwright.Opcode

/-!
# The ideal machine

A machine with the same instructions whose stack is a list of its own. It takes up no
memory, so it cannot run into the program, and no stack pointer is needed. What is left of
memory is the *store*, for code and data.

What the operations do is given as a table (`effect`): one row for each, from the words on
the stack before it to those after it.
-/

namespace Stackwright

/-- The state of a machine with a stack of its own. -/
structure Ideal where
  /-- code and data -/
  store : List Word
  /-- the words on the stack, the topmost first -/
  stack : List Word
  /-- the address of the next instruction -/
  pc : Word
  /-- the words written out, oldest first -/
  output : List Word
  /-- the stage in its life -/
  status : Status
  deriving DecidableEq, Repr

namespace Ideal

/-- A machine with a store of the given size that has just been loaded with a program. -/
def start (size : Nat) (program : List Word) : Ideal where
  store := program ++ List.replicate (size - program.length) 0
  stack := []
  pc := 0
  output := []
  status := .loaded

/-- The word at an address of the store. -/
def read? (s : Ideal) (address : Word) : Option Word := (Word.index? address).bind (s.store[·]?)

/-- The store with a word put at an address, if there is this address. -/
def write? (s : Ideal) (address value : Word) : Option (List Word) :=
  (Word.index? address).bind fun i =>
    if i < s.store.length then some (s.store.set i value) else none

/-- Take the word at the program counter, and go on to the next. -/
def fetch : EStateM Trap Ideal Word := fun s =>
  match s.read? s.pc with
  | none => .error (.fetchOutOfBounds s.pc) s
  | some word => .ok word { s with pc := s.pc + 1 }

/-- What an operation does with its operands. Where no row applies the stack has too few
words, and those that it has are gone. -/
def effect (op : Opcode) (operands : List Word) : EStateM Trap Ideal Unit := fun s =>
  match op, operands, s.stack with
  | .halt, [], _ => .ok () s
  | .push, [value], stack => .ok () { s with stack := value :: stack }
  | .pop, [], _ :: stack => .ok () { s with stack }
  | .dup, [], a :: stack => .ok () { s with stack := a :: a :: stack }
  | .swap, [], b :: a :: stack => .ok () { s with stack := a :: b :: stack }
  | .add, [], b :: a :: stack => .ok () { s with stack := (a + b) :: stack }
  | .sub, [], b :: a :: stack => .ok () { s with stack := (a - b) :: stack }
  | .mul, [], b :: a :: stack => .ok () { s with stack := (a * b) :: stack }
  | .div, [], b :: a :: stack =>
    if b = 0 then .error .divideByZero { s with stack }
    else .ok () { s with stack := (a / b) :: stack }
  | .mod, [], b :: a :: stack =>
    if b = 0 then .error .divideByZero { s with stack }
    else .ok () { s with stack := (a % b) :: stack }
  | .neg, [], a :: stack => .ok () { s with stack := (-a) :: stack }
  | .eq, [], b :: a :: stack => .ok () { s with stack := (if a = b then 1 else 0) :: stack }
  | .lt, [], b :: a :: stack => .ok () { s with stack := (if a < b then 1 else 0) :: stack }
  | .gt, [], b :: a :: stack => .ok () { s with stack := (if b < a then 1 else 0) :: stack }
  | .jmp, [target], _ => .ok () { s with pc := target }
  | .jz, [target], a :: stack => .ok () { s with stack, pc := if a = 0 then target else s.pc }
  | .jnz, [target], a :: stack => .ok () { s with stack, pc := if a ≠ 0 then target else s.pc }
  | .load, [address], stack =>
    match s.read? address with
    | none => .error (.outOfBounds address) s
    | some value => .ok () { s with stack := value :: stack }
  | .store, [address], a :: stack =>
    match s.write? address a with
    | none => .error (.outOfBounds address) { s with stack }
    | some store => .ok () { s with stack, store }
  | .call, [target], stack => .ok () { s with stack := s.pc :: stack, pc := target }
  | .ret, [], target :: stack => .ok () { s with stack, pc := target }
  | .out, [], a :: stack => .ok () { s with stack, output := s.output ++ [a] }
  | _, _, _ => .error .stackUnderflow { s with stack := [] }

variable {s : Ideal} {op : Opcode} {bop : BinaryOp} {a b w : Word}

theorem fetch_of_some (h : s.read? s.pc = some w) : fetch s = .ok w { s with pc := s.pc + 1 } := by
  rw [fetch, h]

theorem fetch_of_none (h : s.read? s.pc = none) : fetch s = .error (.fetchOutOfBounds s.pc) s := by
  rw [fetch, h]

/-! ## Rows of the table

Most rows hold by definition. These are the others.
-/

/-- Binary operations need two words. -/
theorem effect_binary_of_lt (hop : op.binary? = some bop) (hs : s.stack.length < 2) :
    effect op [] s = .error .stackUnderflow { s with stack := [] } := by
  obtain ⟨store, stack, pc, output, status⟩ := s
  rcases stack with _ | ⟨b, _ | ⟨a, rest⟩⟩
  · cases op <;> cases hop <;> rfl
  · cases op <;> cases hop <;> rfl
  · simp only [List.length_cons] at hs
    omega

/-- Binary operations replace the two topmost words by the result, if there is one. -/
theorem effect_binary {rest : List Word} (hop : op.binary? = some bop)
    (hs : s.stack = b :: a :: rest) :
    effect op [] s =
      match bop.apply a b with
      | none => .error .divideByZero { s with stack := rest }
      | some w => .ok () { s with stack := w :: rest } := by
  obtain ⟨store, stack, pc, output, status⟩ := s
  obtain rfl : stack = b :: a :: rest := hs
  cases op <;> cases hop
  case div | mod =>
    by_cases zero : b = 0
    · rw [BinaryOp.apply, if_pos zero]
      exact if_pos zero
    · rw [BinaryOp.apply, if_neg zero]
      exact if_neg zero
  case eq =>
    rw [BinaryOp.apply_eq]
    rfl
  case lt =>
    rw [BinaryOp.apply_lt]
    rfl
  case gt =>
    rw [BinaryOp.apply_gt]
    rfl
  all_goals rfl

/-- What is loaded is what the store has at the address, if it has anything. -/
theorem effect_load (s : Ideal) (address : Word) :
    effect .load [address] s =
      match s.read? address with
      | none => .error (.outOfBounds address) s
      | some value => .ok () { s with stack := value :: s.stack } :=
  rfl

/-- What is stored is the topmost word, if the store has the address. -/
theorem effect_store {rest : List Word} (hs : s.stack = w :: rest) (address : Word) :
    effect .store [address] s =
      match s.write? address w with
      | none => .error (.outOfBounds address) { s with stack := rest }
      | some store => .ok () { s with stack := rest, store } := by
  obtain ⟨store, stack, pc, output, status⟩ := s
  obtain rfl : stack = w :: rest := hs
  rfl

/-! ## Steps -/

/-- Fetch an operation and its operands, and do what it does. -/
def instruction : EStateM Trap Ideal Opcode := do
  let word ← fetch
  match Opcode.decode? word with
  | none => throw (.invalidOpcode word)
  | some op =>
    let operands ← op.operands.mapM fun _ => fetch
    effect op operands
    return op

/-- Execute one instruction. A machine that has halted or faulted stays as it is. -/
def step (s : Ideal) : Ideal :=
  match s.status with
  | .loaded | .running =>
    match instruction { s with status := .running } with
    | .ok op t => { t with status := if op = .halt then .halted else .running }
    | .error trap t => { t with status := .faulted ⟨trap, s.pc⟩ }
  | _ => s

/-- Whether the machine may execute an instruction. -/
def Active (s : Ideal) : Prop := s.status = .loaded ∨ s.status = .running

theorem step_of_not_active (h : ¬s.Active) : step s = s := by
  unfold step
  split
  · next loaded => exact absurd (.inl loaded) h
  · next running => exact absurd (.inr running) h
  · rfl

theorem step_of_active (h : s.Active) :
    step s =
      match instruction { s with status := .running } with
      | .ok op t => { t with status := if op = .halt then .halted else .running }
      | .error trap t => { t with status := .faulted ⟨trap, s.pc⟩ } := by
  unfold step
  split
  · rfl
  · rfl
  · next neitherLoaded norRunning => exact absurd h (not_or_intro neitherLoaded norRunning)

/-- Whether something went wrong because of an address outside the store: a word was to be
fetched or loaded from there, or to be stored there. -/
def strayed (s : Ideal) : Bool :=
  match s.status with
  | .faulted ⟨.fetchOutOfBounds _, _⟩ | .faulted ⟨.outOfBounds _, _⟩ => true
  | _ => false

/-- The stack is not too deep, and all addresses are inside the store. -/
structure Contained (room : Nat) (s : Ideal) : Prop where
  shallow : s.stack.length ≤ room
  inside : s.strayed = false

instance (room : Nat) (s : Ideal) : Decidable (s.Contained room) :=
  decidable_of_iff (s.stack.length ≤ room ∧ s.strayed = false)
    ⟨fun h => ⟨h.1, h.2⟩, fun h => ⟨h.1, h.2⟩⟩

end Ideal

end Stackwright
