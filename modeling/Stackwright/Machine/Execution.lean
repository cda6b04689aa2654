import Stackwright.Machine.Basic
import Stackwright.Opcode

/-!
# Execution

One instruction is executed by small moves that fetch words at the program counter
and move words to and from the stack. A move that is impossible traps, and then the
instruction ends where it is: words that were fetched stay fetched, and words that
were taken off the stack stay off.

A word that is taken off the stack stays in memory. Only the stack pointer moves.
-/

namespace Stackwright

/-- A part of an instruction. -/
abbrev Move : Type → Type := EStateM Trap Machine

/-- An instruction that was executed. -/
structure Executed where
  /-- the address of its operation -/
  address : Word
  /-- its operation -/
  op : Opcode
  deriving DecidableEq, Repr

namespace Machine

/-! ## Moves

Each move comes with an equation that says what it does to the machine.
-/

/-- To look at the machine changes nothing. -/
theorem get_bind {α : Type} (f : Machine → Move α) (m : Machine) : (get >>= f) m = f m m :=
  rfl

/-- Take the word at the program counter, and go on to the next. -/
def fetch : Move Word := do
  let m ← get
  match m.memory.read m.pc with
  | .error _ => throw (.fetchOutOfBounds m.pc)
  | .ok word =>
    modify fun m => { m with pc := m.pc + 1 }
    return word

/-- Fetching works just if the program counter is the address of a cell. -/
theorem fetch_eq (m : Machine) :
    fetch m =
      match m.memory.read m.pc with
      | .ok word => .ok word { m with pc := m.pc + 1 }
      | .error _ => .error (.fetchOutOfBounds m.pc) m := by
  rw [fetch, get_bind]
  cases m.memory.read m.pc <;> rfl

/-- Read a cell. -/
def readCell (address : Word) : Move Word := do
  match (← get).memory.read address with
  | .error e => throw (.outOfBounds e.address)
  | .ok word => return word

/-- Reading a cell leaves the machine as it is. -/
theorem readCell_eq (address : Word) (m : Machine) :
    readCell address m =
      match m.memory.read address with
      | .ok word => .ok word m
      | .error e => .error (.outOfBounds e.address) m := by
  rw [readCell, get_bind]
  cases m.memory.read address <;> rfl

/-- Write a cell. -/
def writeCell (address value : Word) : Move Unit := do
  let m ← get
  if ¬m.memory.Contains address then throw (.outOfBounds address)
  modify fun m => { m with memory := m.memory.set address value }

/-- Writing a cell changes this cell, or nothing at all. -/
theorem writeCell_eq (address value : Word) (m : Machine) :
    writeCell address value m =
      if m.memory.Contains address then
        .ok () { m with memory := m.memory.set address value }
      else .error (.outOfBounds address) m := by
  rw [writeCell, get_bind]
  by_cases h : m.memory.Contains address
  · rw [if_neg (not_not_intro h), if_pos h]
    rfl
  · rw [if_pos h, if_neg h]
    rfl

/-- Put a word on the stack. -/
def push (value : Word) : Move Unit := do
  let sp := (← get).sp - 1
  writeCell sp value
  modify fun m => { m with sp }

/-- Pushing writes the cell below the stack, and moves the stack pointer only if there
is such a cell. -/
theorem push_eq (value : Word) (m : Machine) :
    push value m =
      if m.memory.Contains (m.sp - 1) then
        .ok () { m with memory := m.memory.set (m.sp - 1) value, sp := m.sp - 1 }
      else .error (.outOfBounds (m.sp - 1)) m := by
  rw [push, get_bind]
  change EStateM.bind (writeCell (m.sp - 1) value) _ m = _
  rw [EStateM.bind, writeCell_eq]
  by_cases h : m.memory.Contains (m.sp - 1)
  · rw [if_pos h, if_pos h]
    rfl
  · rw [if_neg h, if_neg h]

/-- Look at the topmost word of the stack. -/
def look : Move Word := do
  match (← get).peek with
  | .error trap => throw trap
  | .ok word => return word

/-- Looking at the stack leaves the machine as it is. -/
theorem look_eq (m : Machine) :
    look m =
      match m.peek with
      | .ok word => .ok word m
      | .error trap => .error trap m := by
  rw [look, get_bind]
  cases m.peek <;> rfl

/-- Take the topmost word off the stack. -/
def pop : Move Word := do
  let word ← look
  modify fun m => { m with sp := m.sp + 1 }
  return word

/-- Popping moves the stack pointer and leaves memory as it is. -/
theorem pop_eq (m : Machine) :
    pop m =
      match m.peek with
      | .ok word => .ok word { m with sp := m.sp + 1 }
      | .error trap => .error trap m := by
  change EStateM.bind look _ m = _
  rw [EStateM.bind, look_eq]
  cases m.peek <;> rfl

/-- Go on at another address. -/
def jump (address : Word) : Move Unit := modify fun m => { m with pc := address }

/-- Write a word out. -/
def emitWord (word : Word) : Move Unit :=
  modify fun m => { m with output := m.output.push word }

/-- Replace the two topmost words by the result of a binary operation. -/
def combine (op : BinaryOp) : Move Unit := do
  let b ← pop
  let a ← pop
  match op.apply a b with
  | none => throw .divideByZero
  | some word => push word

/-! ## Instructions -/

/-- What an operation does once its own word has been fetched. -/
def perform : Opcode → Move Unit
  | .halt => return
  | .push => do
    let value ← fetch
    push value
  | .pop => do
    let _ ← pop
  | .dup => do
    let value ← look
    push value
  | .swap => do
    let b ← pop
    let a ← pop
    push b
    push a
  | .add => combine .add
  | .sub => combine .sub
  | .mul => combine .mul
  | .div => combine .div
  | .mod => combine .mod
  | .eq => combine .eq
  | .lt => combine .lt
  | .gt => combine .gt
  | .neg => do
    let value ← pop
    push (-value)
  | .jmp => do
    let target ← fetch
    jump target
  | .jz => do
    let target ← fetch
    let condition ← pop
    if condition = 0 then jump target
  | .jnz => do
    let target ← fetch
    let condition ← pop
    if condition ≠ 0 then jump target
  | .load => do
    let address ← fetch
    let value ← readCell address
    push value
  | .store => do
    let address ← fetch
    let value ← pop
    writeCell address value
  | .call => do
    let target ← fetch
    let back := (← get).pc
    push back
    jump target
  | .ret => do
    let target ← pop
    jump target
  | .out => do
    let word ← pop
    emitWord word

/-- Fetch an operation and perform it. -/
def execute : Move Opcode := do
  let word ← fetch
  match Opcode.decode? word with
  | none => throw (.invalidOpcode word)
  | some op =>
    perform op
    return op

/-! ## Steps -/

/-- The limit on the number of steps, if it is reached. -/
def exhausted? (m : Machine) : Option Nat := m.config.maxSteps.filter (· ≤ m.steps)

/-- One instruction, unless there have been enough. -/
def attempt : Move Opcode := do
  match (← get).exhausted? with
  | some limit => throw (.stepLimit limit)
  | none => execute

/-- Execute one instruction. A trap makes the machine fault for good. -/
def step : Control Executed := fun m =>
  match m.status with
  | .loaded | .running =>
    let address := m.pc
    match attempt { m with status := .running } with
    | .ok op m =>
      .ok ⟨address, op⟩
        { m with steps := m.steps + 1, status := if op = .halt then .halted else .running }
    | .error trap m =>
      let fault : Fault := ⟨trap, address⟩
      .error (.fault fault) { m with status := .faulted fault }
  | status => .error (.invalidState .step status) m

end Machine

end Stackwright
