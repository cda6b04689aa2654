import Stackwright.Machine.Fault

/-!
# The machine

A machine has a memory, two registers and little else. The program lies at the
bottom of memory. The stack grows down from the top: the stack pointer is the
address of the topmost word, and it equals the size of memory when the stack is
empty. Nothing keeps the two apart, so a program may overwrite itself and its data
with the stack.

What a machine does is an action on it, `Control`, that gives a result or a refusal
and leaves a machine behind in both cases.
-/

namespace Stackwright

/-- What has to be known to make a machine. -/
structure MachineConfig where
  /-- the number of memory cells -/
  capacity : Nat
  /-- the number of instructions after which the machine faults -/
  maxSteps : Option Nat
  deriving DecidableEq, Repr

/-- The number of memory cells unless something else is asked for. -/
def defaultCapacity : Nat := 256

/-- The state of a machine. -/
structure Machine where
  /-- what the machine was made with -/
  config : MachineConfig
  /-- code, data and stack -/
  memory : Memory
  /-- the address of the next instruction -/
  pc : Word
  /-- the address of the topmost word of the stack -/
  sp : Word
  /-- the stage in its life -/
  status : Status
  /-- the number of words loaded, which is the next address to load to -/
  loaded : Nat
  /-- the number of instructions executed -/
  steps : Nat
  /-- the words written out, oldest first -/
  output : Array Word
  deriving DecidableEq, Repr

/-- An action of a machine. -/
abbrev Control : Type → Type := EStateM MachineError Machine

namespace Machine

/-- The number of memory cells. -/
def capacity (m : Machine) : Nat := m.memory.capacity

/-- The stack pointer of an empty stack. -/
def stackBase (m : Machine) : Word := Word.ofNat m.capacity

/-- Start afresh: memory, registers, counts and output, but not the stage. -/
def reset (m : Machine) : Machine :=
  { m with
    memory := m.memory.clear
    pc := 0
    sp := m.stackBase
    loaded := 0
    steps := 0
    output := #[] }

/-- A machine without a program. -/
def fresh (config : MachineConfig)
    (addressable : config.capacity ≤ Word.greatest := by decide) : Machine :=
  reset
    { config
      memory := .zeros config.capacity addressable
      pc := 0
      sp := 0
      status := .constructed
      loaded := 0
      steps := 0
      output := #[] }

/-- Make a machine. Every cell has to have an address. -/
def new (config : MachineConfig) : Except MachineError Machine :=
  if addressable : config.capacity ≤ Word.greatest then .ok (fresh config addressable)
  else .error (.capacityTooLarge config.capacity Word.greatest)

/-- The words on the stack, the topmost first. -/
def stack (m : Machine) : List Word := m.memory.contentsFrom m.sp

/-- The topmost word of the stack, or the trap that looking at it gives. -/
def peek (m : Machine) : Except Trap Word :=
  if m.stackBase ≤ m.sp then .error .stackUnderflow
  else
    match m.memory.read m.sp with
    | .ok w => .ok w
    | .error e => .error (.outOfBounds e.address)

/-- The topmost word of the stack. -/
def top? (m : Machine) : Option Word := m.peek.toOption

end Machine

end Stackwright
