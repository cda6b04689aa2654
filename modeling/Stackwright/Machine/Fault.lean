import Stackwright.Image
import Stackwright.Memory

/-!
# Faults and refusals

A run can end badly in the middle of an instruction. What went wrong is a *trap*;
with the address of the instruction it makes a *fault*, and a machine that has
faulted stays so. Apart from faults a machine can refuse what it is asked to do, and
then nothing happens to it.
-/

namespace Stackwright

/-- What can go wrong in an instruction. -/
inductive Trap where
  /-- an instruction reads or writes outside memory -/
  | outOfBounds (address : Word)
  /-- the program counter leaves memory -/
  | fetchOutOfBounds (address : Word)
  /-- the stack has too few words -/
  | stackUnderflow
  /-- a divisor is zero -/
  | divideByZero
  /-- a word stands for no operation -/
  | invalidOpcode (word : Word)
  /-- as many instructions as are allowed were executed -/
  | stepLimit (limit : Nat)
  deriving DecidableEq, Repr

/-- The wording of a trap. -/
def Trap.message : Trap → String
  | outOfBounds address => "memory access out of bounds at address " ++ address.text
  | fetchOutOfBounds address =>
    "program counter " ++ address.text ++ " left memory without a halt"
  | stackUnderflow => "pop from an empty stack"
  | divideByZero => "division by zero"
  | invalidOpcode word => "invalid opcode " ++ word.text
  | stepLimit limit => s!"step limit of {limit} exhausted"

/-- The bad end of a run. -/
structure Fault where
  /-- what went wrong -/
  trap : Trap
  /-- the address of the instruction -/
  pc : Word
  deriving DecidableEq, Repr

/-- The wording of a fault. -/
def Fault.message (fault : Fault) : String :=
  fault.trap.message ++ " (pc = " ++ fault.pc.text ++ ")"

/-- The stages in the life of a machine. -/
inductive Status where
  /-- nothing is loaded yet -/
  | constructed
  /-- a program is loaded -/
  | loaded
  /-- instructions were executed, and more may follow -/
  | running
  /-- the program ended by itself -/
  | halted
  /-- the program ended badly -/
  | faulted (fault : Fault)
  deriving DecidableEq, Repr

/-- The name of a stage. -/
def Status.text : Status → String
  | constructed => "constructed"
  | loaded => "loaded"
  | running => "running"
  | halted => "halted"
  | faulted _ => "faulted"

/-- What a machine can be asked to do in some of its stages only. -/
inductive Request where
  | load
  | run
  | step
  deriving DecidableEq, Repr

/-- The name of a request. -/
def Request.text : Request → String
  | load => "load"
  | run => "run"
  | step => "step"

/-- Why a machine does not do what it is asked to do. -/
inductive MachineError where
  /-- the program has more words than memory -/
  | programTooLarge (size : Nat) (capacity : Nat)
  /-- memory would have more cells than there are addresses -/
  | capacityTooLarge (capacity : Nat) (limit : Nat)
  /-- it is not the time for this request -/
  | invalidState (request : Request) (status : Status)
  /-- the image is bad -/
  | image (cause : ImageError)
  /-- the image file cannot be opened -/
  | fileOpen (path : String) (cause : IoError)
  /-- an instruction went wrong -/
  | fault (fault : Fault)
  deriving DecidableEq, Repr

namespace MachineError

/-- The wording of the error. -/
def message : MachineError → String
  | programTooLarge size capacity =>
    s!"program of {size} word(s) does not fit in memory of {capacity} word(s)"
  | capacityTooLarge capacity limit =>
    s!"memory of {capacity} word(s) exceeds the limit of {limit}"
  | invalidState request status =>
    s!"cannot {request.text} a machine that is {status.text}"
  | image _ => "Failed to load image"
  | fileOpen path _ => s!"Failed to open file: {path}"
  | fault f => f.message

/-- The wording of what is behind the error, if anything is. -/
def cause : MachineError → Option String
  | image cause => some cause.message
  | fileOpen _ cause => some cause.message
  | _ => none

end MachineError

end Stackwright
