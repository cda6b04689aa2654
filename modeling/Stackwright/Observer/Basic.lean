import Stackwright.Machine.Execution

/-!
# Observed runs

A run executes instructions until the program halts or something goes wrong. It can
be watched by *observers*. An observer looks at the machine once before the first
instruction, and again after each instruction that was executed; it keeps a state of
its own and prints lines, and it can do nothing to the machine. Several observers
watch in their order.

Programs need not end, so a run is given *fuel*, a number of instructions after
which it is broken off.
-/

namespace Stackwright

/-- States from which a run can be watched. -/
class Observer (σ : Type) where
  /-- look at the machine before the first instruction -/
  start : Machine → σ → σ × List String
  /-- look at the machine after an instruction; the number counts instructions -/
  after : Nat → Executed → Machine → σ → σ × List String

/-- Let each of several observers look in turn. -/
def eachInTurn {σ : Type} (look : σ → σ × List String) : List σ → List σ × List String
  | [] => ([], [])
  | s :: rest =>
    let (s', first) := look s
    let (rest', others) := eachInTurn look rest
    (s' :: rest', first ++ others)

instance {σ : Type} [Observer σ] : Observer (List σ) where
  start m := eachInTurn (Observer.start m)
  after time executed m := eachInTurn (Observer.after time executed m)

instance {σ τ : Type} [Observer σ] [Observer τ] : Observer (σ ⊕ τ) where
  start m
    | .inl s => let (s', lines) := Observer.start m s; (.inl s', lines)
    | .inr s => let (s', lines) := Observer.start m s; (.inr s', lines)
  after time executed m
    | .inl s => let (s', lines) := Observer.after time executed m s; (.inl s', lines)
    | .inr s => let (s', lines) := Observer.after time executed m s; (.inr s', lines)

/-- The observer that sees nothing. -/
instance : Observer Unit where
  start _ _ := ((), [])
  after _ _ _ _ := ((), [])

/-- How a run came to an end. -/
inductive Ending where
  /-- the program halted -/
  | halted
  /-- the machine faulted, or refused to run -/
  | failed (error : MachineError)
  /-- the fuel was used up -/
  | brokenOff
  deriving DecidableEq, Repr

/-- What is left of a run. -/
structure Run (σ : Type) where
  /-- how it ended -/
  ending : Ending
  /-- the machine -/
  machine : Machine
  /-- the observer -/
  observer : σ
  /-- the lines printed, in order -/
  printed : Array String

namespace Machine

variable {σ : Type} [Observer σ]

/-- Execute instructions until the run ends. -/
def runFrom (fuel : Nat) (m : Machine) (observer : σ) (printed : Array String) : Run σ :=
  match fuel with
  | 0 => ⟨.brokenOff, m, observer, printed⟩
  | fuel + 1 =>
    match step m with
    | .error e m => ⟨.failed e, m, observer, printed⟩
    | .ok executed m =>
      let (observer, lines) := Observer.after m.steps executed m observer
      let printed := printed ++ lines
      match m.status with
      | .halted => ⟨.halted, m, observer, printed⟩
      | _ => runFrom fuel m observer printed

/-- Run a machine that has just been loaded. Any other is refused before an
observer sees it. -/
def runObserved (fuel : Nat) (m : Machine) (observer : σ) : Run σ :=
  match m.status with
  | .loaded =>
    let (observer, lines) := Observer.start m observer
    runFrom fuel m observer lines.toArray
  | status => ⟨.failed (.invalidState .run status), m, observer, #[]⟩

/-- Run a machine that nobody watches. -/
def run (fuel : Nat) (m : Machine) : Run Unit := runObserved fuel m ()

/-- Fuel for a run that is to go on as long as it can: enough to reach the step
limit, or, without a limit, more than can be used up in a lifetime. -/
def ampleFuel (maxSteps : Option Nat) : Nat :=
  match maxSteps with
  | some limit => limit + 1
  | none => 4611686018427387904

end Machine

end Stackwright
