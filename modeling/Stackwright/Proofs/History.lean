import Stackwright.Observer.Console
import Stackwright.Observer.Journal
import Stackwright.Proofs.Reachable
import Stackwright.Proofs.Running

/-!
# The history of a run

A run is nothing but steps. `Unfolds` takes one step after the other, until an instruction halts
the machine or a step fails, and it keeps a *history* of what was executed, each time with the
machine right after it. A run that ends has such a history, and it ends as its history does
(`exists_unfolds_of_runFrom`); and where the steps come to an end, there a run ends that has fuel
for them (`runFrom_of_unfolds`).

What observers get to see of a run are *sightings*: the machine before the first instruction, and
then the entries of the history, which are numbered. Each observer is shown all of them once, in
order, and nothing else (`Recorded`).
-/

namespace Stackwright

/-! ## What there is to see -/

/-- An entry in the history of a run. -/
structure Event where
  /-- the instruction that was executed -/
  executed : Executed
  /-- the machine right after it -/
  machine : Machine
  deriving DecidableEq, Repr

/-- What observers are shown. -/
inductive Sighting where
  /-- the machine before the first instruction -/
  | start (m : Machine)
  /-- an instruction and the machine after it; the number counts instructions -/
  | instruction (time : Nat) (event : Event)
  deriving DecidableEq, Repr

namespace Sighting

/-- The entries of a history; the first of them has number `first`. -/
def numbered (first : Nat) (history : List Event) : List Sighting :=
  (history.zipIdx first).map fun entry => .instruction entry.2 entry.1

/-- All that there is to see of a run from a machine with a history. -/
def ofRun (m : Machine) (history : List Event) : List Sighting :=
  .start m :: numbered 1 history

theorem numbered_cons (first : Nat) (event : Event) (history : List Event) :
    numbered first (event :: history) =
      .instruction first event :: numbered (first + 1) history := rfl

variable {σ : Type} [Observer σ]

/-- Show it to an observer. -/
def showTo (observer : σ) : Sighting → σ × List String
  | start m => Observer.start m observer
  | instruction time event => Observer.after time event.executed event.machine observer

/-- Show some of them to an observer, one after the other. -/
def showAll (observer : σ) : List Sighting → σ × List String
  | [] => (observer, [])
  | sighting :: rest =>
    let (observer', lines) := sighting.showTo observer
    let (observer'', others) := showAll observer' rest
    (observer'', lines ++ others)

end Sighting

open Sighting (numbered ofRun showAll)

theorem fst_eachInTurn {σ : Type} (look : σ → σ × List String) (observers : List σ) :
    (eachInTurn look observers).1 = observers.map fun o => (look o).1 := by
  induction observers with
  | nil => rfl
  | cons o rest ih => exact congrArg ((look o).1 :: ·) ih

variable {σ : Type} [Observer σ]

/-- A sighting that is shown to several observers is shown to each of them. -/
theorem fst_showTo (observers : List σ) (sighting : Sighting) :
    (sighting.showTo observers).1 = observers.map fun o => (sighting.showTo o).1 := by
  cases sighting with
  | start m => exact fst_eachInTurn ..
  | instruction time event => exact fst_eachInTurn ..

/-- What is shown to several observers is shown to each of them. -/
theorem fst_showAll (observers : List σ) (sightings : List Sighting) :
    (showAll observers sightings).1 = observers.map fun o => (showAll o sightings).1 := by
  induction sightings generalizing observers with
  | nil => exact (List.map_id' observers).symm
  | cons sighting rest ih =>
    have first : (showAll observers (sighting :: rest)).1 =
        (showAll (sighting.showTo observers).1 rest).1 := rfl
    rw [first, ih, fst_showTo, List.map_map]
    rfl

namespace Machine

variable {m m' : Machine} {history : List Event} {ending : Ending} {fuel : Nat}

/-! ## Steps until the end -/

/-- One step is taken after the other until there is an end to it. This is the history of what was
executed on the way, the manner in which it ended, and the machine at the end. -/
inductive Unfolds : Machine → List Event → Ending → Machine → Prop where
  /-- the next step fails -/
  | failed {m m' : Machine} {e : MachineError} (h : step m = .error e m') :
    Unfolds m [] (.failed e) m'
  /-- the next instruction halts the machine -/
  | halted {m m' : Machine} {executed : Executed} (h : step m = .ok executed m')
    (halt : m'.status = .halted) : Unfolds m [⟨executed, m'⟩] .halted m'
  /-- an instruction is executed, and then others -/
  | next {m m₁ m' : Machine} {executed : Executed} {history : List Event} {ending : Ending}
    (first : step m = .ok executed m₁) (going : m₁.status ≠ .halted)
    (rest : Unfolds m₁ history ending m') : Unfolds m (⟨executed, m₁⟩ :: history) ending m'

/-- The instruction that is executed is the one at the program counter. -/
theorem executed_of_step {executed : Executed} (h : step m = .ok executed m') :
    executed.address = m.pc ∧ m.memory.read m.pc = .ok executed.op.code := by
  obtain ⟨op, m₁, -, -, executes, rfl, -⟩ := exists_execute_of_step h
  exact ⟨rfl, (execute_eq_ok_iff.mp executes).1⟩

/-- A machine halts by a halt instruction. -/
theorem op_of_halted {executed : Executed} (h : step m = .ok executed m')
    (halted : m'.status = .halted) : executed.op = .halt := by
  obtain ⟨op, m₁, -, -, -, rfl, rfl⟩ := exists_execute_of_step h
  by_contra other
  rw [show _ = Status.running from if_neg other] at halted
  cases halted

/-- An instruction that goes wrong is not counted. -/
theorem steps_of_error {e : MachineError} (h : step m = .error e m') : m'.steps = m.steps := by
  rcases step_cases m with ⟨-, result⟩ | ⟨limit, -, -, result⟩ | ⟨op, m₁, -, -, -, result⟩ |
    ⟨trap, m₁, -, -, executes, result⟩
  · rw [result] at h
    cases h
    rfl
  · rw [result] at h
    cases h
    rfl
  · rw [result] at h
    cases h
  · rw [result] at h
    cases h
    have passes := passes_execute { m with status := .running }
    unfold after at passes
    rw [executes] at passes
    exact (alike_of_underway passes).steps_eq

namespace Unfolds

/-- Each entry of the history is what a step gave, from the machine that the entry before it shows,
or from the first machine if there is none. -/
theorem faithful (h : Unfolds m history ending m') {i : Nat} {event : Event}
    (entry : history[i]? = some event) :
    ∃ before, (m :: history.map Event.machine)[i]? = some before ∧
      step before = .ok event.executed event.machine := by
  induction h generalizing i with
  | failed _ => cases entry
  | @halted m m' executed h _ =>
    cases i with
    | zero =>
      cases entry
      exact ⟨m, rfl, h⟩
    | succ i => cases entry
  | @next m m₁ m' executed history ending first _ _ ih =>
    cases i with
    | zero =>
      cases entry
      exact ⟨m, rfl, first⟩
    | succ i => exact ih entry

/-- The history of a program that halts ends with a halt instruction and the final machine. -/
theorem getLast?_of_halted (h : Unfolds m history .halted m') :
    ∃ address, history.getLast? = some ⟨⟨address, .halt⟩, m'⟩ := by
  generalize same : Ending.halted = ending at h
  induction h with
  | failed _ => cases same
  | @halted m m' executed h halt =>
    obtain ⟨address, op⟩ := executed
    obtain rfl : op = .halt := op_of_halted h halt
    exact ⟨address, rfl⟩
  | next _ _ _ ih =>
    obtain ⟨address, last⟩ := ih same
    refine ⟨address, ?_⟩
    rw [List.getLast?_cons, last]
    rfl

/-- The machine counts what was executed. -/
theorem steps_eq (h : Unfolds m history ending m') : m'.steps = m.steps + history.length := by
  induction h with
  | failed h => exact steps_of_error h
  | halted h _ => exact (steps_of_step h).1
  | next first _ _ ih =>
    rw [ih, (steps_of_step first).1, List.length_cons]
    omega

end Unfolds

/-! ## Runs with fuel -/

section Run

variable (observer : σ) (printed : Array String)

theorem runFrom_of_error {e : MachineError} (h : step m = .error e m') :
    runFrom (fuel + 1) m observer printed = ⟨.failed e, m', observer, printed⟩ := by
  rw [runFrom, h]

theorem runFrom_of_halt {executed : Executed} (h : step m = .ok executed m')
    (halted : m'.status = .halted) :
    runFrom (fuel + 1) m observer printed =
      ⟨.halted, m', (Observer.after m'.steps executed m' observer).1,
        printed ++ (Observer.after m'.steps executed m' observer).2⟩ := by
  rw [runFrom, h]
  simp only [halted]

theorem runFrom_of_going {executed : Executed} (h : step m = .ok executed m')
    (going : m'.status ≠ .halted) :
    runFrom (fuel + 1) m observer printed =
      runFrom fuel m' (Observer.after m'.steps executed m' observer).1
        (printed ++ (Observer.after m'.steps executed m' observer).2) := by
  have running := (status_of_step h).resolve_left going
  rw [runFrom, h]
  simp only [running]

/-- If a run ends, then the steps come to an end in the same way. The observer has been shown their
history, and its lines were printed. -/
theorem exists_unfolds_of_runFrom
    (ended : (runFrom fuel m observer printed).ending ≠ .brokenOff) :
    ∃ history, Unfolds m history (runFrom fuel m observer printed).ending
        (runFrom fuel m observer printed).machine ∧
      (runFrom fuel m observer printed).observer =
        (showAll observer (numbered (m.steps + 1) history)).1 ∧
      (runFrom fuel m observer printed).printed.toList =
        printed.toList ++ (showAll observer (numbered (m.steps + 1) history)).2 := by
  induction fuel generalizing m observer printed with
  | zero => exact absurd rfl ended
  | succ fuel ih =>
    cases stepped : step m with
    | error e m₁ =>
      rw [runFrom_of_error observer printed stepped]
      exact ⟨[], .failed stepped, rfl, (List.append_nil _).symm⟩
    | ok executed m₁ =>
      have counted := (steps_of_step stepped).1
      by_cases halted : m₁.status = .halted
      · rw [runFrom_of_halt observer printed stepped halted, counted]
        refine ⟨[⟨executed, m₁⟩], .halted stepped halted, rfl, ?_⟩
        simp [numbered, showAll, Sighting.showTo]
      · rw [runFrom_of_going observer printed stepped halted] at ended ⊢
        obtain ⟨history, unfolds, same, lines⟩ := ih _ _ ended
        refine ⟨⟨executed, m₁⟩ :: history, .next stepped halted unfolds, ?_, ?_⟩
        · rw [same, Sighting.numbered_cons, counted]
          rfl
        · rw [lines, Sighting.numbered_cons, counted]
          simp [showAll, Sighting.showTo]

/-- Where the steps come to an end, there a run ends that has fuel for them. -/
theorem runFrom_of_unfolds (h : Unfolds m history ending m') (enough : history.length < fuel) :
    (runFrom fuel m observer printed).ending = ending ∧
      (runFrom fuel m observer printed).machine = m' := by
  induction h generalizing fuel observer printed with
  | failed h =>
    obtain ⟨fuel, rfl⟩ := Nat.exists_eq_add_of_lt enough
    rw [runFrom_of_error observer printed h]
    exact ⟨rfl, rfl⟩
  | halted h halted =>
    obtain ⟨fuel, rfl⟩ := Nat.exists_eq_add_of_lt enough
    rw [runFrom_of_halt observer printed h halted]
    exact ⟨rfl, rfl⟩
  | next first going _ ih =>
    rw [List.length_cons] at enough
    obtain ⟨fuel, rfl⟩ := Nat.exists_eq_add_of_lt enough
    rw [runFrom_of_going observer printed first going]
    exact ih _ _ (by omega)

end Run

/-- A machine that is not ready to run refuses to, and no observer is shown anything. -/
theorem runObserved_of_not_loaded (other : m.status ≠ .loaded) (observer : σ) :
    runObserved fuel m observer =
      ⟨.failed (.invalidState .run m.status), m, observer, #[]⟩ := by
  unfold runObserved
  split
  · next loaded => exact absurd loaded other
  · rfl

/-- A run of a machine with a history, by observers to whom nothing else was shown. -/
structure Recorded (m : Machine) (history : List Event) (observers : List σ)
    (run : Run (List σ)) : Prop where
  /-- the run ends as the steps do -/
  unfolds : Unfolds m history run.ending run.machine
  /-- each entry is what a step gave, from the machine that the entry before it shows -/
  faithful : ∀ (i : Nat) (event : Event), history[i]? = some event →
    ∃ before, (m :: history.map Event.machine)[i]? = some before ∧
      step before = .ok event.executed event.machine ∧
      event.executed.address = before.pc ∧
      before.memory.read before.pc = .ok event.executed.op.code
  /-- there are as many entries as instructions were counted -/
  steps_eq : run.machine.steps = history.length
  /-- each observer is shown the start and the entries, which count from one -/
  observer_eq : run.observer = observers.map fun o => (showAll o (ofRun m history)).1
  /-- what was printed are the lines of the observers, in turn at each sighting -/
  printed_eq : run.printed.toList = (showAll observers (ofRun m history)).2
  /-- a program that halts has a halt instruction as its last entry -/
  halt : run.ending = .halted →
    ∃ address, history.getLast? = some ⟨⟨address, .halt⟩, run.machine⟩

/-- A run from the first instruction is recorded, if it ends. -/
theorem exists_recorded_of_loaded (loaded : m.status = .loaded) (unstarted : m.steps = 0)
    (observers : List σ) (ended : (runObserved fuel m observers).ending ≠ .brokenOff) :
    ∃ history, Recorded m history observers (runObserved fuel m observers) := by
  have begun : runObserved fuel m observers =
      runFrom fuel m (Observer.start m observers).1 (Observer.start m observers).2.toArray := by
    rw [runObserved, loaded]
  rw [begun] at ended ⊢
  obtain ⟨history, unfolds, same, lines⟩ := exists_unfolds_of_runFrom _ _ ended
  rw [unstarted] at same lines
  refine ⟨history, unfolds, fun i event entry => ?_, ?_, ?_, ?_, fun halted => ?_⟩
  · obtain ⟨before, place, stepped⟩ := unfolds.faithful entry
    exact ⟨before, place, stepped, executed_of_step stepped⟩
  · rw [unfolds.steps_eq, unstarted, Nat.zero_add]
  · rw [same, ← fst_showAll]
    rfl
  · rw [lines]
    simp [ofRun, showAll, Sighting.showTo]
  · exact (halted ▸ unfolds).getLast?_of_halted

/-- **A run is nothing but steps**, and each observer is shown each of them. If the run of a loaded
machine ends then it is recorded, and if the steps come to an end then the run ends with them. Any
other machine is refused, and no observer is shown anything. -/
theorem run_recorded {config : MachineConfig} (reachable : Reachable config m)
    (observers : List σ) :
    (m.status = .loaded →
      (∀ fuel, (runObserved fuel m observers).ending ≠ .brokenOff →
        ∃ history, Recorded m history observers (runObserved fuel m observers)) ∧
      ∀ history ending m', Unfolds m history ending m' → ∀ fuel, history.length < fuel →
        (runObserved fuel m observers).ending = ending ∧
          (runObserved fuel m observers).machine = m') ∧
    (m.status ≠ .loaded → ∀ fuel,
      runObserved fuel m observers =
        ⟨.failed (.invalidState .run m.status), m, observers, #[]⟩) := by
  refine ⟨fun loaded => ⟨fun fuel ended => ?_, fun history ending m' unfolds fuel enough => ?_⟩,
    fun other fuel => ?_⟩
  · have unstarted := reachable.invariant.unstarted (.inr loaded)
    exact exists_recorded_of_loaded loaded unstarted.steps_eq observers ended
  · rw [runObserved, loaded]
    exact runFrom_of_unfolds _ _ unfolds enough
  · exact runObserved_of_not_loaded other observers

/-- A machine that was loaded with a program which writes the word 7 and halts. -/
def terse : Machine := after (load [1, 7, 21, 0]) (fresh ⟨8, none⟩)

/-- A journal and a console. -/
def onlookers : List (Journal ⊕ Console) := [.inl .empty, .inr .plain]

theorem run_recorded_terse :
    Reachable ⟨8, none⟩ terse ∧ terse.status = .loaded ∧
      (runObserved 9 terse onlookers).ending = .halted ∧
      ∃ history, Recorded terse history onlookers (runObserved 9 terse onlookers) ∧
        history.length = 3 := by
  have reachable : Reachable ⟨8, none⟩ terse := .load _ (.made rfl)
  have loaded : terse.status = .loaded := by decide +kernel
  have ending : (runObserved 9 terse onlookers).ending = .halted := by decide +kernel
  obtain ⟨ends, -⟩ := (run_recorded reachable onlookers).1 loaded
  obtain ⟨history, recorded⟩ := ends 9 (by rw [ending]; rintro ⟨⟩)
  refine ⟨reachable, loaded, ending, history, recorded, ?_⟩
  rw [← recorded.steps_eq]
  decide +kernel

end Machine

end Stackwright
