import Stackwright.Proofs.History

/-!
# The life of a machine

A machine is constructed, loaded, run and then done with, be it that it has halted or that it has
faulted. It can be called on to load, to step or to run at any time, but it does so only when it is
time for that. Whatever it refuses leaves no trace; what it faults in is the end of it; and the
stages of its life come in their order, never one again that was left (`lifecycle`).

None of this rests on how the machine came about, nor on what it is given to load.
-/

namespace Stackwright

/-! ## Stages -/

namespace Status

/-- The stage that comes next. Programs are run after they have been loaded, and a run ends in one
of two ways. -/
inductive Next : Status → Status → Prop where
  | load : Next .constructed .loaded
  | start : Next .loaded .running
  | halt : Next .running .halted
  | fault (fault : Fault) : Next .running (.faulted fault)

/-- A stage comes after another, some stages later, or it is the same. -/
abbrev LeadsTo : Status → Status → Prop := Relation.ReflTransGen Next

/-- The machine is done with. -/
def IsFinal : Status → Prop
  | halted | faulted _ => True
  | constructed | loaded | running => False

instance : DecidablePred IsFinal
  | .halted | .faulted _ => inferInstanceAs (Decidable True)
  | .constructed | .loaded | .running => inferInstanceAs (Decidable False)

/-- The number of stages before this one. -/
def rank : Status → Nat
  | constructed => 0
  | loaded => 1
  | running => 2
  | halted | faulted _ => 3

variable {s t : Status}

/-- Whatever was executed, it comes after a stage in which instructions are executed. -/
theorem leadsTo_of_executed (active : s = .loaded ∨ s = .running)
    (executed : t = .running ∨ t.IsFinal) : s.LeadsTo t := by
  have running : s.LeadsTo .running := by
    rcases active with rfl | rfl
    · exact .single .start
    · exact .refl
  rcases executed with rfl | final
  · exact running
  · cases t with
    | halted => exact running.tail .halt
    | faulted fault => exact running.tail (.fault fault)
    | constructed => exact final.elim
    | loaded => exact final.elim
    | running => exact final.elim

theorem rank_lt_of_next (h : Next s t) : s.rank < t.rank := by
  cases h <;> simp [rank]

theorem rank_le_of_leadsTo (h : s.LeadsTo t) : s.rank ≤ t.rank := by
  induction h with
  | refl => exact Nat.le_refl _
  | tail _ last ih => exact Nat.le_trans ih (Nat.le_of_lt (rank_lt_of_next last))

/-- There is no way back. -/
theorem leadsTo_antisymm (there : s.LeadsTo t) (back : t.LeadsTo s) : s = t := by
  rcases Relation.ReflTransGen.cases_head there with same | ⟨next, first, rest⟩
  · exact same
  · have up := rank_lt_of_next first
    have := rank_le_of_leadsTo (rest.trans back)
    omega

end Status

namespace Machine

variable {m m' : Machine} {fuel : Nat}

/-! ## Calls -/

/-- What a machine can be called on to do. -/
inductive Call : Type 1 where
  /-- to load a program -/
  | load (program : List Word)
  /-- to load one word more -/
  | loadWord (word : Word)
  /-- to load an image, whatever comes from the stream -/
  | loadImage (feed : Feed)
  /-- to load an image file, whatever files there are -/
  | loadFile (files : FileTree) (path : String)
  /-- to execute an instruction -/
  | step
  /-- to run, watched or not -/
  | run {σ : Type} [Observer σ] (fuel : Nat) (observer : σ)

namespace Call

/-- Call on the machine. A run that is broken off is not at its end, so it fails in nothing. -/
def perform : Call → Control Unit
  | load program => Machine.load program
  | loadWord word => Machine.loadWord word
  | loadImage feed => Machine.loadImage feed
  | loadFile files path => Machine.loadFile files path
  | step => do
    let _ ← Machine.step
  | run fuel observer => fun m =>
    let run := runObserved fuel m observer
    match run.ending with
    | .failed e => .error e run.machine
    | .halted | .brokenOff => .ok () run.machine

/-- Whether instructions are to be executed. -/
def Executes : Call → Prop
  | step | run .. => True
  | load _ | loadWord _ | loadImage _ | loadFile .. => False

end Call

/-- The machine after some calls, one after the other, whether they succeed or not. -/
def afterAll (calls : List Call) (m : Machine) : Machine :=
  calls.foldl (fun m call => after call.perform m) m

/-- What a call can do to a machine. -/
structure Orderly (call : Call) (m : Machine) : Prop where
  /-- what fails without a fault does nothing to the machine -/
  refused : ∀ e m', call.perform m = .error e m' → (∀ fault, e ≠ .fault fault) → m' = m
  /-- a fault comes from executing instructions, and the machine remembers it -/
  faulted : ∀ fault m', call.perform m = .error (.fault fault) m' →
    call.Executes ∧ m.Active ∧ m'.status = .faulted fault
  /-- no stage is entered again that was left -/
  forward : m.status.LeadsTo (after call.perform m).status
  /-- nothing is executed before a program is loaded -/
  unloaded : m.status = .constructed →
    (after call.perform m).status = .constructed ∨ (after call.perform m).status = .loaded
  /-- a machine that is done with does nothing any more -/
  final : m.status.IsFinal → ∃ e, call.perform m = .error e m

theorem not_loadable_of_isFinal (h : m.status.IsFinal) : ¬m.Loadable := by
  rintro (early | early) <;> rw [early] at h <;> exact h

theorem not_active_of_constructed (h : m.status = .constructed) : ¬m.Active := by
  rintro (active | active) <;> rw [h] at active <;> cases active

theorem not_active_of_isFinal (h : m.status.IsFinal) : ¬m.Active := by
  rintro (early | early) <;> rw [early] at h <;> exact h

/-! ### What comes of a call -/

/-- What can come of a request to a machine. Only one that executes instructions can end in a
fault, and only if the machine is active. -/
inductive Outcome (executes : Prop) (x : Control Unit) (m : Machine) : Prop where
  /-- nothing happens -/
  | refused {e : MachineError} (h : x m = .error e m) (noFault : ∀ fault, e ≠ .fault fault)
  /-- something is loaded -/
  | loaded {m' : Machine} (h : x m = .ok () m') (loadable : m.Loadable)
    (status : m'.status = .loaded)
  /-- instructions are executed -/
  | executed {m' : Machine} (h : x m = .ok () m') (active : m.Active)
    (forward : m.status.LeadsTo m'.status)
  /-- an instruction goes wrong, perhaps after others -/
  | faulted {fault : Fault} {m' : Machine} (h : x m = .error (.fault fault) m')
    (able : executes) (active : m.Active) (status : m'.status = .faulted fault)

theorem outcome_load (program : List Word) (m : Machine) : Outcome False (load program) m := by
  by_cases loadable : m.Loadable
  · rcases Nat.lt_or_ge m.capacity program.length with large | fits
    · exact .refused (load_of_large loadable large) (by rintro _ ⟨⟩)
    · exact .loaded (load_eq_ok loadable fits) loadable rfl
  · exact .refused (load_of_not_loadable loadable) (by rintro _ ⟨⟩)

theorem outcome_loadWord (word : Word) (m : Machine) : Outcome False (loadWord word) m := by
  by_cases loadable : m.Loadable
  · rcases Nat.lt_or_ge m.loaded m.capacity with room | full
    · exact .loaded (loadWord_of_room loadable room) loadable rfl
    · exact .refused (loadWord_of_full loadable full) (by rintro _ ⟨⟩)
  · exact .refused (loadWord_of_not_loadable loadable) (by rintro _ ⟨⟩)

theorem outcome_loadImage (feed : Feed) (m : Machine) : Outcome False (loadImage feed) m := by
  rw [loadImage]
  cases Image.read feed with
  | error e => exact .refused rfl (by rintro _ ⟨⟩)
  | ok program => exact outcome_load program m

theorem outcome_loadFile (files : FileTree) (path : String) (m : Machine) :
    Outcome False (loadFile files path) m := by
  rw [loadFile]
  cases files.read path with
  | error e => exact .refused rfl (by rintro _ ⟨⟩)
  | ok stream => exact outcome_loadImage stream.feed m

/-- A machine that faults remembers the fault. -/
theorem status_of_fault {fault : Fault} (h : step m = .error (.fault fault) m') :
    m'.status = .faulted fault := by
  rcases step_cases m with ⟨-, result⟩ | ⟨limit, -, -, result⟩ | ⟨op, m₁, -, -, -, result⟩ |
    ⟨trap, m₁, -, -, -, result⟩
  · rw [result] at h
    cases h
  · rw [result] at h
    cases h
    rfl
  · rw [result] at h
    cases h
  · rw [result] at h
    cases h
    rfl

/-- An instruction that is executed leaves the machine running or halts it. -/
theorem leadsTo_of_step {executed : Executed} (h : step m = .ok executed m') :
    m.status.LeadsTo m'.status := by
  refine Status.leadsTo_of_executed (active_of_step h) ?_
  rcases status_of_step h with halted | running
  · exact .inr (by rw [halted]; trivial)
  · exact .inl running

theorem leadsTo_of_fault {fault : Fault} (h : step m = .error (.fault fault) m') :
    m.status.LeadsTo m'.status := by
  refine Status.leadsTo_of_executed (active_of_fault h) (.inr ?_)
  rw [status_of_fault h]
  trivial

theorem outcome_step (m : Machine) : Outcome True (Call.perform .step) m := by
  have result : Call.perform .step m =
      match step m with
      | .ok _ m' => .ok () m'
      | .error e m' => .error e m' := by
    cases h : step m with
    | ok executed m' => exact bind_of_ok h
    | error e m' => exact bind_of_error h
  by_cases active : m.Active
  · cases h : step m with
    | ok executed m' =>
      rw [h] at result
      exact .executed result active (leadsTo_of_step h)
    | error e m' =>
      rw [h] at result
      obtain ⟨fault, rfl⟩ := exists_fault_of_step active h
      exact .faulted result trivial active (status_of_fault h)
  · rw [step_of_not_active active] at result
    exact .refused result (by rintro _ ⟨⟩)

/-- A run goes forward, and if it fails then because of a fault. -/
theorem runFrom_outcome {σ : Type} [Observer σ] (active : m.Active) (observer : σ)
    (printed : Array String) :
    m.status.LeadsTo (runFrom fuel m observer printed).machine.status ∧
      ∀ e, (runFrom fuel m observer printed).ending = .failed e →
        ∃ fault, e = .fault fault ∧
          (runFrom fuel m observer printed).machine.status = .faulted fault := by
  induction fuel generalizing m observer printed with
  | zero => exact ⟨.refl, by rintro _ ⟨⟩⟩
  | succ fuel ih =>
    cases h : step m with
    | error e m' =>
      obtain ⟨fault, rfl⟩ := exists_fault_of_step active h
      rw [runFrom_of_error observer printed h]
      refine ⟨leadsTo_of_fault h, ?_⟩
      rintro _ ⟨⟩
      exact ⟨fault, rfl, status_of_fault h⟩
    | ok executed m' =>
      by_cases halted : m'.status = .halted
      · rw [runFrom_of_halt observer printed h halted]
        exact ⟨leadsTo_of_step h, by rintro _ ⟨⟩⟩
      · rw [runFrom_of_going observer printed h halted]
        have running := (status_of_step h).resolve_left halted
        obtain ⟨forward, fails⟩ := ih (.inr running) _ _
        exact ⟨(leadsTo_of_step h).trans forward, fails⟩

/-- The same of a machine that has just been loaded. -/
theorem runObserved_outcome {σ : Type} [Observer σ] (loaded : m.status = .loaded) (fuel : Nat)
    (observer : σ) :
    m.status.LeadsTo (runObserved fuel m observer).machine.status ∧
      ∀ e, (runObserved fuel m observer).ending = .failed e →
        ∃ fault, e = .fault fault ∧
          (runObserved fuel m observer).machine.status = .faulted fault := by
  have begun : runObserved fuel m observer =
      runFrom fuel m (Observer.start m observer).1 (Observer.start m observer).2.toArray := by
    rw [runObserved, loaded]
  rw [begun]
  exact runFrom_outcome (.inl loaded) _ _

theorem outcome_run {σ : Type} [Observer σ] (fuel : Nat) (observer : σ) (m : Machine) :
    Outcome True (Call.perform (.run fuel observer)) m := by
  by_cases loaded : m.status = .loaded
  · obtain ⟨forward, fails⟩ := runObserved_outcome loaded fuel observer
    cases ending : (runObserved fuel m observer).ending with
    | failed e =>
      obtain ⟨fault, rfl, status⟩ := fails e ending
      exact .faulted (by simp only [Call.perform, ending]) trivial (.inl loaded) status
    | halted => exact .executed (by simp only [Call.perform, ending]) (.inl loaded) forward
    | brokenOff => exact .executed (by simp only [Call.perform, ending]) (.inl loaded) forward
  · refine .refused (e := .invalidState .run m.status) ?_ (by rintro _ ⟨⟩)
    simp only [Call.perform, runObserved_of_not_loaded loaded]

/-- Each call comes to one of these ends. -/
theorem Call.outcome (call : Call) (m : Machine) : Outcome call.Executes call.perform m := by
  cases call with
  | load program => exact outcome_load program m
  | loadWord word => exact outcome_loadWord word m
  | loadImage feed => exact outcome_loadImage feed m
  | loadFile files path => exact outcome_loadFile files path m
  | step => exact outcome_step m
  | run fuel observer => exact outcome_run fuel observer m

/-! ## Every call, and any number of them -/

/-- Each call is orderly, whatever machine is called on. -/
theorem Call.orderly (call : Call) (m : Machine) : Orderly call m := by
  cases call.outcome m with
  | @refused e h noFault =>
    have stays : after call.perform m = m := by rw [after, h]
    refine ⟨by simp [h], by simp [h, noFault], ?_, fun unloaded => .inl ?_, fun _ => ⟨e, h⟩⟩
    · rw [stays]
    · rw [stays, unloaded]
  | @loaded m' h loadable status =>
    have becomes : (after call.perform m).status = .loaded := by rw [after, h, status]
    refine ⟨by simp [h], by simp [h], ?_, fun _ => .inr becomes,
      fun final => absurd loadable (not_loadable_of_isFinal final)⟩
    rw [becomes]
    rcases loadable with constructed | already
    · exact .single (constructed ▸ .load)
    · rw [already]
  | @executed m' h active forward =>
    have becomes : after call.perform m = m' := by rw [after, h]
    refine ⟨by simp [h], by simp [h], becomes ▸ forward,
      fun unloaded => absurd active (not_active_of_constructed unloaded),
      fun final => absurd active (not_active_of_isFinal final)⟩
  | @faulted fault m' h able active status =>
    have becomes : (after call.perform m).status = .faulted fault := by rw [after, h, status]
    refine ⟨?_, ?_, ?_, fun unloaded => absurd active (not_active_of_constructed unloaded),
      fun final => absurd active (not_active_of_isFinal final)⟩
    · intro e m'' failed noFault
      rw [h] at failed
      cases failed
      exact absurd rfl (noFault fault)
    · intro fault' m'' failed
      rw [h] at failed
      cases failed
      exact ⟨able, active, status⟩
    · rw [becomes]
      exact Status.leadsTo_of_executed active (.inr trivial)

theorem afterAll_cons (call : Call) (calls : List Call) (m : Machine) :
    afterAll (call :: calls) m = afterAll calls (after call.perform m) := rfl

theorem afterAll_append (earlier later : List Call) (m : Machine) :
    afterAll (earlier ++ later) m = afterAll later (afterAll earlier m) :=
  List.foldl_append

/-- Calls go forward. -/
theorem leadsTo_afterAll (calls : List Call) (m : Machine) :
    m.status.LeadsTo (afterAll calls m).status := by
  induction calls generalizing m with
  | nil => exact .refl
  | cons call calls ih => exact (call.orderly m).forward.trans (ih _)

/-- Calls do nothing to a machine that is done with. -/
theorem afterAll_of_isFinal (final : m.status.IsFinal) (calls : List Call) :
    afterAll calls m = m := by
  induction calls with
  | nil => rfl
  | cons call calls ih =>
    obtain ⟨e, refused⟩ := (call.orderly m).final final
    have stays : after call.perform m = m := by rw [after, refused]
    rw [afterAll_cons, stays, ih]

/-- **The life of a machine.** Whatever a machine is called on to do, in whatever stage, it does it
in an orderly way; so whatever the calls, its stages come in their order, one that was left is not
entered again, and once the machine is done with each further call fails and does nothing. -/
theorem lifecycle (m : Machine) :
    (∀ call : Call, Orderly call m) ∧
    (∀ calls, m.status.LeadsTo (afterAll calls m).status) ∧
    (∀ earlier later, (afterAll (earlier ++ later) m).status = m.status →
      (afterAll earlier m).status = m.status) ∧
    ∀ calls, (afterAll calls m).status.IsFinal → ∀ later,
      afterAll later (afterAll calls m) = afterAll calls m ∧
        ∀ call : Call, ∃ e,
          call.perform (afterAll later (afterAll calls m)) = .error e (afterAll calls m) := by
  refine ⟨fun call => call.orderly m, fun calls => leadsTo_afterAll calls m, ?_, ?_⟩
  · intro earlier later returned
    rw [afterAll_append] at returned
    have back := leadsTo_afterAll later (afterAll earlier m)
    rw [returned] at back
    exact (Status.leadsTo_antisymm (leadsTo_afterAll earlier m) back).symm
  · intro calls final later
    have stays := afterAll_of_isFinal final later
    rw [stays]
    exact ⟨rfl, fun call => (call.orderly _).final final⟩

end Machine

end Stackwright
