import Stackwright.Observer.Basic
import Stackwright.Proofs.Moves

/-!
# Runs, instruction by instruction

A run is given fuel, and what is left of it when the fuel is used up says nothing about the
program. `Executes` counts the instructions instead: it says that one machine comes about from
another by so many instructions, each of which succeeds. A run ends after so many of them, either
because the last one halted the machine (`HaltsAfter`) or because the next one goes wrong
(`FaultsAfter`).

The two ways of speaking agree. Where the instructions lead, there the run ends once it has fuel
for them, whoever watches it (`runFrom_of_halted`, `runFrom_of_fault`), and until then it goes on
(`executes_cases`).
-/

namespace Stackwright.Machine

variable {m m₁ m' : Machine} {k : Nat}

/-! ## Instructions one after the other -/

/-- So many instructions succeed one after the other, and lead from one machine to another. -/
inductive Executes : Nat → Machine → Machine → Prop where
  /-- no instruction at all -/
  | refl {m : Machine} : Executes 0 m m
  /-- an instruction, and then the others -/
  | next {k : Nat} {m m₁ m' : Machine} {executed : Executed} (first : step m = .ok executed m₁)
    (rest : Executes k m₁ m') : Executes (k + 1) m m'

/-- An instruction that succeeds leaves the machine running, or it was a halt instruction. -/
theorem status_of_step {executed : Executed} (h : step m = .ok executed m') :
    m'.status = .halted ∨ m'.status = .running := by
  obtain ⟨op, m₁, -, -, -, -, rfl⟩ := exists_execute_of_step h
  by_cases halt : op = .halt
  · exact .inl (if_pos halt)
  · exact .inr (if_neg halt)

/-- A machine that has halted is not active. -/
theorem not_active_of_halted (h : m.status = .halted) : ¬m.Active := by
  rintro (loaded | running)
  · rw [h] at loaded
    cases loaded
  · rw [h] at running
    cases running

/-- Only an active machine executes instructions. -/
theorem active_of_step {executed : Executed} (h : step m = .ok executed m') : m.Active := by
  obtain ⟨_, _, active, -⟩ := exists_execute_of_step h
  exact active

/-- Only an active machine faults. -/
theorem active_of_fault {fault : Fault} (h : step m = .error (.fault fault) m') : m.Active := by
  by_contra inactive
  rw [step_of_not_active inactive] at h
  cases h

/-- An active machine that does not execute an instruction faults. -/
theorem exists_fault_of_step {e : MachineError} (active : m.Active)
    (h : step m = .error e m') : ∃ fault, e = .fault fault := by
  rcases step_cases m with ⟨inactive, -⟩ | ⟨limit, -, -, result⟩ |
    ⟨op, m₁, -, -, -, result⟩ | ⟨trap, m₁, -, -, -, result⟩
  · exact absurd active inactive
  · rw [result] at h
    cases h
    exact ⟨_, rfl⟩
  · rw [result] at h
    cases h
  · rw [result] at h
    cases h
    exact ⟨_, rfl⟩

/-- An instruction is counted, and it does not touch what the machine was made with. -/
theorem steps_of_step {executed : Executed} (h : step m = .ok executed m') :
    m'.steps = m.steps + 1 ∧ m'.config = m.config := by
  obtain ⟨op, m₁, -, -, executes, -, rfl⟩ := exists_execute_of_step h
  have alike := alike_of_underway (underway_of_execute executes)
  exact ⟨congrArg (· + 1) alike.steps_eq, alike.config_eq⟩

namespace Executes

/-- The machine counts its instructions, and it does not touch what it was made with. -/
theorem steps_eq (h : Executes k m m') : m'.steps = m.steps + k ∧ m'.config = m.config := by
  induction h with
  | refl => exact ⟨rfl, rfl⟩
  | next first _ ih =>
    obtain ⟨count, config⟩ := steps_of_step first
    refine ⟨?_, ih.2.trans config⟩
    rw [ih.1, count]
    omega

end Executes

/-- **Going on**: a machine that may execute instructions halts within so many of them, or faults
before as many are done, or is as active after them as it was before. -/
theorem executes_cases (active : m.Active) (n : Nat) :
    (∃ k ≤ n, ∃ m', Executes k m m' ∧ m'.status = .halted) ∨
    (∃ k < n, ∃ m₁ fault m', Executes k m m₁ ∧ step m₁ = .error (.fault fault) m') ∨
    (∃ m', Executes n m m' ∧ m'.Active) := by
  induction n generalizing m with
  | zero => exact .inr (.inr ⟨m, .refl, active⟩)
  | succ n ih =>
    cases stepped : step m with
    | error e m' =>
      obtain ⟨fault, rfl⟩ := exists_fault_of_step active stepped
      exact .inr (.inl ⟨0, Nat.succ_pos n, m, fault, m', .refl, stepped⟩)
    | ok executed m₁ =>
      rcases status_of_step stepped with halted | running
      · exact .inl ⟨1, by omega, m₁, .next stepped .refl, halted⟩
      · rcases ih (m := m₁) (.inr running) with ⟨k, hk, m', executes, halted⟩ |
          ⟨k, hk, m₂, fault, m', executes, faults⟩ | ⟨m', executes, active'⟩
        · exact .inl ⟨k + 1, by omega, m', .next stepped executes, halted⟩
        · exact .inr (.inl ⟨k + 1, by omega, m₂, fault, m', .next stepped executes, faults⟩)
        · exact .inr (.inr ⟨m', .next stepped executes, active'⟩)

/-! ## Where runs end -/

section Observed

variable {σ : Type} [Observer σ] {fuel : Nat}

/-- A run whose instructions halt the machine ends with this machine. -/
theorem runFrom_of_halted (h : Executes k m m') (active : m.Active) (halted : m'.status = .halted)
    (enough : k ≤ fuel) (observer : σ) (printed : Array String) :
    (runFrom fuel m observer printed).ending = .halted ∧
      (runFrom fuel m observer printed).machine = m' := by
  induction h generalizing fuel observer printed with
  | refl => exact absurd active (not_active_of_halted halted)
  | next first rest ih =>
    obtain ⟨fuel, rfl⟩ := Nat.exists_eq_add_of_lt enough
    rw [runFrom, first]
    dsimp only
    rcases status_of_step first with now | running
    · cases rest with
      | refl =>
        rw [now]
        exact ⟨rfl, rfl⟩
      | next second _ => exact absurd (active_of_step second) (not_active_of_halted now)
    · rw [running]
      exact ih (.inr running) halted (by omega) _ _

/-- A run in which an instruction goes wrong ends with this fault. -/
theorem runFrom_of_fault {fault : Fault} (h : Executes k m m₁)
    (faults : step m₁ = .error (.fault fault) m') (enough : k < fuel) (observer : σ)
    (printed : Array String) :
    (runFrom fuel m observer printed).ending = .failed (.fault fault) ∧
      (runFrom fuel m observer printed).machine = m' := by
  induction h generalizing fuel observer printed with
  | refl =>
    obtain ⟨fuel, rfl⟩ := Nat.exists_eq_add_of_lt enough
    rw [runFrom, faults]
    exact ⟨rfl, rfl⟩
  | next first rest ih =>
    obtain ⟨fuel, rfl⟩ := Nat.exists_eq_add_of_lt enough
    rw [runFrom, first]
    dsimp only
    rcases status_of_step first with now | running
    · cases rest with
      | refl => exact absurd (active_of_fault faults) (not_active_of_halted now)
      | next second _ => exact absurd (active_of_step second) (not_active_of_halted now)
    · rw [running]
      exact ih faults (by omega) _ _

/-- A run that ends by itself leaves a machine that has halted. -/
theorem status_of_runFrom (observer : σ) (printed : Array String)
    (h : (runFrom fuel m observer printed).ending = .halted) :
    (runFrom fuel m observer printed).machine.status = .halted := by
  induction fuel generalizing m observer printed with
  | zero => cases h
  | succ fuel ih =>
    rw [runFrom] at h ⊢
    cases stepped : step m with
    | error e m' =>
      rw [stepped] at h
      cases h
    | ok executed m' =>
      rw [stepped] at h
      dsimp only at h ⊢
      cases status : m'.status <;> rw [status] at h
      case halted => exact status
      all_goals exact ih _ _ h

end Observed

/-- A machine that was loaded runs from where it is. -/
theorem run_of_loaded (loaded : m.status = .loaded) (fuel : Nat) :
    run fuel m = runFrom fuel m () #[] := by
  rw [run, runObserved, loaded]
  rfl

/-- The run of a machine halts after so many instructions, and leaves a machine behind. -/
structure HaltsAfter (k : Nat) (m m' : Machine) : Prop where
  /-- the run ends so, given the fuel for it -/
  run : ∃ fuel, (run fuel m).ending = .halted ∧ (run fuel m).machine = m'
  /-- these are the instructions -/
  executes : Executes k m m'

/-- The run of a machine faults after so many instructions, in trying the next one, and leaves a
machine behind. -/
structure FaultsAfter (k : Nat) (fault : Fault) (m m' : Machine) : Prop where
  /-- the run ends so, given the fuel for it -/
  run : ∃ fuel, (run fuel m).ending = .failed (.fault fault) ∧ (run fuel m).machine = m'
  /-- these are the instructions, and the one that goes wrong -/
  executes : ∃ m₁, Executes k m m₁ ∧ step m₁ = .error (.fault fault) m'

/-- A run halts where its instructions halt the machine. -/
theorem haltsAfter_of_executes (loaded : m.status = .loaded) (h : Executes k m m')
    (halted : m'.status = .halted) : HaltsAfter k m m' where
  run := by
    refine ⟨k, ?_⟩
    rw [run_of_loaded loaded]
    exact runFrom_of_halted h (.inl loaded) halted (Nat.le_refl k) _ _
  executes := h

/-- A run faults where an instruction goes wrong. -/
theorem faultsAfter_of_executes {fault : Fault} (loaded : m.status = .loaded)
    (h : Executes k m m₁) (faults : step m₁ = .error (.fault fault) m') :
    FaultsAfter k fault m m' where
  run := by
    refine ⟨k + 1, ?_⟩
    rw [run_of_loaded loaded]
    exact runFrom_of_fault h faults (Nat.lt_succ_self k) _ _
  executes := ⟨m₁, h, faults⟩

/-- A machine whose run halts has halted. -/
theorem HaltsAfter.status_eq (h : HaltsAfter k m m') : m'.status = .halted := by
  obtain ⟨fuel, ending, rfl⟩ := h.run
  unfold Machine.run runObserved at ending ⊢
  split at ending
  · exact status_of_runFrom _ _ ending
  · cases ending

end Stackwright.Machine
