import Stackwright.Proofs.Reachable
import Stackwright.Proofs.Running

/-!
# The step limit

A limit on the number of steps ends every run, and it does nothing else: as long as it is not
reached the machine does what it would do without. The reason is that no move looks at what the
machine was made with (`Blind`), so only the check before an instruction tells the two machines
apart (`step_withLimit`).

A program that halts may use up all instructions that are allowed. One that faults may not: the
check comes before the instruction that would go wrong.
-/

namespace Stackwright.Machine

/-- The machine with another limit on the number of steps, or with none. -/
def withLimit (maxSteps : Option Nat) (m : Machine) : Machine :=
  { m with config := { m.config with maxSteps } }

/-- What a move gives, with the machine that it leaves behind changed. -/
def mapMachine {ε α : Type} (f : Machine → Machine) :
    EStateM.Result ε Machine α → EStateM.Result ε Machine α
  | .ok a m => .ok a (f m)
  | .error e m => .error e (f m)

variable {m m₁ m' : Machine} {limit : Option Nat} {n k fuel : Nat}

@[simp]
theorem memory_withLimit : (withLimit limit m).memory = m.memory := rfl

@[simp]
theorem pc_withLimit : (withLimit limit m).pc = m.pc := rfl

@[simp]
theorem sp_withLimit : (withLimit limit m).sp = m.sp := rfl

@[simp]
theorem peek_withLimit : (withLimit limit m).peek = m.peek := rfl

/-! ## Moves do not look at the limit -/

/-- A part of an instruction does the same whatever the limit is. -/
def Blind {α : Type} (x : Move α) : Prop :=
  ∀ limit m, x (withLimit limit m) = mapMachine (withLimit limit) (x m)

variable {α β : Type}

theorem blind_pure (a : α) : Blind (pure a : Move α) := fun _ _ => rfl

theorem blind_throw (trap : Trap) : Blind (throw trap : Move α) := fun _ _ => rfl

theorem blind_bind {x : Move α} {f : α → Move β} (hx : Blind x) (hf : ∀ a, Blind (f a)) :
    Blind (x >>= f) := by
  intro limit m
  have first := hx limit m
  cases h : x m with
  | ok a m' =>
    rw [h] at first
    rw [bind_of_ok first, bind_of_ok h]
    exact hf a limit m'
  | error e m' =>
    rw [h] at first
    rw [bind_of_error first, bind_of_error h]
    rfl

theorem blind_fetch : Blind fetch := by
  intro limit m
  rw [fetch_eq, fetch_eq, memory_withLimit, pc_withLimit]
  cases m.memory.read m.pc <;> rfl

theorem blind_readCell (address : Word) : Blind (readCell address) := by
  intro limit m
  rw [readCell_eq, readCell_eq, memory_withLimit]
  cases m.memory.read address <;> rfl

theorem blind_writeCell (address w : Word) : Blind (writeCell address w) := by
  intro limit m
  rw [writeCell_eq, writeCell_eq, memory_withLimit]
  split <;> rfl

theorem blind_push (w : Word) : Blind (push w) := by
  intro limit m
  rw [push_eq, push_eq, memory_withLimit, sp_withLimit]
  split <;> rfl

theorem blind_look : Blind look := by
  intro limit m
  rw [look_eq, look_eq, peek_withLimit]
  cases m.peek <;> rfl

theorem blind_pop : Blind pop := by
  intro limit m
  rw [pop_eq, pop_eq, peek_withLimit]
  cases m.peek <;> rfl

theorem blind_jump (address : Word) : Blind (jump address) := fun _ _ => rfl

theorem blind_emitWord (w : Word) : Blind (emitWord w) := fun _ _ => rfl

theorem blind_combine (op : BinaryOp) : Blind (combine op) := by
  refine blind_bind blind_pop fun b => blind_bind blind_pop fun a => ?_
  cases op.apply a b with
  | none => exact blind_throw _
  | some w => exact blind_push w

/-- A call looks at the program counter only. -/
theorem blind_call (target : Word) :
    Blind (do let back := (← get).pc; push back; jump target) := by
  intro limit m
  exact blind_bind (blind_push m.pc) (fun _ => blind_jump target) limit m

/-- No operation looks at the limit. -/
theorem blind_perform (op : Opcode) : Blind (perform op) := by
  cases op with
  | halt => exact blind_pure ()
  | push => exact blind_bind blind_fetch blind_push
  | pop => exact blind_bind blind_pop fun _ => blind_pure ()
  | dup => exact blind_bind blind_look blind_push
  | swap =>
    exact blind_bind blind_pop fun b => blind_bind blind_pop fun a =>
      blind_bind (blind_push b) fun _ => blind_push a
  | add => exact blind_combine .add
  | sub => exact blind_combine .sub
  | mul => exact blind_combine .mul
  | div => exact blind_combine .div
  | mod => exact blind_combine .mod
  | eq => exact blind_combine .eq
  | lt => exact blind_combine .lt
  | gt => exact blind_combine .gt
  | neg => exact blind_bind blind_pop fun value => blind_push (-value)
  | jmp => exact blind_bind blind_fetch blind_jump
  | jz =>
    refine blind_bind blind_fetch fun target => blind_bind blind_pop fun condition => ?_
    split
    · exact blind_jump target
    · exact blind_pure ()
  | jnz =>
    refine blind_bind blind_fetch fun target => blind_bind blind_pop fun condition => ?_
    split
    · exact blind_jump target
    · exact blind_pure ()
  | load =>
    exact blind_bind blind_fetch fun address => blind_bind (blind_readCell address) blind_push
  | store =>
    exact blind_bind blind_fetch fun address => blind_bind blind_pop fun value =>
      blind_writeCell address value
  | call => exact blind_bind blind_fetch blind_call
  | ret => exact blind_bind blind_pop blind_jump
  | out => exact blind_bind blind_pop blind_emitWord

theorem blind_execute : Blind execute := by
  refine blind_bind blind_fetch fun w => ?_
  split
  · exact blind_throw _
  · next op _ => exact blind_bind (blind_perform op) fun _ => blind_pure op

/-! ## Steps -/

theorem exhausted?_withLimit :
    (withLimit (some n) m).exhausted? = if n ≤ m.steps then some n else none := by
  unfold exhausted? withLimit
  simp only [Option.filter_some, decide_eq_true_eq]

theorem exhausted?_of_unlimited (unlimited : m.config.maxSteps = none) :
    m.exhausted? = none := by
  rw [exhausted?, unlimited]
  rfl

theorem attempt_withLimit (unlimited : m.config.maxSteps = none) (below : m.steps < n) :
    attempt (withLimit (some n) m) = mapMachine (withLimit (some n)) (attempt m) := by
  rw [attempt_eq, attempt_eq, exhausted?_withLimit, if_neg (Nat.not_le.mpr below),
    exhausted?_of_unlimited unlimited]
  exact blind_execute (some n) m

/-- **Below the limit** a step is the same with the limit as without. -/
theorem step_withLimit (unlimited : m.config.maxSteps = none) (below : m.steps < n) :
    step (withLimit (some n) m) = mapMachine (withLimit (some n)) (step m) := by
  by_cases active : m.Active
  · have started : { withLimit (some n) m with status := .running } =
        withLimit (some n) { m with status := .running } := rfl
    rw [step_of_active active, step_of_active (m := withLimit (some n) m) active, started,
      attempt_withLimit (m := { m with status := .running }) unlimited below]
    cases attempt { m with status := .running } <;> rfl
  · rw [step_of_not_active active, step_of_not_active (m := withLimit (some n) m) active]
    rfl

/-- **At the limit** a step faults, and nothing happens to the machine but this. -/
theorem step_of_limit (active : m.Active) (reached : n ≤ m.steps) :
    step (withLimit (some n) m) =
      .error (.fault ⟨.stepLimit n, m.pc⟩)
        { withLimit (some n) m with status := .faulted ⟨.stepLimit n, m.pc⟩ } := by
  have spent : exhausted? { withLimit (some n) m with status := .running } = some n :=
    exhausted?_withLimit.trans (if_pos reached)
  rw [step_of_active (m := withLimit (some n) m) active, attempt_eq, spent]
  rfl

/-- Instructions that the limit allows are the same with the limit as without. -/
theorem Executes.withLimit (h : Executes k m m') (unlimited : m.config.maxSteps = none)
    (below : m.steps + k ≤ n) :
    Executes k (Machine.withLimit (some n) m) (Machine.withLimit (some n) m') := by
  induction h with
  | refl => exact .refl
  | @next k m m₁ m' executed first _ ih =>
    obtain ⟨count, config⟩ := steps_of_step first
    have same : step (Machine.withLimit (some n) m) =
        .ok executed (Machine.withLimit (some n) m₁) := by
      rw [step_withLimit unlimited (by omega), first]
      rfl
    exact .next same (ih ((congrArg MachineConfig.maxSteps config).trans unlimited) (by omega))

/-! ## Runs -/

/-- How a run with the limit `n` ends, put in terms of the same machine without a limit. -/
structure Truncates (n : Nat) (unlimited : Machine) (limited : Run Unit) : Prop where
  /-- a program that halts in time halts just so -/
  halted : ∀ k ≤ n, ∀ m', HaltsAfter k unlimited m' →
    limited.ending = .halted ∧ limited.machine = withLimit (some n) m'
  /-- a program that faults before the limit is reached faults just so -/
  faulted : ∀ k < n, ∀ fault m', FaultsAfter k fault unlimited m' →
    limited.ending = .failed (.fault fault) ∧ limited.machine = withLimit (some n) m'
  /-- any other is stopped after `n` instructions -/
  stopped : (∀ k ≤ n, ∀ m', ¬HaltsAfter k unlimited m') →
    (∀ k < n, ∀ fault m', ¬FaultsAfter k fault unlimited m') →
    ∃ m', Executes n unlimited m' ∧ m'.steps = n ∧
      limited.ending = .failed (.fault ⟨.stepLimit n, m'.pc⟩) ∧
      limited.machine =
        { withLimit (some n) m' with status := .faulted ⟨.stepLimit n, m'.pc⟩ }

section Runs

variable (loaded : m.status = .loaded) (zero : m.steps = 0) (unlimited : m.config.maxSteps = none)
  (enough : n < fuel)
include loaded zero unlimited enough

theorem run_withLimit_of_halted (h : Executes k m m') (halted : m'.status = .halted)
    (hk : k ≤ n) :
    (run fuel (withLimit (some n) m)).ending = .halted ∧
      (run fuel (withLimit (some n) m)).machine = withLimit (some n) m' := by
  rw [run_of_loaded (m := withLimit (some n) m) loaded]
  exact runFrom_of_halted (h.withLimit unlimited (by omega)) (.inl loaded) halted (by omega) _ _

theorem run_withLimit_of_fault {fault : Fault} (h : Executes k m m₁)
    (faults : step m₁ = .error (.fault fault) m') (hk : k < n) :
    (run fuel (withLimit (some n) m)).ending = .failed (.fault fault) ∧
      (run fuel (withLimit (some n) m)).machine = withLimit (some n) m' := by
  rw [run_of_loaded (m := withLimit (some n) m) loaded]
  obtain ⟨count, config⟩ := h.steps_eq
  refine runFrom_of_fault (h.withLimit unlimited (by omega)) ?_ (by omega) _ _
  rw [step_withLimit ((congrArg MachineConfig.maxSteps config).trans unlimited) (by omega), faults]
  rfl

theorem run_withLimit_of_active (h : Executes n m m') (active : m'.Active) :
    (run fuel (withLimit (some n) m)).ending = .failed (.fault ⟨.stepLimit n, m'.pc⟩) ∧
      (run fuel (withLimit (some n) m)).machine =
        { withLimit (some n) m' with status := .faulted ⟨.stepLimit n, m'.pc⟩ } := by
  rw [run_of_loaded (m := withLimit (some n) m) loaded]
  have count := h.steps_eq.1
  exact runFrom_of_fault (h.withLimit unlimited (by omega)) (step_of_limit active (by omega))
    enough _ _

/-- The run ends, and as it should. -/
theorem truncates_of_loaded :
    (run fuel (withLimit (some n) m)).ending ≠ .brokenOff ∧
      Truncates n m (run fuel (withLimit (some n) m)) := by
  refine ⟨?_, ?_, ?_, ?_⟩
  · rcases executes_cases (.inl loaded) n with ⟨k, hk, m', executes, halted⟩ |
      ⟨k, hk, m₁, fault, m', executes, faults⟩ | ⟨m', executes, active⟩
    · rw [(run_withLimit_of_halted loaded zero unlimited enough executes halted hk).1]
      rintro ⟨⟩
    · rw [(run_withLimit_of_fault loaded zero unlimited enough executes faults hk).1]
      rintro ⟨⟩
    · rw [(run_withLimit_of_active loaded zero unlimited enough executes active).1]
      rintro ⟨⟩
  · intro k hk m' halts
    exact run_withLimit_of_halted loaded zero unlimited enough halts.executes halts.status_eq hk
  · intro k hk fault m' faults
    obtain ⟨m₁, executes, last⟩ := faults.executes
    exact run_withLimit_of_fault loaded zero unlimited enough executes last hk
  · intro noHalt noFault
    rcases executes_cases (.inl loaded) n with ⟨k, hk, m', executes, halted⟩ |
      ⟨k, hk, m₁, fault, m', executes, faults⟩ | ⟨m', executes, active⟩
    · exact absurd (haltsAfter_of_executes loaded executes halted) (noHalt k hk m')
    · exact absurd (faultsAfter_of_executes loaded executes faults) (noFault k hk fault m')
    · refine ⟨m', executes, ?_,
        run_withLimit_of_active loaded zero unlimited enough executes active⟩
      rw [executes.steps_eq.1, zero, Nat.zero_add]

end Runs

/-- **The step limit only truncates.** A run with the limit `n` ends as soon as it has fuel for
one instruction more, and how it ends is told by the same machine without a limit. -/
theorem limit_truncates {config : MachineConfig} (h : Reachable config m)
    (loaded : m.status = .loaded) (enough : n < fuel) :
    (run fuel (withLimit (some n) m)).ending ≠ .brokenOff ∧
      Truncates n (withLimit none m) (run fuel (withLimit (some n) m)) :=
  have unstarted := h.invariant.unstarted (.inr loaded)
  truncates_of_loaded (m := withLimit none m) loaded unstarted.steps_eq rfl enough

/-- A machine that was loaded with an endless program: it writes the word 7 again and again. -/
def repeating : Machine := after (load [1, 7, 21, 14, 0]) (fresh ⟨7, none⟩)

theorem limit_truncates_repeating :
    Reachable ⟨7, none⟩ repeating ∧ repeating.status = .loaded ∧ 4 < 5 ∧
      (run 5 (withLimit (some 4) repeating)).ending ≠ .brokenOff ∧
      Truncates 4 (withLimit none repeating) (run 5 (withLimit (some 4) repeating)) ∧
      (run 5 (withLimit (some 4) repeating)).ending = .failed (.fault ⟨.stepLimit 4, 2⟩) := by
  have reachable : Reachable ⟨7, none⟩ repeating := .load _ (.made rfl)
  have loaded : repeating.status = .loaded := by decide +kernel
  obtain ⟨ends, truncates⟩ := limit_truncates reachable loaded (by decide : 4 < 5)
  exact ⟨reachable, loaded, by decide, ends, truncates, by decide +kernel⟩

end Stackwright.Machine
