import Mathlib.Logic.Relation
import Stackwright.Machine.Execution
import Stackwright.Proofs.Sequencing

/-!
# Moves

An instruction does nothing but moves, so what no move can break, no instruction can
break. This module says when a move succeeds and what it does then, and it names the
machines that an instruction can pass through on its way, successful or not:
`Underway`. Each instruction goes by such machines only (`passes_execute`).
-/

namespace Stackwright.Machine

variable {m m' : Machine}

/-! ## Moves that succeed -/

theorem fetch_eq_ok_iff {w : Word} :
    fetch m = .ok w m' ↔ m.memory.read m.pc = .ok w ∧ m' = { m with pc := m.pc + 1 } := by
  rw [fetch_eq]
  cases m.memory.read m.pc with
  | error e => simp
  | ok v => simp [eq_comm]

theorem readCell_eq_ok_iff {address w : Word} :
    readCell address m = .ok w m' ↔ m.memory.read address = .ok w ∧ m' = m := by
  rw [readCell_eq]
  cases m.memory.read address with
  | error e => simp
  | ok v => simp [eq_comm]

theorem writeCell_eq_ok_iff {address value : Word} :
    writeCell address value m = .ok () m' ↔
      m.memory.Contains address ∧ m' = { m with memory := m.memory.set address value } := by
  rw [writeCell_eq]
  split
  · next inside => simp [inside, eq_comm]
  · next outside => simp [outside]

theorem push_eq_ok_iff {value : Word} :
    push value m = .ok () m' ↔
      m.memory.Contains (m.sp - 1) ∧
        m' = { m with memory := m.memory.set (m.sp - 1) value, sp := m.sp - 1 } := by
  rw [push_eq]
  split
  · next inside => simp [inside, eq_comm]
  · next outside => simp [outside]

theorem look_eq_ok_iff {w : Word} : look m = .ok w m' ↔ m.peek = .ok w ∧ m' = m := by
  rw [look_eq]
  cases m.peek with
  | error e => simp
  | ok v => simp [eq_comm]

theorem pop_eq_ok_iff {w : Word} :
    pop m = .ok w m' ↔ m.peek = .ok w ∧ m' = { m with sp := m.sp + 1 } := by
  rw [pop_eq]
  cases m.peek with
  | error e => simp
  | ok v => simp [eq_comm]

/-- An instruction is its code, and then what its operation does. -/
theorem execute_eq_ok_iff {op : Opcode} :
    execute m = .ok op m' ↔
      m.memory.read m.pc = .ok op.code ∧ perform op { m with pc := m.pc + 1 } = .ok () m' := by
  unfold execute
  rw [bind_eq_ok_iff]
  constructor
  · rintro ⟨w, m₁, fetched, h⟩
    obtain ⟨there, rfl⟩ := fetch_eq_ok_iff.mp fetched
    cases decoded : Opcode.decode? w with
    | none =>
      rw [decoded] at h
      cases h
    | some op' =>
      rw [decoded] at h
      obtain ⟨⟨⟩, m₂, performed, last⟩ := bind_eq_ok_iff.mp h
      cases last
      obtain rfl := Opcode.decode?_eq_some_iff.mp decoded
      exact ⟨there, performed⟩
  · rintro ⟨there, performed⟩
    refine ⟨_, _, fetch_eq_ok_iff.mpr ⟨there, rfl⟩, ?_⟩
    rw [Opcode.decode?_eq_some_iff.mpr rfl]
    exact bind_eq_ok_iff.mpr ⟨(), m', performed, rfl⟩

/-! ## Operands first -/

/-- What an operation does with its operands once they have been fetched. It is only given
as many as it has. -/
def act : Opcode → List Word → Move Unit
  | .push, [value] => push value
  | .jmp, [target] => jump target
  | .jz, [target] => do
    let condition ← pop
    if condition = 0 then jump target
  | .jnz, [target] => do
    let condition ← pop
    if condition ≠ 0 then jump target
  | .load, [address] => do
    let value ← readCell address
    push value
  | .store, [address] => do
    let value ← pop
    writeCell address value
  | .call, [target] => do
    let back := (← get).pc
    push back
    jump target
  | .push, _ | .jmp, _ | .jz, _ | .jnz, _ | .load, _ | .store, _ | .call, _ => return
  | op, _ => perform op

/-- **Operands first**: an operation fetches as many words as it has operands, and no word
after that. -/
theorem perform_eq (op : Opcode) :
    perform op = (op.operands.mapM fun _ => fetch) >>= act op := by
  cases op <;> simp [perform, act, Opcode.operands]

/-! ## The way of an instruction -/

/-- One move leads from a machine to another. Moves that change nothing, and those that
fail, lead nowhere. -/
inductive Moved : Machine → Machine → Prop where
  /-- a word is fetched -/
  | fetch {m m' : Machine} {w : Word} (h : Machine.fetch m = .ok w m') : Moved m m'
  /-- a word is put on the stack -/
  | push {m m' : Machine} {w : Word} (h : Machine.push w m = .ok () m') : Moved m m'
  /-- a word is taken off the stack -/
  | pop {m m' : Machine} {w : Word} (h : Machine.pop m = .ok w m') : Moved m m'
  /-- a cell is written -/
  | write {m m' : Machine} {address w : Word} (h : writeCell address w m = .ok () m') :
    Moved m m'
  /-- the program goes on elsewhere -/
  | jump (m : Machine) (address : Word) : Moved m { m with pc := address }
  /-- a word is written out -/
  | emit (m : Machine) (w : Word) : Moved m { m with output := m.output.push w }

/-- Some moves, one after the other, lead from a machine to another. -/
abbrev Underway : Machine → Machine → Prop := Relation.ReflTransGen Moved

/-- A part of an instruction goes by moves, and where it fails it stays on the way. -/
def Passes {α : Type} (x : Move α) : Prop := ∀ m, Underway m (after x m)

variable {α β : Type}

theorem passes_of_after_eq {x : Move α} (h : ∀ m, after x m = m) : Passes x := by
  intro m
  rw [h]

theorem passes_pure (a : α) : Passes (pure a : Move α) := passes_of_after_eq fun _ => rfl

theorem passes_throw (trap : Trap) : Passes (throw trap : Move α) :=
  passes_of_after_eq fun _ => rfl

/-- Parts that go by moves can be put together. -/
theorem passes_bind {x : Move α} {f : α → Move β} (hx : Passes x) (hf : ∀ a, Passes (f a)) :
    Passes (x >>= f) := by
  intro m
  have first := hx m
  unfold after at first ⊢
  cases h : x m with
  | ok a m' =>
    rw [h] at first
    rw [bind_of_ok h]
    exact first.trans (hf a m')
  | error e m' =>
    rw [h] at first
    rw [bind_of_error h]
    exact first

/-- A single move passes, if it changes nothing where it fails. -/
theorem passes_of_moved {x : Move α} (moves : ∀ {m a m'}, x m = .ok a m' → Moved m m')
    (fails : ∀ {m e m'}, x m = .error e m' → m' = m) : Passes x := by
  intro m
  unfold after
  cases h : x m with
  | ok a m' => exact .single (moves h)
  | error e m' => rw [fails h]

theorem passes_fetch : Passes fetch := by
  refine passes_of_moved .fetch fun h => ?_
  rw [fetch_eq] at h
  split at h <;> cases h
  rfl

theorem passes_push (w : Word) : Passes (push w) := by
  refine passes_of_moved .push fun h => ?_
  rw [push_eq] at h
  split at h <;> cases h
  rfl

theorem passes_pop : Passes pop := by
  refine passes_of_moved .pop fun h => ?_
  rw [pop_eq] at h
  split at h <;> cases h
  rfl

theorem passes_writeCell (address w : Word) : Passes (writeCell address w) := by
  refine passes_of_moved .write fun h => ?_
  rw [writeCell_eq] at h
  split at h <;> cases h
  rfl

theorem passes_look : Passes look := by
  refine passes_of_after_eq fun m => ?_
  unfold after
  rw [look_eq]
  cases m.peek <;> rfl

theorem passes_readCell (address : Word) : Passes (readCell address) := by
  refine passes_of_after_eq fun m => ?_
  unfold after
  rw [readCell_eq]
  cases m.memory.read address <;> rfl

theorem passes_jump (address : Word) : Passes (jump address) :=
  fun m => .single (.jump m address)

theorem passes_emitWord (w : Word) : Passes (emitWord w) := fun m => .single (.emit m w)

theorem passes_combine (op : BinaryOp) : Passes (combine op) := by
  refine passes_bind passes_pop fun b => passes_bind passes_pop fun a => ?_
  cases op.apply a b with
  | none => exact passes_throw _
  | some w => exact passes_push w

/-- Every operation goes by moves. -/
theorem passes_perform (op : Opcode) : Passes (perform op) := by
  cases op with
  | halt => exact passes_pure ()
  | push => exact passes_bind passes_fetch passes_push
  | pop => exact passes_bind passes_pop fun _ => passes_pure ()
  | dup => exact passes_bind passes_look passes_push
  | swap =>
    exact passes_bind passes_pop fun b => passes_bind passes_pop fun a =>
      passes_bind (passes_push b) fun _ => passes_push a
  | add => exact passes_combine .add
  | sub => exact passes_combine .sub
  | mul => exact passes_combine .mul
  | div => exact passes_combine .div
  | mod => exact passes_combine .mod
  | eq => exact passes_combine .eq
  | lt => exact passes_combine .lt
  | gt => exact passes_combine .gt
  | neg => exact passes_bind passes_pop fun value => passes_push (-value)
  | jmp => exact passes_bind passes_fetch passes_jump
  | jz =>
    refine passes_bind passes_fetch fun target => passes_bind passes_pop fun condition => ?_
    split
    · exact passes_jump target
    · exact passes_pure ()
  | jnz =>
    refine passes_bind passes_fetch fun target => passes_bind passes_pop fun condition => ?_
    split
    · exact passes_jump target
    · exact passes_pure ()
  | load =>
    exact passes_bind passes_fetch fun address => passes_bind (passes_readCell address) passes_push
  | store =>
    exact passes_bind passes_fetch fun address => passes_bind passes_pop fun value =>
      passes_writeCell address value
  | call =>
    exact passes_bind passes_fetch fun target =>
      passes_bind (passes_of_after_eq fun _ => rfl) fun m =>
        passes_bind (passes_push m.pc) fun _ => passes_jump target
  | ret => exact passes_bind passes_pop passes_jump
  | out => exact passes_bind passes_pop passes_emitWord

theorem passes_execute : Passes execute := by
  refine passes_bind passes_fetch fun w => ?_
  split
  · exact passes_throw _
  · next op _ => exact passes_bind (passes_perform op) fun _ => passes_pure op

theorem underway_of_execute {op : Opcode} (h : execute m = .ok op m') : Underway m m' := by
  have passes := passes_execute m
  rwa [after, h] at passes

/-! ## What moves leave alone -/

/-- Two machines that differ in memory cells, registers and output only. -/
structure Alike (m m' : Machine) : Prop where
  config_eq : m'.config = m.config
  status_eq : m'.status = m.status
  loaded_eq : m'.loaded = m.loaded
  steps_eq : m'.steps = m.steps
  capacity_eq : m'.capacity = m.capacity

theorem alike_of_moved (move : Moved m m') : Alike m m' := by
  cases move with
  | fetch h =>
    obtain ⟨-, rfl⟩ := fetch_eq_ok_iff.mp h
    exact ⟨rfl, rfl, rfl, rfl, rfl⟩
  | push h =>
    obtain ⟨-, rfl⟩ := push_eq_ok_iff.mp h
    exact ⟨rfl, rfl, rfl, rfl, Memory.capacity_set ..⟩
  | pop h =>
    obtain ⟨-, rfl⟩ := pop_eq_ok_iff.mp h
    exact ⟨rfl, rfl, rfl, rfl, rfl⟩
  | write h =>
    obtain ⟨-, rfl⟩ := writeCell_eq_ok_iff.mp h
    exact ⟨rfl, rfl, rfl, rfl, Memory.capacity_set ..⟩
  | jump address => exact ⟨rfl, rfl, rfl, rfl, rfl⟩
  | emit w => exact ⟨rfl, rfl, rfl, rfl, rfl⟩

theorem alike_of_underway (way : Underway m m') : Alike m m' := by
  induction way with
  | refl => exact ⟨rfl, rfl, rfl, rfl, rfl⟩
  | tail _ move ih =>
    have last := alike_of_moved move
    exact ⟨last.config_eq.trans ih.config_eq, last.status_eq.trans ih.status_eq,
      last.loaded_eq.trans ih.loaded_eq, last.steps_eq.trans ih.steps_eq,
      last.capacity_eq.trans ih.capacity_eq⟩

/-! ## What a step can do -/

/-- Whether the machine may execute an instruction. -/
def Active (m : Machine) : Prop := m.status = .loaded ∨ m.status = .running

instance (m : Machine) : Decidable m.Active := inferInstanceAs (Decidable (_ ∨ _))

theorem attempt_eq (m : Machine) :
    attempt m =
      match m.exhausted? with
      | some limit => .error (.stepLimit limit) m
      | none => execute m := by
  rw [attempt, get_bind]
  cases m.exhausted? <;> rfl

/-- A machine that is not active refuses to step. -/
theorem step_of_not_active (h : ¬m.Active) :
    step m = .error (.invalidState .step m.status) m := by
  unfold step
  split
  · next loaded => exact absurd (.inl loaded) h
  · next running => exact absurd (.inr running) h
  · rfl

/-- An active machine attempts an instruction. -/
theorem step_of_active (h : m.Active) :
    step m =
      match attempt { m with status := .running } with
      | .ok op m' =>
        .ok ⟨m.pc, op⟩
          { m' with steps := m'.steps + 1, status := if op = .halt then .halted else .running }
      | .error trap m' =>
        .error (.fault ⟨trap, m.pc⟩) { m' with status := .faulted ⟨trap, m.pc⟩ } := by
  unfold step
  split
  · rfl
  · rfl
  · next neitherLoaded norRunning => exact absurd h (not_or_intro neitherLoaded norRunning)

/-- **The cases of a step**: it is refused, or the limit is reached, or an instruction is
executed, or one goes wrong. -/
theorem step_cases (m : Machine) :
    (¬m.Active ∧ step m = .error (.invalidState .step m.status) m) ∨
    (∃ limit, m.Active ∧ m.exhausted? = some limit ∧
      step m = .error (.fault ⟨.stepLimit limit, m.pc⟩)
        { m with status := .faulted ⟨.stepLimit limit, m.pc⟩ }) ∨
    (∃ op m', m.Active ∧ m.exhausted? = none ∧
      execute { m with status := .running } = .ok op m' ∧
      step m = .ok ⟨m.pc, op⟩
        { m' with steps := m'.steps + 1, status := if op = .halt then .halted else .running }) ∨
    (∃ trap m', m.Active ∧ m.exhausted? = none ∧
      execute { m with status := .running } = .error trap m' ∧
      step m = .error (.fault ⟨trap, m.pc⟩) { m' with status := .faulted ⟨trap, m.pc⟩ }) := by
  by_cases active : m.Active
  · have same : exhausted? { m with status := .running } = m.exhausted? := rfl
    rw [step_of_active active, attempt_eq, same]
    cases limit : m.exhausted? with
    | some n => exact .inr (.inl ⟨n, active, rfl, rfl⟩)
    | none =>
      cases result : execute { m with status := .running } with
      | ok op m' => exact .inr (.inr (.inl ⟨op, m', active, rfl, rfl, rfl⟩))
      | error trap m' => exact .inr (.inr (.inr ⟨trap, m', active, rfl, rfl, rfl⟩))
  · exact .inl ⟨active, step_of_not_active active⟩

/-- A step that succeeds has executed the instruction at the program counter. -/
theorem exists_execute_of_step {executed : Executed} (h : step m = .ok executed m') :
    ∃ op m₁, m.Active ∧ m.exhausted? = none ∧
      execute { m with status := .running } = .ok op m₁ ∧ executed = ⟨m.pc, op⟩ ∧
      m' = { m₁ with
        steps := m₁.steps + 1
        status := if op = .halt then .halted else .running } := by
  rcases step_cases m with ⟨-, result⟩ | ⟨limit, -, -, result⟩ |
    ⟨op, m₁, active, going, executes, result⟩ | ⟨trap, m₁, -, -, -, result⟩
  · rw [result] at h
    cases h
  · rw [result] at h
    cases h
  · rw [result] at h
    cases h
    exact ⟨op, m₁, active, going, executes, rfl, rfl⟩
  · rw [result] at h
    cases h

end Stackwright.Machine
