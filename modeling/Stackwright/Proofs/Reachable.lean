import Stackwright.Observer.Basic
import Stackwright.Proofs.Loading
import Stackwright.Proofs.Stack

/-!
# Reachable machines

A machine is made once and then asked to load, to step and to run, in any order and any
number of times, and each request may be refused or fail. `Reachable` are the machines
that can come about in this way. All of them keep the representation in order
(`Invariant`): the stack pointer is in bounds, what is loaded fits, a machine that has
not started is as good as new, and one that has halted did so at a halt instruction.

The invariant is kept by each request. For a step this rests on the moves that the
instruction is made of; between them no counter wraps around (`ExactCounters`).
-/

namespace Stackwright.Machine

/-- The machines that come about by requests to a machine that was made. -/
inductive Reachable (config : MachineConfig) : Machine → Prop where
  /-- the machine as it was made -/
  | made {m : Machine} (h : new config = .ok m) : Reachable config m
  /-- a program is loaded, or refused -/
  | load {m : Machine} (program : List Word) (h : Reachable config m) :
    Reachable config (after (Machine.load program) m)
  /-- a word is loaded, or refused -/
  | loadWord {m : Machine} (word : Word) (h : Reachable config m) :
    Reachable config (after (Machine.loadWord word) m)
  /-- an image is loaded, or refused -/
  | loadImage {m : Machine} (feed : Feed) (h : Reachable config m) :
    Reachable config (after (Machine.loadImage feed) m)
  /-- an image file is loaded, or refused -/
  | loadFile {m : Machine} (files : FileTree) (path : String) (h : Reachable config m) :
    Reachable config (after (Machine.loadFile files path) m)
  /-- an instruction is executed, or goes wrong, or is refused -/
  | step {m : Machine} (h : Reachable config m) : Reachable config (after Machine.step m)
  /-- the machine runs, watched or not, to the end or until it is broken off -/
  | run {m : Machine} {σ : Type} [Observer σ] (fuel : Nat) (observer : σ)
    (h : Reachable config m) : Reachable config (runObserved fuel m observer).machine

/-! ## Making -/

theorem new_eq_ok_iff {config : MachineConfig} {m : Machine} :
    new config = .ok m ↔
      ∃ addressable : config.capacity ≤ Word.greatest, m = fresh config addressable := by
  unfold new
  split
  · next addressable => simp [addressable, eq_comm]
  · next large => simp [large]

/-- A machine that was just made has the size that was asked for. -/
theorem capacity_fresh {config : MachineConfig} (addressable : config.capacity ≤ Word.greatest) :
    (fresh config addressable).capacity = config.capacity :=
  (congrArg Memory.capacity (Memory.clear_zeros addressable)).trans
    (Memory.capacity_zeros addressable)

theorem capacity_of_new {config : MachineConfig} {m : Machine} (h : new config = .ok m) :
    m.capacity = config.capacity := by
  obtain ⟨addressable, rfl⟩ := new_eq_ok_iff.mp h
  exact capacity_fresh addressable

/-- A machine that was just made holds nothing. -/
theorem fresh_eq_holding {config : MachineConfig} (addressable : config.capacity ≤ Word.greatest) :
    fresh config addressable =
      { (fresh config addressable).holding [] with status := .constructed } := by
  unfold fresh
  rw [holding_reset]
  exact reset_eq_holding _

/-! ## The invariant -/

/-- Nothing has been executed: registers and output are as in a new machine, and nothing
stands beyond what was loaded. -/
structure Unstarted (m : Machine) : Prop where
  pc_eq : m.pc = 0
  sp_eq : m.sp.toInt = m.capacity
  steps_eq : m.steps = 0
  output_eq : m.output = #[]
  /-- the cells beyond what was loaded are zero -/
  zero : ∀ i, m.loaded ≤ i → i < m.capacity → m.memory.cells.toList[i]? = some 0

/-- What holds of every reachable machine. -/
structure Invariant (config : MachineConfig) (m : Machine) : Prop where
  config_eq : m.config = config
  /-- memory has the size that was asked for -/
  capacity_eq : m.memory.capacity = config.capacity
  /-- each cell has an address -/
  addressable : config.capacity ≤ Word.greatest
  sp_nonneg : 0 ≤ m.sp.toInt
  sp_le : m.sp.toInt ≤ config.capacity
  loaded_le : m.loaded ≤ config.capacity
  /-- a limit on the number of steps is kept -/
  steps_le : ∀ limit, config.maxSteps = some limit → m.steps ≤ limit
  /-- as long as programs may be loaded, nothing has been executed -/
  unstarted : m.Loadable → m.Unstarted
  /-- the last instruction of a machine that has halted is a halt instruction -/
  halted : m.status = .halted →
    1 ≤ m.pc.toInt ∧ m.memory.read (m.pc - 1) = .ok Opcode.halt.code

/-- Where an instruction counts up or down, it gets the next number. -/
structure ExactCounters (m : Machine) : Prop where
  /-- in putting a word on the stack -/
  push : (m.sp - 1).toInt = m.sp.toInt - 1
  /-- in taking a word off the stack -/
  pop : ∀ w, m.peek = .ok w → (m.sp + 1).toInt = m.sp.toInt + 1
  /-- in fetching a word -/
  fetch : ∀ w, m.memory.read m.pc = .ok w → (m.pc + 1).toInt = m.pc.toInt + 1

theorem Bounded.exactCounters {m : Machine} (h : m.Bounded) : m.ExactCounters where
  push := h.toInt_sp_sub_one
  pop _ topmost := h.toInt_sp_add_one (h.peek_eq_ok_iff.mp topmost).1
  fetch _ there := h.toInt_pc_add_one (Memory.contains_of_read there)

namespace Invariant

variable {config : MachineConfig} {m : Machine}

theorem bounded (h : Invariant config m) : m.Bounded where
  addressable := by
    rw [capacity, h.capacity_eq]
    exact h.addressable
  sp_nonneg := h.sp_nonneg
  sp_le := by
    rw [capacity, h.capacity_eq]
    exact h.sp_le

/-! ### Loading -/

/-- Zeros follow the words of a program. -/
theorem getElem?_holding {memory : Memory} {i : Nat} {words : List Word}
    (fits : words.length ≤ memory.capacity) (loaded : words.length ≤ i)
    (inside : i < memory.capacity) : (memory.holding words).cells.toList[i]? = some 0 := by
  rw [Memory.toList_holding fits, List.getElem?_append_right loaded, List.getElem?_replicate]
  exact if_pos (by omega)

/-- A machine that holds a program is in order. -/
theorem holding {program : List Word} (config_eq : m.config = config)
    (capacity_eq : m.capacity = config.capacity) (fits : program.length ≤ config.capacity)
    {status : Status} (notHalted : status ≠ .halted) :
    Invariant config { m.holding program with status } := by
  have capacity : (m.holding program).memory.capacity = config.capacity :=
    (Memory.capacity_holding m.memory program).trans capacity_eq
  have addressable : config.capacity ≤ Word.greatest := capacity_eq ▸ m.memory.addressable
  have sp : (m.holding program).sp.toInt = config.capacity := by
    rw [← capacity_eq] at addressable ⊢
    exact Word.toInt_ofNat addressable
  refine ⟨config_eq, capacity, addressable, ?_, ?_, fits, fun _ _ => Nat.zero_le _, fun _ => ?_,
    fun halted => absurd halted notHalted⟩
  · rw [sp]
    omega
  · exact Int.le_of_eq sp
  · refine ⟨rfl, ?_, rfl, rfl, ?_⟩
    · rw [sp, Machine.capacity, capacity]
    · intro i loaded inside
      rw [Machine.capacity, capacity, ← capacity_eq] at inside
      exact getElem?_holding (Nat.le_trans fits (Nat.le_of_eq capacity_eq.symm)) loaded inside

/-- A machine that was just made is in order. -/
theorem made (h : new config = .ok m) : Invariant config m := by
  obtain ⟨addressable, rfl⟩ := new_eq_ok_iff.mp h
  rw [fresh_eq_holding]
  refine holding rfl (capacity_fresh addressable) (Nat.zero_le _) ?_
  rintro ⟨⟩

/-- Loading a program keeps the machine in order. -/
theorem load (h : Invariant config m) (program : List Word) :
    Invariant config (after (Machine.load program) m) := by
  rw [after_load]
  split
  · next accepted =>
    refine holding h.config_eq h.capacity_eq ?_ ?_
    · exact h.capacity_eq ▸ accepted.2
    · rintro ⟨⟩
  · exact h

/-- Loading a word keeps the machine in order: it takes the first cell beyond what was
loaded. -/
theorem loadWord (h : Invariant config m) (word : Word) :
    Invariant config (after (Machine.loadWord word) m) := by
  rw [after_loadWord]
  split
  · next accepted =>
    obtain ⟨loadable, room⟩ := accepted
    have unstarted := h.unstarted loadable
    have capacity := h.capacity_eq
    have address : (Word.ofNat m.loaded).toInt = m.loaded := by
      refine Word.toInt_ofNat ?_
      have := h.bounded.addressable
      omega
    have inside : m.memory.Contains (Word.ofNat m.loaded) := by
      rw [Memory.contains_iff, address]
      simp only [Machine.capacity] at room
      omega
    have same : (m.memory.set (Word.ofNat m.loaded) word).capacity = m.memory.capacity :=
      Memory.capacity_set ..
    refine ⟨h.config_eq, same.trans capacity, h.addressable, h.sp_nonneg, h.sp_le, ?_,
      h.steps_le, fun _ => ?_, ?_⟩
    · rw [Machine.capacity, capacity] at room
      exact room
    · refine ⟨unstarted.pc_eq, ?_, unstarted.steps_eq, unstarted.output_eq, ?_⟩
      · rw [Machine.capacity, same]
        exact unstarted.sp_eq
      · intro i loaded below
        replace loaded : m.loaded < i := loaded
        rw [Machine.capacity, same] at below
        rw [Memory.toList_set inside, List.getElem?_set_ne (by rw [address]; omega)]
        exact unstarted.zero i (Nat.le_of_lt loaded) below
    · rintro ⟨⟩
  · exact h

/-- Loading an image is loading its program, if it has one. -/
theorem loadImage (h : Invariant config m) (feed : Feed) :
    Invariant config (after (Machine.loadImage feed) m) := by
  unfold Machine.loadImage
  split
  · exact h
  · exact h.load _

/-- Loading an image file is loading the image in it, if there is one. -/
theorem loadFile (h : Invariant config m) (files : FileTree) (path : String) :
    Invariant config (after (Machine.loadFile files path) m) := by
  unfold Machine.loadFile
  split
  · exact h
  · exact h.loadImage _

/-! ### Execution -/

/-- Whatever an instruction does, it leaves stack pointer, sizes and counts in order. What
status the machine has then, and how many steps are counted, is up to the step. -/
theorem underway {m' : Machine} (h : Invariant config m)
    (way : Underway { m with status := .running } m') {status : Status} {steps : Nat}
    (started : status ≠ .constructed ∧ status ≠ .loaded)
    (steps_le : ∀ limit, config.maxSteps = some limit → steps ≤ limit)
    (halted : status = .halted →
      1 ≤ m'.pc.toInt ∧ m'.memory.read (m'.pc - 1) = .ok Opcode.halt.code) :
    Invariant config { m' with status, steps } := by
  have alike := alike_of_underway way
  have before : Bounded { m with status := .running } := h.bounded.of_eq rfl rfl
  have bounded := before.underway way
  have capacity : m'.capacity = config.capacity := alike.capacity_eq.trans h.capacity_eq
  refine ⟨alike.config_eq.trans h.config_eq, capacity, h.addressable, bounded.sp_nonneg, ?_, ?_,
    steps_le, ?_, halted⟩
  · rw [← capacity]
    exact bounded.sp_le
  · exact Nat.le_trans (Nat.le_of_eq alike.loaded_eq) h.loaded_le
  · rintro (early | early)
    · exact absurd early started.1
    · exact absurd early started.2

/-- After a halt instruction, the program counter is just behind it. -/
theorem halted_of_execute {m m' : Machine} (bounded : m.Bounded)
    (h : execute m = .ok .halt m') :
    1 ≤ m'.pc.toInt ∧ m'.memory.read (m'.pc - 1) = .ok Opcode.halt.code := by
  obtain ⟨there, performed⟩ := execute_eq_ok_iff.mp h
  cases performed
  have next := bounded.toInt_pc_add_one (Memory.contains_of_read there)
  have positive := (Memory.read_eq_ok_iff.mp there).1
  have back : m.pc + 1 - 1 = m.pc := Int32.add_sub_cancel ..
  refine ⟨?_, ?_⟩
  · rw [next]
    omega
  · rw [back]
    exact there

/-- A step keeps the machine in order. The moves keep registers and sizes in order, even of an
instruction that goes wrong, so what is left in each case is the status and the count of steps. -/
theorem step (h : Invariant config m) : Invariant config (after Machine.step m) := by
  have passes := passes_execute { m with status := .running }
  unfold after at passes ⊢
  rcases step_cases m with ⟨-, result⟩ | ⟨limit, -, -, result⟩ |
    ⟨op, m', -, going, executed, result⟩ | ⟨trap, m', -, -, failed, result⟩
  · rw [result]
    exact h
  · rw [result]
    refine h.underway .refl ⟨?_, ?_⟩ h.steps_le ?_ <;> rintro ⟨⟩
  · rw [executed] at passes
    rw [result]
    have before : Bounded { m with status := .running } := h.bounded.of_eq rfl rfl
    refine h.underway passes ⟨?_, ?_⟩ ?_ ?_
    · split <;> rintro ⟨⟩
    · split <;> rintro ⟨⟩
    · intro limit limited
      rw [(alike_of_underway passes).steps_eq]
      rw [exhausted?, h.config_eq, limited] at going
      exact Nat.lt_of_not_le (by simpa using going)
    · intro halted
      split at halted
      · next isHalt =>
        subst isHalt
        exact halted_of_execute before executed
      · cases halted
  · rw [failed] at passes
    rw [result]
    refine h.underway passes ⟨?_, ?_⟩ ?_ ?_
    · rintro ⟨⟩
    · rintro ⟨⟩
    · rw [(alike_of_underway passes).steps_eq]
      exact h.steps_le
    · rintro ⟨⟩

/-- A run is made of steps. -/
theorem runFrom {σ : Type} [Observer σ] (h : Invariant config m) (fuel : Nat) (observer : σ)
    (printed : Array String) :
    Invariant config (Machine.runFrom fuel m observer printed).machine := by
  induction fuel generalizing m observer printed with
  | zero => exact h
  | succ fuel ih =>
    have next := h.step
    unfold after at next
    unfold Machine.runFrom
    split
    · next e m' stepped =>
      rw [stepped] at next
      exact next
    · next executed m' stepped =>
      rw [stepped] at next
      dsimp only
      split
      · exact next
      · exact ih next _ _

/-- A run keeps the machine in order. -/
theorem run {σ : Type} [Observer σ] (h : Invariant config m) (fuel : Nat) (observer : σ) :
    Invariant config (runObserved fuel m observer).machine := by
  unfold runObserved
  split
  · exact h.runFrom fuel _ _
  · exact h

end Invariant

namespace Reachable

variable {config : MachineConfig} {m : Machine}

/-- Every reachable machine is in order. -/
theorem invariant (h : Reachable config m) : Invariant config m := by
  induction h with
  | made h => exact .made h
  | load program _ ih => exact ih.load program
  | loadWord word _ ih => exact ih.loadWord word
  | loadImage feed _ ih => exact ih.loadImage feed
  | loadFile files path _ ih => exact ih.loadFile files path
  | step _ ih => exact ih.step
  | run fuel observer _ ih => exact ih.run fuel observer

end Reachable

/-- **Reachable machines are in order**, and between the moves of an instruction that they
execute nothing wraps around. -/
theorem reachable_in_order {config : MachineConfig} {m : Machine} (h : Reachable config m) :
    Invariant config m ∧
      ∀ m', Underway { m with status := .running } m' → m'.ExactCounters := by
  refine ⟨h.invariant, fun m' way => ?_⟩
  have before : Bounded { m with status := .running } := h.invariant.bounded.of_eq rfl rfl
  exact (before.underway way).exactCounters

/-- A machine that was loaded with a program of two instructions and executed both. -/
def spent : Machine := after step (after step (after (load [1, 5, 0]) (fresh ⟨4, some 2⟩)))

theorem reachable_in_order_spent :
    Reachable ⟨4, some 2⟩ spent ∧ spent.status = .halted ∧ Invariant ⟨4, some 2⟩ spent ∧
      ∀ m', Underway { spent with status := .running } m' → m'.ExactCounters := by
  have reachable : Reachable ⟨4, some 2⟩ spent := .step (.step (.load _ (.made rfl)))
  exact ⟨reachable, by decide +kernel, reachable_in_order reachable⟩

end Stackwright.Machine
