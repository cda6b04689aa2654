import Stackwright.Proofs.Boundaries
import Stackwright.Proofs.Limit
import Stackwright.Proofs.Traps

/-!
# On track

An instruction is *straight* if it goes on behind itself and stores nothing at an address of its
own: then all that it writes to is the stack. What such an instruction keeps is `OnTrack`. The
machine stands at a place in the code, the code is at the bottom of memory with a zero behind it,
and there is room on the stack for what is still to come, so that the stack does not come down on
either.

A machine that is on track finds the instruction at its place whole. It executes it and stays on
track (`OnTrack.step`), or the instruction fails for what it needs and for nothing else
(`OnTrack.reason_of_fault`).
-/

namespace Stackwright

/-! ## Straight instructions -/

namespace Opcode

/-- The operation goes on behind its instruction and stores nothing at an address of its own. -/
def Straight (op : Opcode) : Prop := op ∉ [jmp, jz, jnz, call, ret, store]

/-- The operation is one of those that put a word on the stack and take none off it. -/
def Raises (op : Opcode) : Prop := op ∈ [push, dup, load]

instance : DecidablePred Straight := fun _ => inferInstanceAs (Decidable (_ ∉ _))

instance : DecidablePred Raises := fun _ => inferInstanceAs (Decidable (_ ∈ _))

end Opcode

namespace Statement

/-- There are labels and straight instructions, and no words of data. -/
def Straight : Statement → Prop
  | label _ => True
  | instruction op _ => op.Straight
  | data _ => False

/-- The statement is an instruction that puts a word on the stack and takes none off it. -/
def Raises : Statement → Prop
  | instruction op _ => op.Raises
  | _ => False

/-- The statement is an instruction that halts the machine. -/
def Halts : Statement → Prop
  | instruction op _ => op = .halt
  | _ => False

instance : DecidablePred Straight
  | label _ => inferInstanceAs (Decidable True)
  | instruction op _ => inferInstanceAs (Decidable op.Straight)
  | data _ => inferInstanceAs (Decidable False)

instance : DecidablePred Raises
  | instruction op _ => inferInstanceAs (Decidable op.Raises)
  | label _ | data _ => inferInstanceAs (Decidable False)

instance : DecidablePred Halts
  | instruction op _ => inferInstanceAs (Decidable (op = .halt))
  | label _ | data _ => inferInstanceAs (Decidable False)

end Statement

/-- How many of the statements put a word on the stack and take none off it. -/
def raising (statements : List SourceStatement) : Nat :=
  statements.countP (·.statement.Raises)

theorem raising_cons (s : SourceStatement) (rest : List SourceStatement) :
    raising (s :: rest) = raising rest + if s.statement.Raises then 1 else 0 := by
  simp [raising, List.countP_cons]

/-- A word that is not negative is the one with its value. -/
theorem Word.eq_ofNat {w : Word} {n : Nat} (value : w.toInt = n) : w = ofNat n := by
  have upper := w.toInt_lt
  rw [← Int32.toInt_inj, value, toInt_ofNat (by simp only [greatest]; omega)]

theorem Word.ofNat_add (n k : Nat) : ofNat n + ofNat k = ofNat (n + k) := by
  rw [ofNat, ofNat, ofNat, ← Int32.ofInt_add, Int.natCast_add]

namespace Machine

variable {m m' : Machine} {op : Opcode} {e : Effect}

/-! ## What a straight instruction changes -/

/-- The cell at a place among the addresses. -/
theorem cell?_ofNat (m : Machine) {i : Nat} (address : i ≤ Word.greatest) :
    m.cell? (Word.ofNat i) = m.memory.cells.toList[i]? := by
  ext w
  rw [cell?_eq_some_iff, Memory.read_eq_ok_iff, Word.toInt_ofNat address, Int.toNat_natCast]
  exact and_iff_right (Int.natCast_nonneg i)

/-- The effect is on the stack alone, which becomes longer by `n` words at most. -/
structure OnStack (m : Machine) (n : Nat) (e : Effect) : Prop where
  /-- the program goes on behind the instruction -/
  target?_eq : e.target? = none
  /-- the stack pointer goes down by so many places at most -/
  le_shift : -(n : Int) ≤ e.shift
  /-- no cell further down is written -/
  above : ∀ address ∈ e.cells.keys, m.sp.toInt - n ≤ address.toInt

theorem onStack_of_cells_nil (noCells : e.cells = []) (target : e.target? = none)
    (shift : 0 ≤ e.shift) : m.OnStack 0 e := by
  refine ⟨target, shift, ?_⟩
  rw [noCells]
  rintro _ ⟨⟩

theorem onStack_pushing (bounded : m.Bounded) (w : Word) : m.OnStack 1 (m.pushing w) := by
  refine ⟨rfl, Int.le_refl _, fun address mem => ?_⟩
  obtain rfl : address = m.sp - 1 := List.mem_singleton.mp mem
  exact Int.le_of_eq bounded.toInt_sp_sub_one.symm

/-- Where there is a word on the stack, the next address is that of the word behind it. -/
theorem toInt_sp_add_one_of_cell? (bounded : m.Bounded) {w : Word}
    (top : m.cell? m.sp = some w) : (m.sp + 1).toInt = m.sp.toInt + 1 := by
  have inside := Memory.contains_of_read (cell?_eq_some_iff.mp top)
  exact bounded.toInt_sp_add_one (Memory.contains_iff.mp inside).2

theorem onStack_of_combining (bounded : m.Bounded) {f : Word → Word → Word}
    (row : m.combining? f = some e) : m.OnStack 0 e := by
  obtain ⟨b, first, row⟩ := Option.bind_eq_some_iff.mp row
  obtain ⟨a, -, row⟩ := Option.bind_eq_some_iff.mp row
  cases row
  have above := toInt_sp_add_one_of_cell? bounded first
  refine ⟨rfl, Int.one_nonneg, fun address mem => ?_⟩
  obtain rfl : address = m.sp + 1 := List.mem_singleton.mp mem
  omega

/-- A straight instruction makes the stack longer by one word if it only puts a word there, and
else it does not make it longer. -/
theorem onStack_of_straight (bounded : m.Bounded) (straight : op.Straight)
    (row : m.effect? op = some e) : m.OnStack (if op.Raises then 1 else 0) e := by
  cases op with
  | halt =>
    cases row
    exact onStack_of_cells_nil rfl rfl (Int.le_refl 0)
  | pop =>
    cases row
    exact onStack_of_cells_nil rfl rfl Int.one_nonneg
  | push =>
    obtain ⟨value, -, row⟩ := Option.bind_eq_some_iff.mp row
    cases row
    exact onStack_pushing bounded value
  | dup =>
    obtain ⟨top, -, row⟩ := Option.bind_eq_some_iff.mp row
    cases row
    exact onStack_pushing bounded top
  | load =>
    obtain ⟨address, -, row⟩ := Option.bind_eq_some_iff.mp row
    obtain ⟨value, -, row⟩ := Option.bind_eq_some_iff.mp row
    cases row
    exact onStack_pushing bounded value
  | swap =>
    obtain ⟨b, first, row⟩ := Option.bind_eq_some_iff.mp row
    obtain ⟨a, -, row⟩ := Option.bind_eq_some_iff.mp row
    cases row
    have above := toInt_sp_add_one_of_cell? bounded first
    change m.OnStack 0 _
    refine ⟨rfl, Int.le_refl 0, fun address mem => ?_⟩
    obtain rfl | rfl : address = m.sp ∨ address = m.sp + 1 := by
      simpa [Bindings.keys] using mem
    · exact Int.le_of_eq (Int.sub_zero _)
    · omega
  | neg =>
    obtain ⟨top, -, row⟩ := Option.bind_eq_some_iff.mp row
    cases row
    change m.OnStack 0 _
    refine ⟨rfl, Int.le_refl 0, fun address mem => ?_⟩
    obtain rfl : address = m.sp := List.mem_singleton.mp mem
    exact Int.le_of_eq (Int.sub_zero _)
  | out =>
    obtain ⟨top, -, row⟩ := Option.bind_eq_some_iff.mp row
    cases row
    exact onStack_of_cells_nil rfl rfl Int.one_nonneg
  | add | sub | mul | div | mod | eq | lt | gt => exact onStack_of_combining bounded row
  | jmp | jz | jnz | store | call | ret => exact absurd straight (by decide)

/-- Words at the bottom of memory stay there if no cell among them is written. -/
theorem prefix_of_turns {behind : Word} {code : List Word} (turns : e.Turns behind m m')
    (holds : code <+: m.memory.cells.toList) (address : code.length ≤ Word.greatest)
    (above : ∀ address ∈ e.cells.keys, code.length ≤ address.toInt) :
    code <+: m'.memory.cells.toList := by
  rw [List.prefix_iff_getElem?] at holds ⊢
  intro i inside
  have small : i ≤ Word.greatest := by omega
  have kept : Word.ofNat i ∉ e.cells.keys := by
    intro mem
    have bound := above _ mem
    rw [Word.toInt_ofNat small] at bound
    omega
  rw [← m'.cell?_ofNat small, turns.kept _ kept, m.cell?_ofNat small, holds i inside]

/-- What keeps an operation from acting, if there is room on the stack. -/
theorem trap_of_hindrance? {operand? : Option Word} {trap : Trap} (room : m.full? op = none)
    (reason : m.hindrance? op operand? = some trap) :
    trap = .stackUnderflow ∨ (op.Divides ∧ trap = .divideByZero) ∨
      ∃ address, op.Accesses ∧ trap = .outOfBounds address ∧ ¬ m.memory.Contains address := by
  rw [hindrance?, room] at reason
  cases starved : m.starved? op with
  | some t =>
    rw [starved] at reason
    cases reason
    simp only [starved?, Option.ite_none_right_eq_some, Option.some.injEq] at starved
    exact .inl starved.2.symm
  | none =>
    cases divides : m.zeroDivisor? op with
    | some t =>
      rw [starved, divides] at reason
      cases reason
      simp only [zeroDivisor?, Option.ite_none_right_eq_some, Option.some.injEq] at divides
      exact .inr (.inl ⟨divides.1.1, divides.2.symm⟩)
    | none =>
      cases outside : m.outside? op operand? with
      | some t =>
        rw [starved, divides, outside] at reason
        cases reason
        obtain ⟨address, -, found⟩ := Option.bind_eq_some_iff.mp outside
        simp only [Option.ite_none_right_eq_some, Option.some.injEq] at found
        obtain ⟨⟨accesses, range⟩, rfl⟩ := found
        exact .inr (.inr ⟨address, accesses, rfl, mt Memory.contains_iff.mp range⟩)
      | none =>
        rw [starved, divides, outside] at reason
        cases reason

/-! ## Keeping on track -/

/-- The machine has come to a place in the code; the code is still at the bottom of memory with a
zero behind it, and the stack can become longer by some words before it gets there. -/
structure OnTrack (config : MachineConfig) (code : List Word) (place room : Nat) (m : Machine) :
    Prop where
  order : Invariant config m
  active : m.Active
  pc_eq : m.pc.toInt = place
  holds : code ++ [0] <+: m.memory.cells.toList
  room_le : code.length + 1 + room ≤ m.sp.toInt

namespace OnTrack

variable {config : MachineConfig} {code : List Word} {place room : Nat}

/-- The words at the place in the code are those at the program counter. -/
theorem ahead (h : OnTrack config code place room m) {words : List Word}
    (here : words <+: (code ++ [0]).drop place) : words <+: m.memory.cells.toList.drop place := by
  obtain ⟨rest, whole⟩ := h.holds
  rw [← whole, List.drop_append]
  exact here.trans (List.prefix_append _ _)

/-- The code ends before memory does. -/
theorem length_lt (h : OnTrack config code place room m) : code.length < m.capacity := by
  have bound := h.holds.length_le
  rw [Memory.length_toList, List.length_append, List.length_singleton] at bound
  exact bound

/-- The words at the place are found in memory from the program counter on. -/
theorem cell?_ahead (h : OnTrack config code place room m) {words : List Word}
    (here : words <+: (code ++ [0]).drop place) {i : Nat} {w address : Word}
    (found : words[i]? = some w) (there : address.toInt = (place + i : Nat)) :
    m.cell? address = some w := by
  obtain ⟨rest, whole⟩ := h.ahead here
  rw [cell?_eq_some_iff, Memory.read_eq_ok_iff, there, Int.toNat_natCast]
  refine ⟨Int.natCast_nonneg _, ?_⟩
  rw [← List.getElem?_drop, ← whole]
  exact List.getElem?_append_left (List.getElem?_eq_some_iff.mp found).1 ▸ found

/-- At the words of an instruction, the program counter and the place behind it are those of the
operation and its operand. -/
theorem finds (h : OnTrack config code place room m) {operands : List Word}
    (count : operands.length = op.operands.length)
    (here : op.code :: operands <+: (code ++ [0]).drop place) :
    m.cell? m.pc = some op.code ∧ ∀ x ∈ operands, m.operand? = some x := by
  have first : m.cell? m.pc = some op.code := @cell?_ahead _ _ _ _ _ h _ here 0 _ _ rfl h.pc_eq
  refine ⟨first, fun x mem => ?_⟩
  have next := h.order.bounded.toInt_pc_add_one
    (Memory.contains_of_read (cell?_eq_some_iff.mp first))
  rw [h.pc_eq] at next
  rcases op.operands_cases with none | ⟨kind, one⟩
  · rw [none, List.length_nil, List.length_eq_zero_iff] at count
    rw [count] at mem
    cases mem
  · rw [one, List.length_singleton, List.length_eq_one_iff] at count
    obtain ⟨y, rfl⟩ := count
    obtain rfl := List.mem_singleton.mp mem
    exact h.cell?_ahead here rfl next

/-- **An instruction keeps the machine on track.** It uses up some of the room if it puts a word on
the stack, and the machine comes to the place behind it. -/
theorem step (h : OnTrack config code place room m) (straight : op.Straight) (goesOn : op ≠ .halt)
    {operands : List Word} (count : operands.length = op.operands.length)
    (here : op.code :: operands <+: (code ++ [0]).drop place) {left : Nat}
    (enough : left + (if op.Raises then 1 else 0) ≤ room) {executed : Executed}
    (stepped : step m = .ok executed m') :
    OnTrack config code (place + op.width) left m' := by
  have bounded := h.order.bounded
  have order : Invariant config m' := by
    have next := h.order.step
    rwa [after, stepped] at next
  obtain ⟨op', m₁, -, -, executes, -, rfl⟩ := exists_execute_of_step stepped
  obtain ⟨rfl, pc', behind, acted⟩ :=
    execute_of_words (m := { m with status := .running }) (bounded.of_eq rfl rfl) h.pc_eq count
      (h.ahead here) executes
  have next : pc' = m.pc + Word.ofNat op'.width := by
    rw [Word.eq_ofNat behind, Word.eq_ofNat h.pc_eq, Word.ofNat_add]
  obtain ⟨e, row, turns⟩ := act_turns bounded count (h.finds count here).2 next acted
  obtain ⟨target, shift, above⟩ := onStack_of_straight bounded straight row
  have low := h.room_le
  have addressable := bounded.addressable
  have short := h.length_lt
  have moved : m₁.sp.toInt = m.sp.toInt + e.shift := turns.sp_eq
  refine ⟨order, .inr (if_neg goesOn), ?_, ?_, ?_⟩
  · have arrived : m₁.pc = pc' := by rw [turns.pc_eq, target]; rfl
    exact (congrArg Int32.toInt arrived).trans behind
  · change code ++ [0] <+: m₁.memory.cells.toList
    have fits : (code ++ [0]).length = code.length + 1 := by simp
    refine prefix_of_turns turns h.holds (by omega) fun address mem => ?_
    have bound := above address mem
    omega
  · change (code.length + 1 + left : Int) ≤ m₁.sp.toInt
    omega

/-- At the code for halting the machine halts, be this an instruction or the zero at the end. -/
theorem halts (h : OnTrack config code place room m) (unlimited : config.maxSteps = none)
    (here : [Opcode.halt.code] <+: (code ++ [0]).drop place) :
    ∃ executed m', Machine.step m = .ok executed m' ∧ m'.status = .halted ∧
      m'.pc.toInt = (place + 1 : Nat) ∧ m'.memory = m.memory := by
  have first : m.memory.read m.pc = .ok Opcode.halt.code :=
    cell?_eq_some_iff.mp (@cell?_ahead _ _ _ _ _ h _ here 0 _ _ rfl h.pc_eq)
  have next := h.order.bounded.toInt_pc_add_one (Memory.contains_of_read first)
  have executes : execute { m with status := .running } =
      .ok .halt { m with status := .running, pc := m.pc + 1 } :=
    execute_eq_ok_iff.mpr ⟨first, rfl⟩
  have going : exhausted? { m with status := .running } = none :=
    exhausted?_of_unlimited ((congrArg MachineConfig.maxSteps h.order.config_eq).trans unlimited)
  have result : Machine.step m = .ok ⟨m.pc, .halt⟩
      { m with pc := m.pc + 1, steps := m.steps + 1, status := .halted } := by
    rw [step_of_active h.active, attempt_eq, going, executes]
    rfl
  exact ⟨_, _, result, rfl, next.trans (congrArg (· + 1) h.pc_eq), rfl⟩

/-- An instruction that the machine finds whole can only fail for what it needs. -/
theorem trap?_eq (h : OnTrack config code place room m) (unlimited : config.maxSteps = none)
    {operands : List Word} (count : operands.length = op.operands.length)
    (here : op.code :: operands <+: (code ++ [0]).drop place) :
    m.trap? = m.hindrance? op m.operand? := by
  have first := (h.finds count here).1
  have whole : place + op.width ≤ code.length + 1 := by
    have bound := here.length_le
    simp only [List.length_cons, List.length_drop, List.length_append, List.length_nil] at bound
    simp only [Opcode.width]
    omega
  have low := h.room_le
  have short := h.length_lt
  have place_eq := h.pc_eq
  have going : m.exhausted? = none :=
    exhausted?_of_unlimited ((congrArg MachineConfig.maxSteps h.order.config_eq).trans unlimited)
  have stays : m.stray? = none := if_pos (by simp only [Opcode.width] at whole; omega)
  have known : m.unknown? = none := by
    rw [unknown?, first]
    exact if_pos (by cases op <;> decide)
  have isOp : m.op? = some op := by
    rw [op?, first]
    exact Opcode.decode?_eq_some_iff.mpr rfl
  have complete : m.truncated? op = none := by
    refine if_neg fun truncated => ?_
    have some := List.length_pos_iff.mpr truncated.1
    simp only [Opcode.width] at whole
    omega
  rw [trap?, going, mishap?, stays, known, isOp]
  change (m.truncated? op <|> m.hindrance? op m.operand?) = _
  rw [complete]
  rfl

/-- What can go wrong with a straight instruction while the machine is on track. -/
theorem reason_of_fault (h : OnTrack config code place room m) (unlimited : config.maxSteps = none)
    (straight : op.Straight) {operands : List Word} (count : operands.length = op.operands.length)
    (here : op.code :: operands <+: (code ++ [0]).drop place) {fault : Fault}
    (failed : Machine.step m = .error (.fault fault) m') :
    fault.pc = m.pc ∧ (fault.trap = .stackUnderflow ∨
      (op.Divides ∧ fault.trap = .divideByZero) ∨
      ∃ address, op = .load ∧ fault.trap = .outOfBounds address ∧
        ¬ m.memory.Contains address) := by
  have bounded := h.order.bounded
  rcases step_fails_or_succeeds bounded h.active with ⟨trap, m₁, reason, result⟩ |
    ⟨-, executed, m₁, result⟩
  · rw [result] at failed
    cases failed
    rw [h.trap?_eq unlimited count here] at reason
    have low := h.room_le
    have room : m.full? op = none := by
      refine if_neg fun full => ?_
      rw [full.2] at low
      have zero : (0 : Word).toInt = 0 := rfl
      omega
    refine ⟨rfl, (trap_of_hindrance? room reason).imp_right (.imp_right ?_)⟩
    rintro ⟨address, rfl | rfl, blamed, outside⟩
    · exact ⟨address, rfl, blamed, outside⟩
    · exact absurd straight (by decide)
  · rw [result] at failed
    cases failed

end OnTrack

end Machine

end Stackwright
