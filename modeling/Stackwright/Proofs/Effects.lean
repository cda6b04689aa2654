import Stackwright.Bindings
import Stackwright.Proofs.Reachable

/-!
# What instructions do

Code, data and stack share one memory, so an instruction may overwrite the words that it works
with, or itself. What it does is given here as a table (`Machine.effect?`): from the words that
are in memory *before* the instruction to the cells that it writes, the way of the stack pointer,
the place where the program goes on and the words that are written out.

An instruction that is executed does what the table says, and nothing else (`step_effect`). So it
does not matter that it goes by moves, each of which sees what the moves before it have done.
-/

namespace Stackwright

/-- What an instruction changes. -/
structure Effect where
  /-- the cells that are written, with their new words -/
  cells : Bindings Word Word := []
  /-- how far the stack pointer goes -/
  shift : Int := 0
  /-- where the program goes on, if not behind the instruction -/
  target? : Option Word := none
  /-- the words that are written out -/
  output : List Word := []
  deriving DecidableEq, Repr

namespace Machine

/-- The word in the cell with an address, if there is such a cell. -/
def cell? (m : Machine) (address : Word) : Option Word := (m.memory.read address).toOption

/-- The word behind the one at the program counter, which is the operand of an operation that has
one. -/
def operand? (m : Machine) : Option Word := m.cell? (m.pc + 1)

/-! ## The table -/

/-- A word is put on the stack. -/
def pushing (m : Machine) (w : Word) : Effect where
  cells := [(m.sp - 1, w)]
  shift := -1

/-- The two topmost words are replaced by one. -/
def combining? (m : Machine) (f : Word → Word → Word) : Option Effect := do
  let b ← m.cell? m.sp
  let a ← m.cell? (m.sp + 1)
  return { cells := [(m.sp + 1, f a b)], shift := 1 }

/-- The topmost word is taken off the stack, and it decides whether the program goes on at the
operand. -/
def branching? (m : Machine) (taken : Word → Prop) [DecidablePred taken] : Option Effect := do
  let target ← m.operand?
  let top ← m.cell? m.sp
  return { shift := 1, target? := if taken top then some target else none }

/-- The effect of each operation, as long as the words are there that it needs. -/
def effect? (m : Machine) : Opcode → Option Effect
  | .halt => some {}
  | .push => do
    let value ← m.operand?
    return m.pushing value
  | .pop => some { shift := 1 }
  | .dup => do
    let top ← m.cell? m.sp
    return m.pushing top
  | .swap => do
    let b ← m.cell? m.sp
    let a ← m.cell? (m.sp + 1)
    return { cells := [(m.sp, a), (m.sp + 1, b)] }
  | .neg => do
    let top ← m.cell? m.sp
    return { cells := [(m.sp, -top)] }
  | .jmp => do
    let target ← m.operand?
    return { target? := some target }
  | .jz => m.branching? fun top => top = 0
  | .jnz => m.branching? fun top => top ≠ 0
  | .load => do
    let address ← m.operand?
    let value ← m.cell? address
    return m.pushing value
  | .store => do
    let address ← m.operand?
    let top ← m.cell? m.sp
    return { cells := [(address, top)], shift := 1 }
  | .call => do
    let target ← m.operand?
    return { m.pushing (m.pc + 2) with target? := some target }
  | .ret => do
    let top ← m.cell? m.sp
    return { shift := 1, target? := some top }
  | .out => do
    let top ← m.cell? m.sp
    return { shift := 1, output := [top] }
  | .add => m.combining? fun a b => a + b
  | .sub => m.combining? fun a b => a - b
  | .mul => m.combining? fun a b => a * b
  | .div => m.combining? fun a b => a / b
  | .mod => m.combining? fun a b => a % b
  | .eq => m.combining? fun a b => if a = b then 1 else 0
  | .lt => m.combining? fun a b => if a < b then 1 else 0
  | .gt => m.combining? fun a b => if b < a then 1 else 0

end Machine

/-- An effect turns a machine into another, where `behind` is the place behind the instruction. -/
structure Effect.Turns (e : Effect) (behind : Word) (m m' : Machine) : Prop where
  /-- the cells that are written hold the new words -/
  written : ∀ address w, (address, w) ∈ e.cells → m'.cell? address = some w
  /-- all other cells hold what they held before -/
  kept : ∀ address, address ∉ e.cells.keys → m'.cell? address = m.cell? address
  sp_eq : m'.sp.toInt = m.sp.toInt + e.shift
  pc_eq : m'.pc = e.target?.getD behind
  output_eq : m'.output.toList = m.output.toList ++ e.output

namespace Machine

variable {m m' m₁ : Machine} {w behind : Word} {op : Opcode} {operands : List Word}

theorem cell?_eq_some_iff {address : Word} :
    m.cell? address = some w ↔ m.memory.read address = .ok w := by
  rw [cell?]
  cases m.memory.read address <;> simp [Except.toOption]

/-! ## Cells that are written -/

/-- An effect on no cell leaves memory as it is. -/
theorem turns_of_memory_eq {e : Effect} (none : e.cells = []) (memory : m'.memory = m.memory)
    (sp : m'.sp.toInt = m.sp.toInt + e.shift) (pc : m'.pc = e.target?.getD behind)
    (output : m'.output.toList = m.output.toList ++ e.output) : e.Turns behind m m' := by
  refine ⟨?_, fun address _ => ?_, sp, pc, output⟩
  · rw [none]
    rintro _ _ ⟨⟩
  · rw [cell?, cell?, memory]

/-- An effect on one cell sets this cell. -/
theorem turns_of_memory_set {e : Effect} {address : Word} (one : e.cells = [(address, w)])
    (inside : m.memory.Contains address) (memory : m'.memory = m.memory.set address w)
    (sp : m'.sp.toInt = m.sp.toInt + e.shift) (pc : m'.pc = e.target?.getD behind)
    (output : m'.output.toList = m.output.toList ++ e.output) : e.Turns behind m m' := by
  refine ⟨?_, fun other apart => ?_, sp, pc, output⟩
  · rw [one]
    intro address' w' mem
    obtain ⟨rfl, rfl⟩ := Prod.mk.inj (List.mem_singleton.mp mem)
    rw [cell?_eq_some_iff, memory, Memory.read_set_self inside]
  · rw [one] at apart
    have ne : other ≠ address := fun same => apart (List.mem_singleton.mpr same)
    rw [cell?, cell?, memory, Memory.read_set_of_ne ne]

/-! ## Operations

An operation acts when its operands have been fetched, so the machine it acts on has its program
counter behind the instruction.
-/

/-- The machine that is about to act. -/
def acting (m : Machine) (behind : Word) : Machine :=
  { m with status := .running, pc := behind }

theorem bounded_acting (bounded : m.Bounded) (behind : Word) : (m.acting behind).Bounded :=
  bounded.of_eq rfl rfl

/-- A word that is taken off the stack is the one that the stack pointer points at. -/
theorem pop_acting (bounded : m.Bounded) (h : pop (m.acting behind) = .ok w m₁) :
    m.cell? m.sp = some w ∧ m.sp.toInt < m.capacity ∧
      m₁ = { m.acting behind with sp := m.sp + 1 } := by
  obtain ⟨topmost, rfl⟩ := pop_eq_ok_iff.mp h
  obtain ⟨nonempty, there⟩ := (bounded_acting bounded behind).peek_eq_ok_iff.mp topmost
  exact ⟨cell?_eq_some_iff.mpr there, nonempty, rfl⟩

theorem push_turns (bounded : m.Bounded) (h : push w (m.acting behind) = .ok () m') :
    (m.pushing w).Turns behind m m' := by
  obtain ⟨inside, rfl⟩ := push_eq_ok_iff.mp h
  refine turns_of_memory_set rfl inside rfl ?_ rfl (List.append_nil _).symm
  exact bounded.toInt_sp_sub_one

/-- Two words that are taken off the stack are the one that the stack pointer points at and the
one behind it. -/
theorem pops_acting (bounded : m.Bounded) {f : Word → Word → Move Unit}
    (h : (pop >>= fun b => pop >>= fun a => f a b) (m.acting behind) = .ok () m') :
    ∃ a b, m.cell? m.sp = some b ∧ m.cell? (m.sp + 1) = some a ∧ m.sp.toInt < m.capacity ∧
      f a b { m.acting behind with sp := m.sp + 1 + 1 } = .ok () m' := by
  obtain ⟨b, m₁, popped, h⟩ := bind_eq_ok_iff.mp h
  obtain ⟨first, nonempty, rfl⟩ := pop_acting bounded popped
  obtain ⟨a, m₂, popped, h⟩ := bind_eq_ok_iff.mp h
  obtain ⟨topmost, rfl⟩ := pop_eq_ok_iff.mp popped
  have bounded₁ := (bounded_acting bounded behind).popped nonempty
  obtain ⟨-, there⟩ := bounded₁.peek_eq_ok_iff.mp topmost
  exact ⟨a, b, first, cell?_eq_some_iff.mpr there, nonempty, h⟩

/-- Where the second word was that is taken off the stack, the result is put. -/
theorem combine_turns (bounded : m.Bounded) {bop : BinaryOp} {f : Word → Word → Word}
    (result : ∀ {a b w}, bop.apply a b = some w → f a b = w)
    (h : combine bop (m.acting behind) = .ok () m') :
    ∃ e, m.combining? f = some e ∧ e.Turns behind m m' := by
  obtain ⟨a, b, first, second, nonempty, h⟩ := pops_acting bounded h
  refine ⟨{ cells := [(m.sp + 1, f a b)], shift := 1 }, by rw [combining?, first, second]; rfl, ?_⟩
  cases applied : bop.apply a b with
  | none =>
    rw [applied] at h
    cases h
  | some w =>
    rw [applied] at h
    obtain ⟨-, rfl⟩ := push_eq_ok_iff.mp h
    have inside := Memory.contains_of_read (cell?_eq_some_iff.mp second)
    have back : m.sp + 1 + 1 - 1 = m.sp + 1 := Int32.add_sub_cancel ..
    refine turns_of_memory_set rfl inside ?_ ?_ rfl (List.append_nil _).symm
    · rw [result applied]
      exact congrArg (m.memory.set · w) back
    · exact (congrArg Int32.toInt back).trans (bounded.toInt_sp_add_one nonempty)

/-- The binary operations have the effects of their rows, and so have no others. -/
theorem binary_turns (bounded : m.Bounded) {bop : BinaryOp} (hop : op.binary? = some bop)
    (h : act op [] (m.acting behind) = .ok () m') :
    ∃ e, m.effect? op = some e ∧ e.Turns behind m m' := by
  have acts : act op [] = combine bop := by
    cases op <;> cases hop <;> rfl
  rw [acts] at h
  cases op <;> cases hop
  case div | mod =>
    refine combine_turns bounded (fun {a b w} applied => ?_) h
    rw [BinaryOp.apply] at applied
    split at applied <;> cases applied
    rfl
  case eq =>
    refine combine_turns bounded (fun applied => ?_) h
    exact Option.some.inj ((BinaryOp.apply_eq ..).symm.trans applied)
  case lt =>
    refine combine_turns bounded (fun applied => ?_) h
    exact Option.some.inj ((BinaryOp.apply_lt ..).symm.trans applied)
  case gt =>
    refine combine_turns bounded (fun applied => ?_) h
    exact Option.some.inj ((BinaryOp.apply_gt ..).symm.trans applied)
  all_goals
    refine combine_turns bounded (fun applied => ?_) h
    exact Option.some.inj applied

theorem branch_turns (bounded : m.Bounded) (taken : Word → Prop) [DecidablePred taken]
    {target : Word} (operand : m.operand? = some target)
    (h : (pop >>= fun w => if taken w then jump target else pure ()) (m.acting behind) =
      .ok () m') :
    ∃ e, m.branching? taken = some e ∧ e.Turns behind m m' := by
  obtain ⟨top, m₁, popped, h⟩ := bind_eq_ok_iff.mp h
  obtain ⟨first, nonempty, rfl⟩ := pop_acting bounded popped
  have shift := bounded.toInt_sp_add_one nonempty
  refine ⟨{ shift := 1, target? := if taken top then some target else none },
    by rw [branching?, operand, first]; rfl, ?_⟩
  by_cases decision : taken top
  · rw [if_pos decision] at h ⊢
    cases h
    exact turns_of_memory_eq rfl rfl shift rfl (List.append_nil _).symm
  · rw [if_neg decision] at h ⊢
    cases h
    exact turns_of_memory_eq rfl rfl shift rfl (List.append_nil _).symm

/-- Two words are taken off the stack and put back in the other order. The stack pointer goes up
twice and comes down to where they were. -/
theorem swap_turns (bounded : m.Bounded) (h : perform .swap (m.acting behind) = .ok () m') :
    ∃ e, m.effect? .swap = some e ∧ e.Turns behind m m' := by
  obtain ⟨a, b, first, second, nonempty, h⟩ :=
    pops_acting (f := fun a b => push b >>= fun _ => push a) bounded h
  obtain ⟨_, m₁, pushed, h⟩ := bind_eq_ok_iff.mp h
  obtain ⟨-, rfl⟩ := push_eq_ok_iff.mp pushed
  obtain ⟨-, m'_eq⟩ := push_eq_ok_iff.mp h
  have back : m.sp + 1 + 1 - 1 = m.sp + 1 := Int32.add_sub_cancel ..
  have backAgain : m.sp + 1 + 1 - 1 - 1 = m.sp := by rw [back, Int32.add_sub_cancel]
  have memory : m'.memory = (m.memory.set (m.sp + 1) b).set m.sp a := by
    rw [m'_eq]
    change (m.memory.set (m.sp + 1 + 1 - 1) b).set (m.sp + 1 + 1 - 1 - 1) a = _
    rw [backAgain, back]
  have inside := Memory.contains_of_read (cell?_eq_some_iff.mp first)
  have insideAbove := Memory.contains_of_read (cell?_eq_some_iff.mp second)
  have apart : m.sp + 1 ≠ m.sp := by
    intro same
    have := bounded.toInt_sp_add_one nonempty
    rw [same] at this
    omega
  refine ⟨{ cells := [(m.sp, a), (m.sp + 1, b)] }, by rw [effect?, first, second]; rfl,
    ?_, fun other away => ?_, ?_, ?_, ?_⟩
  · intro address w mem
    rw [cell?_eq_some_iff, memory]
    rcases List.mem_cons.mp mem with here | above
    · obtain ⟨rfl, rfl⟩ := Prod.mk.inj here
      exact Memory.read_set_self (Memory.contains_set.mpr inside) w
    · obtain ⟨rfl, rfl⟩ := Prod.mk.inj (List.mem_singleton.mp above)
      rw [Memory.read_set_of_ne apart, Memory.read_set_self insideAbove]
  · obtain ⟨here, above⟩ := not_or.mp (mt List.mem_cons.mpr away)
    replace above := mt List.mem_singleton.mpr above
    rw [cell?, cell?, memory, Memory.read_set_of_ne here, Memory.read_set_of_ne above]
  · rw [m'_eq]
    exact (congrArg Int32.toInt backAgain).trans (Int.add_zero _).symm
  · rw [m'_eq]
    rfl
  · rw [m'_eq]
    exact (List.append_nil _).symm

/-- **Each operation does what the table says**, once its operands have been fetched. -/
theorem act_turns (bounded : m.Bounded) (count : operands.length = op.operands.length)
    (operand : ∀ x ∈ operands, m.operand? = some x) (next : behind = m.pc + Word.ofNat op.width)
    (h : act op operands (m.acting behind) = .ok () m') :
    ∃ e, m.effect? op = some e ∧ e.Turns behind m m' := by
  cases op with
  | halt =>
    obtain rfl := List.length_eq_zero_iff.mp count
    cases h
    exact ⟨_, rfl, turns_of_memory_eq rfl rfl (Int.add_zero _).symm rfl (List.append_nil _).symm⟩
  | push =>
    obtain ⟨value, rfl⟩ := List.length_eq_one_iff.mp count
    have there := operand value List.mem_cons_self
    exact ⟨_, by rw [effect?, there]; rfl, push_turns bounded h⟩
  | pop =>
    obtain rfl := List.length_eq_zero_iff.mp count
    obtain ⟨top, m₁, popped, h⟩ := bind_eq_ok_iff (x := pop) (f := fun _ => pure ()) |>.mp h
    obtain ⟨-, nonempty, rfl⟩ := pop_acting bounded popped
    cases h
    exact ⟨_, rfl, turns_of_memory_eq rfl rfl (bounded.toInt_sp_add_one nonempty) rfl
      (List.append_nil _).symm⟩
  | dup =>
    obtain rfl := List.length_eq_zero_iff.mp count
    obtain ⟨top, m₁, looked, h⟩ := bind_eq_ok_iff.mp h
    obtain ⟨topmost, rfl⟩ := look_eq_ok_iff.mp looked
    obtain ⟨-, there⟩ := (bounded_acting bounded behind).peek_eq_ok_iff.mp topmost
    have first : m.cell? m.sp = some top := cell?_eq_some_iff.mpr there
    exact ⟨_, by rw [effect?, first]; rfl, push_turns bounded h⟩
  | swap =>
    obtain rfl := List.length_eq_zero_iff.mp count
    exact swap_turns bounded h
  | add | sub | mul | div | mod | eq | lt | gt =>
    obtain rfl := List.length_eq_zero_iff.mp count
    exact binary_turns bounded rfl h
  | neg =>
    obtain rfl := List.length_eq_zero_iff.mp count
    obtain ⟨top, m₁, popped, h⟩ := bind_eq_ok_iff.mp h
    obtain ⟨first, nonempty, rfl⟩ := pop_acting bounded popped
    obtain ⟨-, rfl⟩ := push_eq_ok_iff.mp h
    have back : m.sp + 1 - 1 = m.sp := Int32.add_sub_cancel ..
    refine ⟨_, by rw [effect?, first]; rfl,
      turns_of_memory_set rfl (Memory.contains_of_read (cell?_eq_some_iff.mp first))
        (congrArg (m.memory.set · (-top)) back)
        ((congrArg Int32.toInt back).trans (Int.add_zero _).symm) rfl (List.append_nil _).symm⟩
  | jmp =>
    obtain ⟨target, rfl⟩ := List.length_eq_one_iff.mp count
    have there := operand target List.mem_cons_self
    cases h
    exact ⟨_, by rw [effect?, there]; rfl,
      turns_of_memory_eq rfl rfl (Int.add_zero _).symm rfl (List.append_nil _).symm⟩
  | jz =>
    obtain ⟨target, rfl⟩ := List.length_eq_one_iff.mp count
    exact branch_turns bounded (fun top => top = 0) (operand target List.mem_cons_self) h
  | jnz =>
    obtain ⟨target, rfl⟩ := List.length_eq_one_iff.mp count
    exact branch_turns bounded (fun top => top ≠ 0) (operand target List.mem_cons_self) h
  | load =>
    obtain ⟨address, rfl⟩ := List.length_eq_one_iff.mp count
    have there := operand address List.mem_cons_self
    obtain ⟨value, m₁, looked, h⟩ := bind_eq_ok_iff.mp h
    obtain ⟨found, rfl⟩ := readCell_eq_ok_iff.mp looked
    have cell : m.cell? address = some value := cell?_eq_some_iff.mpr found
    refine ⟨m.pushing value, ?_, push_turns bounded h⟩
    rw [effect?, there, Option.bind_eq_bind, Option.bind_some, cell]
    rfl
  | store =>
    obtain ⟨address, rfl⟩ := List.length_eq_one_iff.mp count
    have there := operand address List.mem_cons_self
    obtain ⟨top, m₁, popped, h⟩ := bind_eq_ok_iff.mp h
    obtain ⟨first, nonempty, rfl⟩ := pop_acting bounded popped
    obtain ⟨inside, rfl⟩ := writeCell_eq_ok_iff.mp h
    exact ⟨_, by rw [effect?, there, first]; rfl,
      turns_of_memory_set rfl inside rfl (bounded.toInt_sp_add_one nonempty) rfl
        (List.append_nil _).symm⟩
  | call =>
    obtain ⟨target, rfl⟩ := List.length_eq_one_iff.mp count
    have there := operand target List.mem_cons_self
    obtain ⟨_, m₁, pushed, h⟩ :=
      bind_eq_ok_iff (x := push behind) (f := fun _ => jump target) |>.mp h
    obtain ⟨inside, rfl⟩ := push_eq_ok_iff.mp pushed
    cases h
    exact ⟨{ m.pushing (m.pc + 2) with target? := some target }, by rw [effect?, there]; rfl,
      turns_of_memory_set (by rw [next]; rfl) inside rfl bounded.toInt_sp_sub_one rfl
        (List.append_nil _).symm⟩
  | ret =>
    obtain rfl := List.length_eq_zero_iff.mp count
    obtain ⟨top, m₁, popped, h⟩ := bind_eq_ok_iff.mp h
    obtain ⟨first, nonempty, rfl⟩ := pop_acting bounded popped
    cases h
    exact ⟨_, by rw [effect?, first]; rfl, turns_of_memory_eq rfl rfl
      (bounded.toInt_sp_add_one nonempty) rfl (List.append_nil _).symm⟩
  | out =>
    obtain rfl := List.length_eq_zero_iff.mp count
    obtain ⟨top, m₁, popped, h⟩ := bind_eq_ok_iff.mp h
    obtain ⟨first, nonempty, rfl⟩ := pop_acting bounded popped
    cases h
    exact ⟨_, by rw [effect?, first]; rfl, turns_of_memory_eq rfl rfl
      (bounded.toInt_sp_add_one nonempty) rfl Array.toList_push⟩

/-! ## Instructions -/

/-- The operands are the words behind the code of the operation, and then the program counter is
behind the instruction. -/
theorem operands_eq_ok (bounded : m.Bounded) (there : m.memory.read m.pc = .ok w)
    (h : (op.operands.mapM fun _ => fetch) (m.acting (m.pc + 1)) = .ok operands m₁) :
    m₁ = m.acting (m.pc + Word.ofNat op.width) ∧
      (m.pc + Word.ofNat op.width).toInt = m.pc.toInt + op.width ∧
      operands.length = op.operands.length ∧ ∀ x ∈ operands, m.operand? = some x := by
  have next := bounded.toInt_pc_add_one (Memory.contains_of_read there)
  rw [Opcode.width]
  rcases op.operands_cases with none | ⟨kind, one⟩
  · rw [none] at h ⊢
    cases h
    refine ⟨rfl, next, rfl, ?_⟩
    rintro _ ⟨⟩
  · rw [one, List.mapM_cons] at h
    rw [one]
    obtain ⟨x, m₂, fetched, h⟩ := bind_eq_ok_iff.mp h
    cases h
    obtain ⟨found, rfl⟩ := fetch_eq_ok_iff.mp fetched
    have last := (bounded_acting bounded (m.pc + 1)).toInt_pc_add_one
      (Memory.contains_of_read found)
    have behind : m.pc + 1 + 1 = m.pc + 2 := Int32.add_assoc ..
    refine ⟨congrArg m.acting behind, ?_, rfl, ?_⟩
    · have moved : (m.pc + 1 + 1).toInt = (m.pc + 1).toInt + 1 := last
      rw [behind, next] at moved
      exact moved.trans (Int.add_assoc ..)
    · intro y mem
      rw [List.mem_singleton.mp mem]
      exact cell?_eq_some_iff.mpr found

/-- **What an instruction does, and what it leaves alone.** A step that succeeds executes the
operation at the program counter and does what the table says of it, by the words in memory before.
No other cell changes, wherever the stack is. -/
theorem step_effect {config : MachineConfig} (reachable : Reachable config m)
    {executed : Executed} (stepped : step m = .ok executed m') :
    executed.address = m.pc ∧ m.cell? m.pc = some executed.op.code ∧
      (∃ e behind, m.effect? executed.op = some e ∧ e.Turns behind m m' ∧
        behind.toInt = m.pc.toInt + executed.op.width) ∧
      m'.steps = m.steps + 1 ∧ m'.config = m.config ∧ m'.loaded = m.loaded ∧
      m'.capacity = m.capacity := by
  have bounded := reachable.invariant.bounded
  obtain ⟨op, m₁, -, -, executes, rfl, rfl⟩ := exists_execute_of_step stepped
  have alike : Alike { m with status := .running } m₁ := by
    have passes := passes_execute { m with status := .running }
    rw [after, executes] at passes
    exact alike_of_underway passes
  obtain ⟨there, performed⟩ := execute_eq_ok_iff.mp executes
  rw [perform_eq] at performed
  obtain ⟨operands, m₂, fetched, acted⟩ := bind_eq_ok_iff.mp performed
  obtain ⟨rfl, behind, count, operand⟩ := operands_eq_ok bounded there fetched
  obtain ⟨e, row, turns⟩ := act_turns bounded count operand rfl acted
  exact ⟨rfl, cell?_eq_some_iff.mpr there,
    ⟨e, _, row, ⟨turns.written, turns.kept, turns.sp_eq, turns.pc_eq, turns.output_eq⟩, behind⟩,
    congrArg (· + 1) alike.steps_eq, alike.config_eq, alike.loaded_eq, alike.capacity_eq⟩

/-- A machine that is loaded with nothing but a call, which takes up all of memory: the address
that the call leaves on the stack overwrites the operand of the call. -/
def filled : Machine := after (load [19, 0]) (fresh ⟨2, none⟩)

theorem step_effect_filled :
    Reachable ⟨2, none⟩ filled ∧ step filled = .ok ⟨0, .call⟩ (after step filled) ∧
      filled.cell? filled.pc = some Opcode.call.code ∧
      (∃ behind, ({ cells := [(1, 2)], shift := -1, target? := some 0 } : Effect).Turns behind
        filled (after step filled)) ∧
      (after step filled).steps = 1 := by
  have reachable : Reachable ⟨2, none⟩ filled := .load _ (.made rfl)
  have stepped : step filled = .ok ⟨0, .call⟩ (after step filled) := rfl
  obtain ⟨-, code, ⟨e, behind, row, turns, -⟩, steps, -⟩ := step_effect reachable stepped
  obtain rfl : { cells := [(1, 2)], shift := -1, target? := some 0 } = e := Option.some.inj row
  exact ⟨reachable, stepped, code, ⟨behind, turns⟩, steps⟩

end Machine

end Stackwright
