import Stackwright.Proofs.Effects

/-!
# Why instructions fail

An instruction can fail for several reasons at once: its operand may be missing while the stack is
empty, or the stack may have too few words while an address is wrong. Which trap the machine gives
depends on the order in which the instruction goes about its work. Here the reasons are put into
a list (`trap?`), and a step fails for the first of them that applies, and for nothing else
(`step_fails_iff`).

An instruction that fails has fetched some words and has taken some off the stack, but it has not
written anything yet (`fault_keeps_memory`). In particular the words that an operation takes off
the stack always leave room for what it puts there instead.
-/

namespace Stackwright

namespace Opcode

/-! ## What operations need -/

/-- The number of words that have to be on the stack: those that are taken off it, and the one that
is copied. -/
def demand : Opcode → Nat
  | swap | add | sub | mul | div | mod | eq | lt | gt => 2
  | pop | dup | neg | jz | jnz | store | ret | out => 1
  | halt | push | jmp | load | call => 0

/-- The number of words that are taken off the stack. -/
def pops : Opcode → Nat
  | dup => 0
  | op => op.demand

/-- The topmost word is a divisor. -/
def Divides (op : Opcode) : Prop := op = div ∨ op = mod

/-- The operand is the address of a cell that is read or written. -/
def Accesses (op : Opcode) : Prop := op = load ∨ op = store

/-- There are more words on the stack afterwards. -/
def Grows (op : Opcode) : Prop := op = push ∨ op = dup ∨ op = load ∨ op = call

instance : DecidablePred Divides := fun _ => inferInstanceAs (Decidable (_ ∨ _))

instance : DecidablePred Accesses := fun _ => inferInstanceAs (Decidable (_ ∨ _))

instance : DecidablePred Grows := fun _ => inferInstanceAs (Decidable (_ ∨ _))

/-- The words that stand for no operation are the negative ones and those above the last code. -/
theorem decode?_eq_none_iff {w : Word} : decode? w = none ↔ w.toInt < 0 ∨ 21 < w.toInt := by
  unfold decode? Word.index?
  split
  · have length : all.length = 22 := rfl
    rw [Option.bind_some, List.getElem?_eq_none_iff, length]
    omega
  · simp only [Option.bind_none, true_iff]
    omega

end Opcode

namespace Machine

/-! ## The reasons -/

/-- The number of words on the stack. -/
def depth (m : Machine) : Int := m.capacity - m.sp.toInt

/-- The operation at the program counter, if the word there stands for one. -/
def op? (m : Machine) : Option Opcode := (m.cell? m.pc).bind Opcode.decode?

/-- There is no cell at the program counter. -/
def stray? (m : Machine) : Option Trap :=
  if 0 ≤ m.pc.toInt ∧ m.pc.toInt < m.capacity then none else some (.fetchOutOfBounds m.pc)

/-- The word at the program counter is not the code of an operation. -/
def unknown? (m : Machine) : Option Trap := do
  let w ← m.cell? m.pc
  if 0 ≤ w.toInt ∧ w.toInt ≤ 21 then none else some (.invalidOpcode w)

/-- The operation has an operand, but memory ends in front of it. -/
def truncated? (m : Machine) (op : Opcode) : Option Trap :=
  if op.operands ≠ [] ∧ m.pc.toInt + 1 = m.capacity then
    some (.fetchOutOfBounds (Word.ofNat m.capacity))
  else none

/-- There are too few words on the stack. -/
def starved? (m : Machine) (op : Opcode) : Option Trap :=
  if m.depth < op.demand then some .stackUnderflow else none

/-- The divisor is zero. -/
def zeroDivisor? (m : Machine) (op : Opcode) : Option Trap :=
  if op.Divides ∧ m.cell? m.sp = some 0 then some .divideByZero else none

/-- The operand is not the address of a cell. -/
def outside? (m : Machine) (op : Opcode) (operand? : Option Word) : Option Trap := do
  let address ← operand?
  if op.Accesses ∧ ¬(0 ≤ address.toInt ∧ address.toInt < m.capacity) then
    some (.outOfBounds address)
  else none

/-- There is no cell left for another word on the stack. -/
def full? (m : Machine) (op : Opcode) : Option Trap :=
  if op.Grows ∧ m.sp = 0 then some (.outOfBounds (-1)) else none

/-- What keeps an operation from acting on its operand, if it has one. -/
def hindrance? (m : Machine) (op : Opcode) (operand? : Option Word) : Option Trap :=
  m.starved? op <|> m.zeroDivisor? op <|> m.outside? op operand? <|> m.full? op

/-- What is wrong with the instruction at the program counter. -/
def mishap? (m : Machine) : Option Trap :=
  m.stray? <|> m.unknown? <|>
    m.op?.bind fun op => m.truncated? op <|> m.hindrance? op m.operand?

/-- What keeps the machine from executing the instruction at its program counter: the first of all
these reasons that applies. -/
def trap? (m : Machine) : Option Trap := m.exhausted?.map .stepLimit <|> m.mishap?

/-! ## Endings

A part of an instruction that fails leaves a machine behind that has moved on, but has the same
memory and output as before.
-/

/-- A part of an instruction fails if there is a reason for it, and succeeds if there is none. When
it fails it has fetched at most `fetches` words and has taken at most `pops` off the stack. -/
inductive Ends (m : Machine) (fetches pops : Nat) {α : Type} :
    Option Trap → EStateM.Result Trap Machine α → Prop where
  | ok {a : α} {m' : Machine} : Ends m fetches pops none (.ok a m')
  | error {trap : Trap} {pc sp : Word} (fetched popped : Nat)
    (pc_eq : pc.toInt = m.pc.toInt + fetched) (sp_eq : sp.toInt = m.sp.toInt + popped)
    (fetched_le : fetched ≤ fetches) (popped_le : popped ≤ pops) :
    Ends m fetches pops (some trap) (.error trap { m with pc, sp })

variable {m m' : Machine} {w : Word} {rest : List Word} {op : Opcode} {operands : List Word}
  {fetches pops : Nat} {reason? : Option Trap} {α : Type}

theorem ends_error (trap : Trap) :
    Ends m fetches pops (some trap) (.error trap m : EStateM.Result Trap Machine α) :=
  .error 0 0 (Int.add_zero _).symm (Int.add_zero _).symm (Nat.zero_le _) (Nat.zero_le _)

theorem ends_fetch_bind_outside {f : Word → Move α} (outside : ¬m.memory.Contains m.pc) :
    Ends m fetches pops (some (.fetchOutOfBounds m.pc)) ((fetch >>= f) m) := by
  have failed : fetch m = .error (.fetchOutOfBounds m.pc) m := by
    rw [fetch_eq, Memory.read_of_not_contains outside]
  rw [bind_of_error failed]
  exact ends_error _

/-- To give a result in the end makes no difference. -/
theorem Ends.bind_pure {a : α} {x : Move Unit} {m₁ : Machine}
    (h : Ends m fetches pops reason? (x m₁)) :
    Ends m fetches pops reason? ((x >>= fun _ => pure a) m₁) := by
  change Ends m fetches pops reason? (EStateM.bind x _ m₁)
  unfold EStateM.bind
  generalize x m₁ = result at h ⊢
  cases h with
  | ok => exact .ok
  | error fetched popped pc_eq sp_eq fetched_le popped_le =>
    exact .error fetched popped pc_eq sp_eq fetched_le popped_le

namespace Bounded

theorem depth_eq (h : m.Bounded) : m.depth = m.stack.length := h.length_stack.symm

/-- A word is taken off the stack, and then it goes on. -/
theorem ends_pop_bind (h : m.Bounded) {f : Word → Move α} (hs : m.stack = w :: rest)
    (next : ∀ m', m'.Bounded → m'.stack = rest → m'.sp.toInt = m.sp.toInt + 1 →
      m' = { m with sp := m.sp + 1 } → Ends m' fetches pops reason? (f w m')) :
    Ends m fetches (pops + 1) reason? ((pop >>= f) m) := by
  have nonempty := (h.read_sp_of_stack hs).1
  have first := h.toInt_sp_add_one nonempty
  rw [bind_of_ok (h.pop_of_stack_cons hs)]
  have ends := next _ (h.popped nonempty) (h.stack_popped hs) first rfl
  generalize f w { m with sp := m.sp + 1 } = result at ends ⊢
  cases ends with
  | ok => exact .ok
  | @error trap pc sp fetched popped pc_eq sp_eq fetched_le popped_le =>
    refine .error fetched (popped + 1) pc_eq ?_ fetched_le (Nat.succ_le_succ popped_le)
    have sp_eq : sp.toInt = (m.sp + 1).toInt + popped := sp_eq
    omega

theorem ends_pop_bind_nil (h : m.Bounded) {f : Word → Move α} (hs : m.stack = []) :
    Ends m fetches pops (some .stackUnderflow) ((pop >>= f) m) := by
  rw [bind_of_error (h.pop_of_stack_nil hs)]
  exact ends_error _

/-- A word is fetched, and then it goes on. -/
theorem ends_fetch_bind (h : m.Bounded) {f : Word → Move α} (there : m.memory.read m.pc = .ok w)
    (next : Ends { m with pc := m.pc + 1 } fetches pops reason? (f w { m with pc := m.pc + 1 })) :
    Ends m (fetches + 1) pops reason? ((fetch >>= f) m) := by
  have first := h.toInt_pc_add_one (Memory.contains_of_read there)
  rw [bind_of_ok (fetch_eq_ok_iff.mpr ⟨there, rfl⟩)]
  generalize f w { m with pc := m.pc + 1 } = result at next ⊢
  cases next with
  | ok => exact .ok
  | @error trap pc sp fetched popped pc_eq sp_eq fetched_le popped_le =>
    refine .error (fetched + 1) popped ?_ sp_eq (Nat.succ_le_succ fetched_le) popped_le
    have pc_eq : pc.toInt = (m.pc + 1).toInt + fetched := pc_eq
    omega

/-- There is room for a word where another one was taken off the stack. -/
theorem push_eq_ok_of_pos (h : m.Bounded) (room : 0 < m.sp.toInt) (w : Word) :
    push w m = .ok () { m with memory := m.memory.set (m.sp - 1) w, sp := m.sp - 1 } :=
  push_eq_ok_iff.mpr ⟨h.contains_sp_sub_one_iff.mpr room, rfl⟩

theorem ends_push_of_pos (h : m.Bounded) (room : 0 < m.sp.toInt) (w : Word) :
    Ends m fetches pops none (push w m) := by
  rw [h.push_eq_ok_of_pos room]
  exact .ok

/-- A word can be put on the stack unless the stack takes up all of memory. -/
theorem ends_push (h : m.Bounded) (w : Word) :
    Ends m fetches pops (if m.sp = 0 then some (.outOfBounds (-1)) else none) (push w m) := by
  by_cases zero : m.sp = 0
  · have outside : ¬m.memory.Contains (m.sp - 1) := by
      rw [h.contains_sp_sub_one_iff, zero]
      decide
    rw [if_pos zero, push_eq, if_neg outside, zero]
    exact ends_error _
  · have nonneg := h.sp_nonneg
    have nonzero : m.sp.toInt ≠ 0 := fun same => zero (Int32.toInt_inj.mp same)
    rw [if_neg zero]
    exact h.ends_push_of_pos (by omega) w

end Bounded

/-! ## Operations -/

theorem cell?_sp_of_stack (bounded : m.Bounded) (hs : m.stack = w :: rest) :
    m.cell? m.sp = some w :=
  cell?_eq_some_iff.mpr (bounded.read_sp_of_stack hs).2

/-- With too few words on the stack nothing else matters. -/
theorem hindrance?_of_lt (bounded : m.Bounded) (few : m.stack.length < op.demand)
    (operand? : Option Word) : m.hindrance? op operand? = some .stackUnderflow := by
  have starved : m.starved? op = some .stackUnderflow := by
    rw [starved?, bounded.depth_eq]
    exact if_pos (by exact_mod_cast few)
  rw [hindrance?, starved]
  rfl

/-- With enough words on the stack the other reasons come in. -/
theorem hindrance?_of_le (bounded : m.Bounded) (enough : op.demand ≤ m.stack.length)
    (operand? : Option Word) :
    m.hindrance? op operand? =
      (m.zeroDivisor? op <|> m.outside? op operand? <|> m.full? op) := by
  have fed : m.starved? op = none := by
    rw [starved?, bounded.depth_eq]
    exact if_neg (by exact_mod_cast Nat.not_lt.mpr enough)
  rw [hindrance?, fed]
  rfl

/-- What does not divide, access memory or make the stack grow needs nothing but its words. -/
theorem hindrance?_of_plain (bounded : m.Bounded) (enough : op.demand ≤ m.stack.length)
    (plain : ¬(op.Divides ∨ op.Accesses ∨ op.Grows)) (operand? : Option Word) :
    m.hindrance? op operand? = none := by
  simp only [not_or] at plain
  rw [hindrance?_of_le bounded enough]
  cases operand? <;> simp [zeroDivisor?, outside?, full?, plain]

/-- What makes the stack grow needs room. -/
theorem hindrance?_of_grows (bounded : m.Bounded) (enough : op.demand ≤ m.stack.length)
    (grows : op.Grows) {operand? : Option Word} (inside : m.outside? op operand? = none) :
    m.hindrance? op operand? = if m.sp = 0 then some (.outOfBounds (-1)) else none := by
  have divides : ¬op.Divides := by
    rintro (rfl | rfl) <;> revert grows <;> decide
  rw [hindrance?_of_le bounded enough]
  simp [zeroDivisor?, inside, full?, divides, grows]

theorem outside?_of_not_accesses (accesses : ¬op.Accesses) (operand? : Option Word) :
    m.outside? op operand? = none := by
  cases operand? <;> simp [outside?, accesses]

theorem outside?_of_contains {address : Word} (inside : m.memory.Contains address) :
    m.outside? op (some address) = none := by
  have range : 0 ≤ address.toInt ∧ address.toInt < m.capacity := Memory.contains_iff.mp inside
  simp [outside?, range]

/-- What accesses a cell needs one at the address. -/
theorem hindrance?_of_not_contains (bounded : m.Bounded) (enough : op.demand ≤ m.stack.length)
    (accesses : op.Accesses) {address : Word} (outside : ¬m.memory.Contains address) :
    m.hindrance? op (some address) = some (.outOfBounds address) := by
  have divides : ¬op.Divides := by
    rintro (rfl | rfl) <;> revert accesses <;> decide
  have range : ¬(0 ≤ address.toInt ∧ address.toInt < m.capacity) :=
    mt Memory.contains_iff.mpr outside
  have found : m.outside? op (some address) = some (.outOfBounds address) :=
    if_pos ⟨accesses, range⟩
  rw [hindrance?_of_le bounded enough, found]
  simp [zeroDivisor?, divides]

/-- What takes a word off the stack needs one, and then has room for a word. -/
theorem single_ends (bounded : m.Bounded) {f : Word → Move Unit} (single : op.demand = 1)
    {operand? : Option Word}
    (next : ∀ w m', op.demand ≤ m.stack.length → m'.Bounded → 0 < m'.sp.toInt →
      m'.memory = m.memory → Ends m' fetches 0 (m.hindrance? op operand?) (f w m')) :
    Ends m fetches 1 (m.hindrance? op operand?) ((pop >>= f) m) := by
  cases hs : m.stack with
  | nil =>
    rw [hindrance?_of_lt bounded (by simp [hs, single])]
    exact bounded.ends_pop_bind_nil hs
  | cons w rest =>
    refine bounded.ends_pop_bind hs fun m₁ bounded₁ _ above m₁_eq => ?_
    have nonneg := bounded.sp_nonneg
    exact next w m₁ (by simp [hs, single]) bounded₁ (by omega) (by rw [m₁_eq])

/-- What takes two words off the stack needs both, and then has room for two. -/
theorem pair_ends (bounded : m.Bounded) {f : Word → Word → Move Unit} (pair : op.demand = 2)
    {operand? : Option Word}
    (next : ∀ a b rest m', m.stack = b :: a :: rest → m'.Bounded → 1 < m'.sp.toInt →
      Ends m' fetches 0 (m.hindrance? op operand?) (f a b m')) :
    Ends m fetches 2 (m.hindrance? op operand?) ((pop >>= fun b => pop >>= fun a => f a b) m) := by
  rcases hs : m.stack with _ | ⟨b, _ | ⟨a, rest⟩⟩
  · rw [hindrance?_of_lt bounded (by simp [hs, pair])]
    exact bounded.ends_pop_bind_nil hs
  · rw [hindrance?_of_lt bounded (by simp [hs, pair])]
    exact bounded.ends_pop_bind hs fun m₁ bounded₁ hs₁ _ _ => bounded₁.ends_pop_bind_nil hs₁
  · refine bounded.ends_pop_bind hs fun m₁ bounded₁ hs₁ above₁ _ => ?_
    refine bounded₁.ends_pop_bind hs₁ fun m₂ bounded₂ _ above₂ _ => ?_
    have nonneg := bounded.sp_nonneg
    exact next a b rest m₂ hs bounded₂ (by omega)

/-- What cannot fail once it has taken a word off the stack needs nothing but this word. -/
theorem plain_ends (bounded : m.Bounded) {f : Word → Move Unit} (single : op.demand = 1)
    (plain : ¬(op.Divides ∨ op.Accesses ∨ op.Grows)) (operand? : Option Word)
    (next : ∀ w m', m'.Bounded → 0 < m'.sp.toInt → Ends m' fetches 0 none (f w m')) :
    Ends m fetches 1 (m.hindrance? op operand?) ((pop >>= f) m) := by
  refine single_ends bounded single fun w m' enough bounded' room _ => ?_
  rw [hindrance?_of_plain bounded enough plain]
  exact next w m' bounded' room

/-- With two words on the stack a binary operation fails just if it divides by zero. -/
theorem apply_eq_none_or (bounded : m.Bounded) {bop : BinaryOp} (hop : op.binary? = some bop)
    {a b : Word} (hs : m.stack = b :: a :: rest) :
    (bop.apply a b = none ∧ m.hindrance? op none = some .divideByZero) ∨
      ∃ w, bop.apply a b = some w ∧ m.hindrance? op none = none := by
  have top := cell?_sp_of_stack bounded hs
  have enough : op.demand ≤ m.stack.length := by
    cases op <;> cases hop <;> simp [hs, Opcode.demand]
  rw [hindrance?_of_le bounded enough]
  cases op <;> cases hop <;>
    simp [zeroDivisor?, outside?, full?, Opcode.Divides, Opcode.Grows, BinaryOp.apply, top, em]

/-- Both words of a binary operation are off the stack when the result is put on, so there is room
for it. -/
theorem binary_ends (bounded : m.Bounded) {bop : BinaryOp} (hop : op.binary? = some bop) :
    Ends m fetches op.pops (m.hindrance? op none) (act op [] m) := by
  have acts : act op [] = combine bop := by
    cases op <;> cases hop <;> rfl
  have pair : op.demand = 2 ∧ op.pops = 2 := by
    cases op <;> cases hop <;> exact ⟨rfl, rfl⟩
  rw [acts, pair.2]
  refine pair_ends bounded pair.1 fun a b rest m' hs bounded' room => ?_
  rcases apply_eq_none_or bounded hop hs with ⟨result, reason⟩ | ⟨w, result, reason⟩
  · rw [result, reason]
    exact ends_error _
  · rw [result, reason]
    exact bounded'.ends_push_of_pos (by omega) w

/-- A branch cannot fail once its condition is off the stack. -/
theorem branch_ends (taken : Word → Prop) [DecidablePred taken] (target w : Word) :
    Ends m fetches 0 none ((if taken w then jump target else pure ()) m) := by
  split
  · exact .ok
  · exact .ok

/-- The two words are put back to where they were. -/
theorem swap_ends (bounded : m.Bounded) :
    Ends m fetches 2 (m.hindrance? .swap none) (act .swap [] m) := by
  refine pair_ends (f := fun a b => push b >>= fun _ => push a) bounded rfl ?_
  intro a b rest m' hs bounded' room
  have below := bounded'.toInt_sp_sub_one
  have first : 0 < m'.sp.toInt := by omega
  have second : 0 < (m'.sp - 1).toInt := by omega
  rw [hindrance?_of_plain bounded (by simp [hs, Opcode.demand]) (by decide),
    bind_of_ok (bounded'.push_eq_ok_of_pos first b),
    (bounded'.pushed first b).push_eq_ok_of_pos second a]
  exact .ok

theorem load_ends (bounded : m.Bounded) (address : Word) :
    Ends m fetches 0 (m.hindrance? .load (some address)) (act .load [address] m) := by
  change Ends m fetches 0 _ ((readCell address >>= push) m)
  by_cases inside : m.memory.Contains address
  · have looked : ∃ w, readCell address m = .ok w m :=
      ⟨_, readCell_eq_ok_iff.mpr ⟨dif_pos inside, rfl⟩⟩
    obtain ⟨w, looked⟩ := looked
    rw [hindrance?_of_grows bounded (Nat.zero_le _) (by decide) (outside?_of_contains inside),
      bind_of_ok looked]
    exact bounded.ends_push w
  · have failed : readCell address m = .error (.outOfBounds address) m := by
      rw [readCell_eq, Memory.read_of_not_contains inside]
    rw [hindrance?_of_not_contains bounded (Nat.zero_le _) (by decide) inside,
      bind_of_error failed]
    exact ends_error _

theorem store_ends (bounded : m.Bounded) (address : Word) :
    Ends m fetches 1 (m.hindrance? .store (some address)) (act .store [address] m) := by
  refine single_ends (f := writeCell address) bounded rfl ?_
  intro w m' enough _ _ memory
  rw [writeCell_eq, memory]
  by_cases inside : m.memory.Contains address
  · have reason : m.hindrance? .store (some address) = none := by
      rw [hindrance?_of_le bounded enough, outside?_of_contains inside]
      simp [zeroDivisor?, full?, Opcode.Divides, Opcode.Grows]
    rw [reason, if_pos inside]
    exact .ok
  · rw [hindrance?_of_not_contains bounded enough (by decide) inside, if_neg inside]
    exact ends_error _

/-- The address behind the call is put on the stack, and then nothing can go wrong. -/
theorem call_ends (bounded : m.Bounded) (target : Word) :
    Ends m fetches 0 (m.hindrance? .call (some target)) (act .call [target] m) := by
  change Ends m fetches 0 _ ((push m.pc >>= fun _ => jump target) m)
  rw [hindrance?_of_grows bounded (Nat.zero_le _) (by decide)
    (outside?_of_not_accesses (by decide) _)]
  have ends : Ends m fetches 0 _ (push m.pc m) := bounded.ends_push m.pc
  generalize (if m.sp = 0 then some (Trap.outOfBounds (-1)) else none) = reason? at ends ⊢
  cases pushed : push m.pc m with
  | ok _ m₁ =>
    rw [pushed] at ends
    cases ends
    rw [bind_of_ok pushed]
    exact .ok
  | error trap m₁ =>
    rw [pushed] at ends
    rw [bind_of_error pushed]
    exact ends

/-- **An operation fails for the first reason that applies**, once its operands have been
fetched. -/
theorem act_ends (bounded : m.Bounded) (count : operands.length = op.operands.length) :
    Ends m fetches op.pops (m.hindrance? op operands.head?) (act op operands m) := by
  cases op with
  | halt =>
    obtain rfl := List.length_eq_zero_iff.mp count
    rw [hindrance?_of_plain bounded (Nat.zero_le _) (by decide)]
    exact .ok
  | push =>
    obtain ⟨value, rfl⟩ := List.length_eq_one_iff.mp count
    rw [hindrance?_of_grows bounded (Nat.zero_le _) (by decide)
      (outside?_of_not_accesses (by decide) _)]
    exact bounded.ends_push value
  | pop =>
    obtain rfl := List.length_eq_zero_iff.mp count
    exact plain_ends bounded rfl (by decide) none fun _ _ _ _ => .ok
  | dup =>
    obtain rfl := List.length_eq_zero_iff.mp count
    change Ends m fetches 0 _ ((look >>= push) m)
    cases hs : m.stack with
    | nil =>
      have nothing : look m = .error .stackUnderflow m := by
        rw [look_eq, bounded.peek_of_stack_nil hs]
      rw [hindrance?_of_lt bounded (by simp [hs, Opcode.demand]), bind_of_error nothing]
      exact ends_error _
    | cons w rest =>
      have top : look m = .ok w m :=
        look_eq_ok_iff.mpr ⟨bounded.peek_eq_ok_iff.mpr (bounded.read_sp_of_stack hs), rfl⟩
      rw [hindrance?_of_grows bounded (by simp [hs, Opcode.demand]) (by decide)
        (outside?_of_not_accesses (by decide) _), bind_of_ok top]
      exact bounded.ends_push w
  | swap =>
    obtain rfl := List.length_eq_zero_iff.mp count
    exact swap_ends bounded
  | neg =>
    obtain rfl := List.length_eq_zero_iff.mp count
    exact plain_ends bounded rfl (by decide) none fun w _ bounded' room =>
      bounded'.ends_push_of_pos room (-w)
  | jmp =>
    obtain ⟨target, rfl⟩ := List.length_eq_one_iff.mp count
    rw [hindrance?_of_plain bounded (Nat.zero_le _) (by decide)]
    exact .ok
  | jz =>
    obtain ⟨target, rfl⟩ := List.length_eq_one_iff.mp count
    exact plain_ends bounded rfl (by decide) _ fun w _ _ _ =>
      branch_ends (fun w => w = 0) target w
  | jnz =>
    obtain ⟨target, rfl⟩ := List.length_eq_one_iff.mp count
    exact plain_ends bounded rfl (by decide) _ fun w _ _ _ =>
      branch_ends (fun w => w ≠ 0) target w
  | load =>
    obtain ⟨address, rfl⟩ := List.length_eq_one_iff.mp count
    exact load_ends bounded address
  | store =>
    obtain ⟨address, rfl⟩ := List.length_eq_one_iff.mp count
    exact store_ends bounded address
  | call =>
    obtain ⟨target, rfl⟩ := List.length_eq_one_iff.mp count
    exact call_ends bounded target
  | ret =>
    obtain rfl := List.length_eq_zero_iff.mp count
    exact plain_ends bounded rfl (by decide) none fun _ _ _ _ => .ok
  | out =>
    obtain rfl := List.length_eq_zero_iff.mp count
    exact plain_ends bounded rfl (by decide) none fun _ _ _ _ => .ok
  | _ =>
    obtain rfl := List.length_eq_zero_iff.mp count
    exact binary_ends bounded rfl

/-! ## Instructions -/

/-- What stands behind the code of an operation does not matter if the operation takes no
operands. -/
theorem hindrance?_of_no_operands (none : op.operands = []) (operand? : Option Word) :
    m.hindrance? op operand? = m.hindrance? op Option.none := by
  have accesses : ¬op.Accesses := by
    rintro (rfl | rfl) <;> cases none
  rw [hindrance?, hindrance?, outside?_of_not_accesses accesses, outside?_of_not_accesses accesses]

/-- An operation fetches its operand before anything else. -/
theorem perform_ends (bounded : m.Bounded) (op : Opcode) :
    Ends m op.operands.length op.pops
      (if op.operands ≠ [] ∧ ¬m.memory.Contains m.pc then some (.fetchOutOfBounds m.pc)
        else m.hindrance? op (m.cell? m.pc))
      (perform op m) := by
  rw [perform_eq]
  rcases op.operands_cases with none | ⟨kind, one⟩
  · have acts : (op.operands.mapM fun _ => fetch) >>= act op = act op [] := by
      rw [none]
      rfl
    have count : ([] : List Word).length = op.operands.length := (congrArg List.length none).symm
    rw [acts, if_neg fun h => h.1 none, hindrance?_of_no_operands none]
    exact act_ends bounded count
  · have acts : (op.operands.mapM fun _ => fetch) >>= act op = fetch >>= fun x => act op [x] := by
      simp [one]
    rw [acts]
    by_cases inside : m.memory.Contains m.pc
    · obtain ⟨x, there⟩ : ∃ x, m.memory.read m.pc = .ok x := ⟨_, dif_pos inside⟩
      have word : m.cell? m.pc = some x := cell?_eq_some_iff.mpr there
      have count : [x].length = op.operands.length := (congrArg List.length one).symm
      rw [if_neg fun h => h.2 inside, word, ← count]
      have bounded₁ : Bounded { m with pc := m.pc + 1 } := bounded.of_eq rfl rfl
      exact bounded.ends_fetch_bind there (act_ends bounded₁ count)
    · rw [if_pos ⟨by simp [one], inside⟩]
      exact ends_fetch_bind_outside inside

/-- An instruction without an operand in memory ends with memory. -/
theorem truncated?_eq (bounded : m.Bounded) (inside : m.memory.Contains m.pc) (op : Opcode) :
    m.truncated? op =
      if op.operands ≠ [] ∧ ¬m.memory.Contains (m.pc + 1) then some (.fetchOutOfBounds (m.pc + 1))
      else none := by
  have next := bounded.toInt_pc_add_one inside
  have range : 0 ≤ m.pc.toInt ∧ m.pc.toInt < m.capacity := Memory.contains_iff.mp inside
  have last : m.memory.Contains (m.pc + 1) ↔ 0 ≤ (m.pc + 1).toInt ∧ (m.pc + 1).toInt < m.capacity :=
    Memory.contains_iff
  have same : m.pc.toInt + 1 = m.capacity ↔ ¬m.memory.Contains (m.pc + 1) := by
    rw [last]
    omega
  simp only [truncated?, same]
  split
  · next missing =>
    have size : (Word.ofNat m.capacity).toInt = m.capacity := Word.toInt_ofNat bounded.addressable
    have place : Word.ofNat m.capacity = m.pc + 1 := by
      rw [← Int32.toInt_inj, size, next, same.mpr missing.2]
    rw [place]
  · rfl

/-- **An instruction fails for the first reason that applies.** -/
theorem execute_ends (bounded : m.Bounded) :
    Ends m (m.op?.elim 1 Opcode.width) (m.op?.elim 0 Opcode.pops) m.mishap? (execute m) := by
  unfold execute
  by_cases inside : m.memory.Contains m.pc
  · obtain ⟨w, there⟩ : ∃ w, m.memory.read m.pc = .ok w := ⟨_, dif_pos inside⟩
    have word : m.cell? m.pc = some w := cell?_eq_some_iff.mpr there
    have stays : m.stray? = none := if_pos (Memory.contains_iff.mp inside)
    cases decoded : Opcode.decode? w with
    | none =>
      have range := Opcode.decode?_eq_none_iff.mp decoded
      have noOp : m.op? = none := by rw [op?, word, Option.bind_some, decoded]
      have unknown : m.unknown? = some (.invalidOpcode w) := by
        rw [unknown?, word]
        exact if_neg (by omega)
      rw [mishap?, stays, unknown, noOp]
      refine bounded.ends_fetch_bind there ?_
      rw [decoded]
      exact ends_error _
    | some op =>
      have range := mt Opcode.decode?_eq_none_iff.mpr (by rw [decoded]; rintro ⟨⟩)
      have isOp : m.op? = some op := by rw [op?, word, Option.bind_some, decoded]
      have known : m.unknown? = none := by
        rw [unknown?, word]
        exact if_pos (by omega)
      have reason : m.mishap? =
          if op.operands ≠ [] ∧ ¬m.memory.Contains (m.pc + 1) then
            some (.fetchOutOfBounds (m.pc + 1))
          else m.hindrance? op m.operand? := by
        rw [mishap?, stays, known, isOp]
        change (m.truncated? op <|> m.hindrance? op m.operand?) = _
        rw [truncated?_eq bounded inside]
        split <;> rfl
      have width : op.width = op.operands.length + 1 := Nat.add_comm ..
      rw [reason, isOp, Option.elim_some, Option.elim_some, width]
      have bounded₁ : Bounded { m with pc := m.pc + 1 } := bounded.of_eq rfl rfl
      refine bounded.ends_fetch_bind there ?_
      rw [decoded]
      exact (perform_ends bounded₁ op).bind_pure
  · have strays : m.stray? = some (.fetchOutOfBounds m.pc) :=
      if_neg (mt Memory.contains_iff.mpr inside)
    rw [mishap?, strays]
    exact ends_fetch_bind_outside inside

/-! ## Steps -/

/-- The status does not matter to an instruction. -/
theorem execute_running_ends (bounded : m.Bounded) :
    Ends { m with status := .running } (m.op?.elim 1 Opcode.width) (m.op?.elim 0 Opcode.pops)
      m.mishap? (execute { m with status := .running }) := by
  have bounded₁ : Bounded { m with status := .running } := bounded.of_eq rfl rfl
  exact execute_ends bounded₁

/-- A step fails for the first reason that applies, and it succeeds if there is none. -/
theorem step_fails_or_succeeds (bounded : m.Bounded) (active : m.Active) :
    (∃ trap m', m.trap? = some trap ∧ step m = .error (.fault ⟨trap, m.pc⟩) m') ∨
      m.trap? = none ∧ ∃ executed m', step m = .ok executed m' := by
  have ends := execute_running_ends bounded
  rcases step_cases m with ⟨inactive, -⟩ | ⟨limit, -, reached, result⟩ |
    ⟨op, m', -, going, executes, result⟩ | ⟨trap, m', -, going, fails, result⟩
  · exact absurd active inactive
  · refine .inl ⟨_, _, ?_, result⟩
    rw [trap?, reached]
    rfl
  · rw [executes] at ends
    have none : m.mishap? = none := by
      generalize m.mishap? = reason? at ends ⊢
      cases ends
      rfl
    refine .inr ⟨?_, _, _, result⟩
    rw [trap?, going, none]
    rfl
  · rw [fails] at ends
    have found : m.mishap? = some trap := by
      generalize m.mishap? = reason? at ends ⊢
      cases ends
      rfl
    refine .inl ⟨_, _, ?_, result⟩
    rw [trap?, going, found]
    rfl

/-- An address is to blame for a trap only if the operation accesses a cell or makes the stack
grow. -/
theorem accesses_or_grows_of_trap? {address : Word} (isOp : m.op? = some op)
    (h : m.trap? = some (.outOfBounds address)) : op.Accesses ∨ op.Grows := by
  obtain ⟨w, word, -⟩ := Option.bind_eq_some_iff.mp isOp
  by_contra neither
  simp only [not_or] at neither
  have inside : m.outside? op m.operand? = none := outside?_of_not_accesses neither.1 _
  simp [trap?, mishap?, hindrance?, stray?, unknown?, truncated?, starved?, zeroDivisor?, full?,
    isOp, word, inside, neither.2] at h

/-- **When a step fails.** A machine that may execute an instruction fails for the first reason
that applies, and the fault has the address of the instruction. If no reason applies it does not
fail. What an operation puts in the place of words that it has taken off the stack always finds
room. -/
theorem step_fails_iff {config : MachineConfig} (reachable : Reachable config m)
    (active : m.Active) :
    (∀ e, (∃ m', step m = .error e m') ↔
      ∃ trap, m.trap? = some trap ∧ e = .fault ⟨trap, m.pc⟩) ∧
    ((∃ executed m', step m = .ok executed m') ↔ m.trap? = none) ∧
    ∀ op, m.op? = some op → op = .swap ∨ op = .neg ∨ op.binary?.isSome →
      ∀ address m', step m ≠ .error (.fault ⟨.outOfBounds address, m.pc⟩) m' := by
  rcases step_fails_or_succeeds reachable.invariant.bounded active with
    ⟨trap, m₁, reason, result⟩ | ⟨none, executed, m₁, result⟩
  · refine ⟨fun e => ?_, ?_, ?_⟩
    · rw [result, reason]
      constructor
      · rintro ⟨m', ⟨⟩⟩
        exact ⟨trap, rfl, rfl⟩
      · rintro ⟨_, ⟨⟩, rfl⟩
        exact ⟨m₁, rfl⟩
    · rw [result, reason]
      simp
    · intro op isOp replaces address m' failed
      rw [result] at failed
      cases failed
      rcases accesses_or_grows_of_trap? isOp reason with accesses | grows
      · rcases accesses with rfl | rfl <;> revert replaces <;> decide
      · rcases grows with rfl | rfl | rfl | rfl <;> revert replaces <;> decide
  · refine ⟨fun e => ?_, ?_, ?_⟩
    · rw [result, none]
      simp
    · rw [result, none]
      simp
    · intro op isOp replaces address m' failed
      rw [result] at failed
      cases failed

/-- A machine whose instruction is a `STORE` to an address outside memory, with nothing on the
stack: what counts is that there is nothing to store. -/
def emptyHanded : Machine := after (load [18, -3]) (fresh ⟨2, some 1⟩)

theorem step_fails_iff_emptyHanded :
    Reachable ⟨2, some 1⟩ emptyHanded ∧ emptyHanded.Active ∧
      emptyHanded.outside? .store emptyHanded.operand? = some (.outOfBounds (-3)) ∧
      ∃ m', step emptyHanded = .error (.fault ⟨.stackUnderflow, 0⟩) m' := by
  have reachable : Reachable ⟨2, some 1⟩ emptyHanded := .load _ (.made rfl)
  have active : emptyHanded.Active := by decide
  obtain ⟨fails, -⟩ := step_fails_iff reachable active
  exact ⟨reachable, active, by decide +kernel, (fails _).mpr ⟨_, by decide +kernel, rfl⟩⟩

/-! ## What a fault leaves behind -/

/-- No instruction has more than two words, and none takes more than two off the stack. -/
theorem width_le_and_pops_le (op? : Option Opcode) :
    op?.elim 1 Opcode.width ≤ 2 ∧ op?.elim 0 Opcode.pops ≤ 2 := by
  cases op? with
  | none => decide
  | some op => cases op <;> decide

/-- A machine that faults has moved on, and nothing else has happened to it. -/
theorem exists_moved_on_of_fault (bounded : m.Bounded) {fault : Fault}
    (failed : step m = .error (.fault fault) m') :
    ∃ (pc sp : Word) (fetched popped : Nat),
      m' = { m with status := .faulted fault, pc, sp } ∧
      pc.toInt = m.pc.toInt + fetched ∧ sp.toInt = m.sp.toInt + popped ∧
      fetched ≤ m.op?.elim 1 Opcode.width ∧ popped ≤ m.op?.elim 0 Opcode.pops := by
  have ends := execute_running_ends bounded
  rcases step_cases m with ⟨-, result⟩ | ⟨limit, -, -, result⟩ | ⟨op, m₁, -, -, -, result⟩ |
    ⟨trap, m₁, -, -, fails, result⟩
  · rw [result] at failed
    cases failed
  · rw [result] at failed
    cases failed
    exact ⟨m.pc, m.sp, 0, 0, rfl, (Int.add_zero _).symm, (Int.add_zero _).symm, Nat.zero_le _,
      Nat.zero_le _⟩
  · rw [result] at failed
    cases failed
  · rw [result] at failed
    cases failed
    rw [fails] at ends
    generalize m.mishap? = reason? at ends
    cases ends with
    | @error _ pc sp fetched popped pc_eq sp_eq fetched_le popped_le =>
      exact ⟨pc, sp, fetched, popped, rfl, pc_eq, sp_eq, fetched_le, popped_le⟩

/-- **A fault comes before any change.** A step that fails has fetched some words and taken some off
the stack, not more than its operation asks for, and it has done nothing else: memory, output and
all counts are as before. -/
theorem fault_keeps_memory {config : MachineConfig} (reachable : Reachable config m)
    {fault : Fault} (failed : step m = .error (.fault fault) m') :
    m' = { m with status := .faulted fault, pc := m'.pc, sp := m'.sp } ∧
    (∃ fetched popped : Nat,
      m'.pc.toInt = m.pc.toInt + fetched ∧ m'.sp.toInt = m.sp.toInt + popped ∧
      fetched ≤ m.op?.elim 1 Opcode.width ∧ popped ≤ m.op?.elim 0 Opcode.pops ∧
      fetched ≤ 2 ∧ popped ≤ 2) ∧
    0 ≤ m'.sp.toInt ∧ m'.sp.toInt ≤ config.capacity := by
  have order : Invariant config m' := by
    have next := reachable.invariant.step
    rwa [after, failed] at next
  obtain ⟨pc, sp, fetched, popped, rfl, pc_eq, sp_eq, fetched_le, popped_le⟩ :=
    exists_moved_on_of_fault reachable.invariant.bounded failed
  obtain ⟨width_le, pops_le⟩ := width_le_and_pops_le m.op?
  exact ⟨rfl, ⟨fetched, popped, pc_eq, sp_eq, fetched_le, popped_le,
    Nat.le_trans fetched_le width_le, Nat.le_trans popped_le pops_le⟩, order.sp_nonneg, order.sp_le⟩

/-- A machine that is about to exchange two words but has only one. -/
def unpaired : Machine := after step (after (load [1, 7, 4]) (fresh ⟨4, none⟩))

theorem fault_keeps_memory_unpaired :
    Reachable ⟨4, none⟩ unpaired ∧
      step unpaired = .error (.fault ⟨.stackUnderflow, 2⟩) (after step unpaired) ∧
      after step unpaired =
        { unpaired with status := .faulted ⟨.stackUnderflow, 2⟩, pc := 3, sp := 4 } ∧
      unpaired.sp = 3 := by
  have reachable : Reachable ⟨4, none⟩ unpaired := .step (.load _ (.made rfl))
  have failed : step unpaired = .error (.fault ⟨.stackUnderflow, 2⟩) (after step unpaired) := rfl
  obtain ⟨kept, -⟩ := fault_keeps_memory reachable failed
  exact ⟨reachable, failed, kept, rfl⟩

end Machine

end Stackwright
