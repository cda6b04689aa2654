import Mathlib.Logic.Function.Iterate
import Stackwright.Proofs.Ideal
import Stackwright.Proofs.Reachable

/-!
# Separate stack and store

Nothing keeps the stack of the machine apart from its program, but as long as the stack is
not too deep they do not meet, and then the machine does what the ideal machine does, whose
stack is a list of its own. This holds step by step, for programs that change their own code
as well, and for runs that go wrong.

The two are related by `Mirrors`: the first cells of memory are the store, and the cells from
the stack pointer on, which lie beyond, are the stack. The cells in between hold words that
were taken off the stack, and nothing is said about them.
-/

namespace Stackwright

open Machine

/-- A machine shows the state of an ideal machine: its first cells are the store, and
stack, program counter, output and status are the same. -/
structure Matches (size : Nat) (m : Machine) (s : Ideal) : Prop where
  store_eq : m.memory.cells.toList.take size = s.store
  stack_eq : m.stack = s.stack
  pc_eq : m.pc = s.pc
  output_eq : m.output.toList = s.output
  status_eq : m.status = s.status

/-- A machine shows the state of an ideal machine, and will go on to: the stack does not
reach into the store, and no number of steps is too large. -/
structure Mirrors (capacity size : Nat) (m : Machine) (s : Ideal) : Prop
    extends Matches size m s where
  bounded : m.Bounded
  capacity_eq : m.capacity = capacity
  apart : size + s.stack.length ≤ capacity
  unlimited : m.config.maxSteps = none

namespace Mirrors

variable {capacity size : Nat} {m : Machine} {s : Ideal} {w : Word} {rest : List Word}

/-! ## Single moves -/

/-- The stack pointer is as far from the end of memory as the stack is deep. -/
theorem toInt_sp (h : Mirrors capacity size m s) :
    m.sp.toInt = capacity - s.stack.length := by
  have length := h.bounded.length_stack
  rw [h.stack_eq, h.capacity_eq] at length
  omega

theorem capacity_memory (h : Mirrors capacity size m s) : m.memory.capacity = capacity :=
  h.capacity_eq

theorem length_store (h : Mirrors capacity size m s) : s.store.length = size := by
  have apart := h.apart
  rw [← h.store_eq, List.length_take, Memory.length_toList, h.capacity_memory]
  omega

/-- What is in the store is in memory. -/
theorem read (h : Mirrors capacity size m s) {address : Word} (there : s.read? address = some w) :
    m.memory.read address = .ok w := by
  obtain ⟨i, index, found⟩ := Option.bind_eq_some_iff.mp there
  rw [← h.store_eq] at found
  obtain ⟨bound, rfl⟩ := List.getElem?_eq_some_iff.mp found
  rw [Word.index?_eq_some_iff] at index
  refine Memory.read_eq_ok_iff.mpr ⟨by omega, ?_⟩
  rw [index, Int.toNat_natCast, List.getElem_take]
  exact List.getElem?_eq_getElem _

/-- Fetching from the store is fetching from memory. -/
theorem fetch (h : Mirrors capacity size m s) (there : s.read? s.pc = some w) :
    ∃ m', Machine.fetch m = .ok w m' ∧ Mirrors capacity size m' { s with pc := s.pc + 1 } := by
  refine ⟨_, fetch_eq_ok_iff.mpr ⟨?_, rfl⟩, ?_⟩
  · rw [h.pc_eq]
    exact h.read there
  · exact ⟨⟨h.store_eq, h.stack_eq, congrArg (· + 1) h.pc_eq, h.output_eq, h.status_eq⟩,
      h.bounded.of_eq rfl rfl, h.capacity_eq, h.apart, h.unlimited⟩

/-- Going on elsewhere. -/
theorem jump (h : Mirrors capacity size m s) (target : Word) :
    Mirrors capacity size { m with pc := target } { s with pc := target } :=
  ⟨⟨h.store_eq, h.stack_eq, rfl, h.output_eq, h.status_eq⟩, h.bounded.of_eq rfl rfl,
    h.capacity_eq, h.apart, h.unlimited⟩

/-- Writing out. -/
theorem emit (h : Mirrors capacity size m s) (w : Word) :
    Mirrors capacity size { m with output := m.output.push w }
      { s with output := s.output ++ [w] } := by
  refine ⟨⟨h.store_eq, h.stack_eq, h.pc_eq, ?_, h.status_eq⟩, h.bounded.of_eq rfl rfl,
    h.capacity_eq, h.apart, h.unlimited⟩
  rw [Array.toList_push, h.output_eq]

/-- A word is put on the stack without touching the store, if there is room: the cell that is
written then lies beyond the store. -/
theorem push (h : Mirrors capacity size m s) (room : size + (s.stack.length + 1) ≤ capacity)
    (w : Word) :
    ∃ m', Machine.push w m = .ok () m' ∧
      Mirrors capacity size m' { s with stack := w :: s.stack } := by
  have sp := h.toInt_sp
  have positive : 0 < m.sp.toInt := by omega
  have inside := h.bounded.contains_sp_sub_one_iff.mpr positive
  refine ⟨_, push_eq_ok_iff.mpr ⟨inside, rfl⟩, ⟨?_, ?_, h.pc_eq, h.output_eq, h.status_eq⟩,
    h.bounded.pushed positive w, ?_, room, h.unlimited⟩
  · have beyond : size ≤ (m.sp - 1).toInt.toNat := by
      rw [h.bounded.toInt_sp_sub_one]
      omega
    rw [Memory.toList_set inside, List.take_set_of_le beyond, h.store_eq]
  · rw [h.bounded.stack_pushed positive, h.stack_eq]
  · exact (Memory.capacity_set ..).trans h.capacity_eq

/-- The topmost word is taken off the stack. -/
theorem pop (h : Mirrors capacity size m s) (hs : s.stack = w :: rest) :
    ∃ m', Machine.pop m = .ok w m' ∧ Mirrors capacity size m' { s with stack := rest } := by
  have stack := h.stack_eq.trans hs
  have apart := h.apart
  rw [hs, List.length_cons] at apart
  exact ⟨_, h.bounded.pop_of_stack_cons stack,
    ⟨h.store_eq, h.bounded.stack_popped stack, h.pc_eq, h.output_eq, h.status_eq⟩,
    h.bounded.popped (h.bounded.read_sp_of_stack stack).1, h.capacity_eq,
    Nat.le_of_succ_le apart, h.unlimited⟩

/-- Nothing is taken off an empty stack. -/
theorem pop_nil (h : Mirrors capacity size m s) (hs : s.stack = []) :
    Machine.pop m = .error .stackUnderflow m :=
  h.bounded.pop_of_stack_nil (h.stack_eq.trans hs)

/-- A word is written to the store without touching the stack. -/
theorem write (h : Mirrors capacity size m s) {address : Word} {store : List Word}
    (there : s.write? address w = some store) :
    ∃ m', writeCell address w m = .ok () m' ∧ Mirrors capacity size m' { s with store } := by
  obtain ⟨i, index, written⟩ := Option.bind_eq_some_iff.mp there
  rw [Word.index?_eq_some_iff] at index
  split at written
  · next bound =>
    cases written
    rw [h.length_store] at bound
    have apart := h.apart
    have sp := h.toInt_sp
    have inside : m.memory.Contains address := by
      rw [Memory.contains_iff, h.capacity_memory]
      omega
    have i_eq : address.toInt.toNat = i := by omega
    refine ⟨_, writeCell_eq_ok_iff.mpr ⟨inside, rfl⟩,
      ⟨?_, ?_, h.pc_eq, h.output_eq, h.status_eq⟩, h.bounded.set address w, ?_, h.apart,
      h.unlimited⟩
    · rw [Memory.toList_set inside, i_eq, List.take_set, h.store_eq]
    · have below : i < m.sp.toInt.toNat := by omega
      have stack := h.stack_eq
      rw [Machine.stack, Memory.contentsFrom] at stack ⊢
      rw [Memory.toList_set inside, i_eq, List.drop_set_of_lt below, stack]
    · exact (Memory.capacity_set ..).trans h.capacity_eq
  · cases written

/-- The topmost word is looked at. -/
theorem look (h : Mirrors capacity size m s) (hs : s.stack = w :: rest) :
    Machine.look m = .ok w m := by
  have topmost := h.bounded.read_sp_of_stack (h.stack_eq.trans hs)
  exact look_eq_ok_iff.mpr ⟨h.bounded.peek_eq_ok_iff.mpr topmost, rfl⟩

theorem look_nil (h : Mirrors capacity size m s) (hs : s.stack = []) :
    Machine.look m = .error .stackUnderflow m := by
  rw [look_eq, h.bounded.peek_of_stack_nil (h.stack_eq.trans hs)]

/-- A word is read from the store. -/
theorem readCell (h : Mirrors capacity size m s) {address : Word}
    (there : s.read? address = some w) : Machine.readCell address m = .ok w m :=
  readCell_eq_ok_iff.mpr ⟨h.read there, rfl⟩

end Mirrors

/-! ## Parts of an instruction -/

/-- A part of an instruction ends in the same way on both machines. -/
inductive Agree (capacity size : Nat) {α : Type} :
    EStateM.Result Trap Machine α → EStateM.Result Trap Ideal α → Prop where
  | ok {a : α} {m : Machine} {s : Ideal} (h : Mirrors capacity size m s) :
    Agree capacity size (.ok a m) (.ok a s)
  | error {trap : Trap} {m : Machine} {s : Ideal} (h : Mirrors capacity size m s) :
    Agree capacity size (.error trap m) (.error trap s)

/-- A part of an instruction stays in the store, and leaves room for the stack where it
succeeds. -/
def Ideal.Fits (capacity size : Nat) {α : Type} : EStateM.Result Trap Ideal α → Prop
  | .ok _ s => size + s.stack.length ≤ capacity
  | .error trap _ => ∀ address, trap ≠ .fetchOutOfBounds address ∧ trap ≠ .outOfBounds address

section Endings

variable {capacity size : Nat} {α : Type} {m : Machine} {s : Ideal} {a : α}
  {x : Move Unit} {y : EStateM Trap Ideal Unit}

/-- To give a result in the end makes no difference. -/
theorem Agree.bind_pure (h : Agree capacity size (x m) (y s)) :
    Agree capacity size ((x >>= fun _ => pure a) m) ((y >>= fun _ => pure a) s) := by
  change Agree capacity size (EStateM.bind x _ m) (EStateM.bind y _ s)
  unfold EStateM.bind
  generalize x m = r at h ⊢
  generalize y s = r' at h ⊢
  cases h with
  | ok h => exact .ok h
  | error h => exact .error h

theorem Ideal.Fits.of_bind_pure
    (h : Ideal.Fits capacity size ((y >>= fun _ => (pure a : EStateM Trap Ideal α)) s)) :
    Ideal.Fits capacity size (y s) := by
  cases ends : y s with
  | ok v s' =>
    rw [bind_of_ok ends] at h
    exact h
  | error trap s' =>
    rw [bind_of_error ends] at h
    exact h

end Endings

namespace Mirrors

variable {capacity size : Nat} {m : Machine} {s : Ideal}

/-- What begins by taking a word off the stack goes on with the topmost word. -/
theorem pop_bind {α : Type} {f : Word → Move α} {w : Word} {rest : List Word}
    {r : EStateM.Result Trap Ideal α} (h : Mirrors capacity size m s) (hs : s.stack = w :: rest)
    (next : ∀ m', Mirrors capacity size m' { s with stack := rest } →
      Agree capacity size (f w m') r) :
    Agree capacity size ((Machine.pop >>= f) m) r := by
  obtain ⟨m', popped, h'⟩ := h.pop hs
  rw [bind_of_ok popped]
  exact next m' h'

/-- Without a word on the stack it ends there. -/
theorem pop_bind_nil {f : Word → Move Unit} (h : Mirrors capacity size m s) (hs : s.stack = []) :
    Agree capacity size ((Machine.pop >>= f) m)
      (.error .stackUnderflow { s with stack := [] }) := by
  rw [bind_of_error (h.pop_nil hs), ← hs]
  exact .error h

/-- What begins by putting a word on the stack goes on with the word on top. -/
theorem push_bind {α : Type} {f : Unit → Move α} {w : Word} {r : EStateM.Result Trap Ideal α}
    (h : Mirrors capacity size m s) (room : size + (s.stack.length + 1) ≤ capacity)
    (next : ∀ m', Mirrors capacity size m' { s with stack := w :: s.stack } →
      Agree capacity size (f () m') r) :
    Agree capacity size ((Machine.push w >>= f) m) r := by
  obtain ⟨m', pushed, h'⟩ := h.push room w
  rw [bind_of_ok pushed]
  exact next m' h'

/-- A word is put on both stacks. -/
theorem push_agree (h : Mirrors capacity size m s)
    (room : size + (s.stack.length + 1) ≤ capacity) (w : Word) :
    Agree capacity size (Machine.push w m) (.ok () { s with stack := w :: s.stack }) := by
  obtain ⟨m', pushed, h'⟩ := h.push room w
  rw [pushed]
  exact .ok h'

/-- A branch is taken on both machines, or on none. -/
theorem branch (h : Mirrors capacity size m s) (taken : Prop) [Decidable taken] (target : Word) :
    Agree capacity size ((if taken then Machine.jump target else pure ()) m)
      (.ok () { s with pc := if taken then target else s.pc }) := by
  by_cases ht : taken
  · rw [if_pos ht, if_pos ht]
    exact .ok (h.jump target)
  · rw [if_neg ht, if_neg ht]
    exact .ok h

/-! ## Operations -/

/-- Binary operations take both words off the stack before they fail. -/
theorem combine (h : Mirrors capacity size m s) (op : BinaryOp) {a b : Word} {rest : List Word}
    (hs : s.stack = b :: a :: rest) :
    Agree capacity size (Machine.combine op m)
      (match op.apply a b with
      | none => .error .divideByZero { s with stack := rest }
      | some w => .ok () { s with stack := w :: rest }) := by
  have apart := h.apart
  rw [hs, List.length_cons, List.length_cons] at apart
  refine h.pop_bind hs fun m₁ h₁ => h₁.pop_bind rfl fun m₂ h₂ => ?_
  cases op.apply a b with
  | none => exact .error h₂
  | some w => exact h₂.push_agree (Nat.le_of_succ_le apart) w

/-- The binary operations have the same effect on both machines. -/
theorem binary (h : Mirrors capacity size m s) {op : Opcode} {bop : BinaryOp}
    (hop : op.binary? = some bop) :
    Agree capacity size (Machine.act op [] m) (Ideal.effect op [] s) := by
  have acts : Machine.act op [] = Machine.combine bop := by
    cases op <;> cases hop <;> rfl
  rw [acts]
  rcases hs : s.stack with _ | ⟨b, _ | ⟨a, rest⟩⟩
  · rw [Ideal.effect_binary_of_lt hop (by simp [hs])]
    exact h.pop_bind_nil hs
  · rw [Ideal.effect_binary_of_lt hop (by simp [hs])]
    exact h.pop_bind hs fun m₁ h₁ => h₁.pop_bind_nil rfl
  · rw [Ideal.effect_binary hop hs]
    exact h.combine bop hs

/-- **Each operation has the same effect** on both machines, as long as it fits. -/
theorem act (h : Mirrors capacity size m s) {op : Opcode} {operands : List Word}
    (count : operands.length = op.operands.length)
    (fits : Ideal.Fits capacity size (Ideal.effect op operands s)) :
    Agree capacity size (Machine.act op operands m) (Ideal.effect op operands s) := by
  obtain ⟨store, stack, pc, output, status⟩ := s
  have apart : size + stack.length ≤ capacity := h.apart
  cases op with
  | halt =>
    obtain rfl := List.length_eq_zero_iff.mp count
    exact .ok h
  | push =>
    obtain ⟨value, rfl⟩ := List.length_eq_one_iff.mp count
    exact h.push_agree fits value
  | pop =>
    obtain rfl := List.length_eq_zero_iff.mp count
    cases stack with
    | nil => exact h.pop_bind_nil rfl
    | cons w rest => exact h.pop_bind (f := fun _ => pure ()) rfl fun m' h' => .ok h'
  | dup =>
    obtain rfl := List.length_eq_zero_iff.mp count
    change Agree _ _ ((Machine.look >>= Machine.push) m) _
    cases stack with
    | nil =>
      rw [bind_of_error (h.look_nil rfl)]
      exact .error h
    | cons w rest =>
      rw [bind_of_ok (h.look rfl)]
      exact h.push_agree fits w
  | swap =>
    obtain rfl := List.length_eq_zero_iff.mp count
    rcases stack with _ | ⟨b, _ | ⟨a, rest⟩⟩
    · exact h.pop_bind_nil rfl
    · exact h.pop_bind rfl fun m₁ h₁ => h₁.pop_bind_nil rfl
    · refine h.pop_bind rfl fun m₁ h₁ => h₁.pop_bind rfl fun m₂ h₂ => ?_
      exact h₂.push_bind (Nat.le_of_succ_le apart) fun m₃ h₃ => h₃.push_agree apart a
  | add => exact List.length_eq_zero_iff.mp count ▸ h.binary rfl
  | sub => exact List.length_eq_zero_iff.mp count ▸ h.binary rfl
  | mul => exact List.length_eq_zero_iff.mp count ▸ h.binary rfl
  | div => exact List.length_eq_zero_iff.mp count ▸ h.binary rfl
  | mod => exact List.length_eq_zero_iff.mp count ▸ h.binary rfl
  | eq => exact List.length_eq_zero_iff.mp count ▸ h.binary rfl
  | lt => exact List.length_eq_zero_iff.mp count ▸ h.binary rfl
  | gt => exact List.length_eq_zero_iff.mp count ▸ h.binary rfl
  | neg =>
    obtain rfl := List.length_eq_zero_iff.mp count
    cases stack with
    | nil => exact h.pop_bind_nil rfl
    | cons w rest => exact h.pop_bind rfl fun m' h' => h'.push_agree apart (-w)
  | jmp =>
    obtain ⟨target, rfl⟩ := List.length_eq_one_iff.mp count
    exact .ok (h.jump target)
  | jz =>
    obtain ⟨target, rfl⟩ := List.length_eq_one_iff.mp count
    cases stack with
    | nil => exact h.pop_bind_nil rfl
    | cons w rest => exact h.pop_bind rfl fun m' h' => h'.branch (w = 0) target
  | jnz =>
    obtain ⟨target, rfl⟩ := List.length_eq_one_iff.mp count
    cases stack with
    | nil => exact h.pop_bind_nil rfl
    | cons w rest => exact h.pop_bind rfl fun m' h' => h'.branch (w ≠ 0) target
  | load =>
    obtain ⟨address, rfl⟩ := List.length_eq_one_iff.mp count
    cases found : Ideal.read? ⟨store, stack, pc, output, status⟩ address with
    | none =>
      rw [Ideal.effect_load, found] at fits
      exact absurd rfl (fits address).2
    | some w =>
      rw [Ideal.effect_load, found] at fits ⊢
      change Agree _ _ ((Machine.readCell address >>= Machine.push) m) _
      rw [bind_of_ok (h.readCell found)]
      exact h.push_agree fits w
  | store =>
    obtain ⟨address, rfl⟩ := List.length_eq_one_iff.mp count
    cases stack with
    | nil => exact h.pop_bind_nil rfl
    | cons w rest =>
      cases written : Ideal.write? ⟨store, w :: rest, pc, output, status⟩ address w with
      | none =>
        rw [Ideal.effect_store rfl, written] at fits
        exact absurd rfl (fits address).2
      | some store' =>
        rw [Ideal.effect_store rfl, written]
        refine h.pop_bind rfl fun m' h' => ?_
        obtain ⟨m'', wrote, h''⟩ := h'.write written
        rw [wrote]
        exact .ok h''
  | call =>
    obtain ⟨target, rfl⟩ := List.length_eq_one_iff.mp count
    change Agree _ _ ((Machine.push m.pc >>= fun _ => Machine.jump target) m) _
    rw [h.pc_eq]
    exact h.push_bind fits fun m' h' => .ok (h'.jump target)
  | ret =>
    obtain rfl := List.length_eq_zero_iff.mp count
    cases stack with
    | nil => exact h.pop_bind_nil rfl
    | cons w rest => exact h.pop_bind rfl fun m' h' => .ok (h'.jump w)
  | out =>
    obtain rfl := List.length_eq_zero_iff.mp count
    cases stack with
    | nil => exact h.pop_bind_nil rfl
    | cons w rest => exact h.pop_bind rfl fun m' h' => .ok (h'.emit w)

/-! ## Instructions and steps -/

/-- Both machines fetch the same operands, if they lie in the store. Else the ideal machine says so.
The program counters move on together, so this is shown for all pairs of machines at once. -/
theorem operands (h : Mirrors capacity size m s) (kinds : List OperandKind) :
    (∃ words m' s', words.length = kinds.length ∧
      (kinds.mapM fun _ => Machine.fetch) m = .ok words m' ∧
      (kinds.mapM fun _ => Ideal.fetch) s = .ok words s' ∧ Mirrors capacity size m' s') ∨
    ∃ address s', (kinds.mapM fun _ => Ideal.fetch) s = .error (.fetchOutOfBounds address) s' := by
  induction kinds generalizing m s with
  | nil => exact .inl ⟨[], m, s, rfl, rfl, rfl, h⟩
  | cons kind kinds ih =>
    rw [List.mapM_cons, List.mapM_cons]
    cases there : s.read? s.pc with
    | none =>
      exact .inr ⟨s.pc, s, bind_of_error (Ideal.fetch_of_none there)⟩
    | some w =>
      obtain ⟨m₁, first, h₁⟩ := h.fetch there
      rw [bind_of_ok first, bind_of_ok (Ideal.fetch_of_some there)]
      rcases ih h₁ with ⟨words, m', s', length, onMachine, onIdeal, h'⟩ | ⟨address, s', outside⟩
      · refine .inl ⟨w :: words, m', s', congrArg (· + 1) length, ?_, ?_, h'⟩
        · rw [bind_of_ok onMachine]
          rfl
        · rw [bind_of_ok onIdeal]
          rfl
      · exact .inr ⟨address, s', bind_of_error outside⟩

/-- Both machines execute the same instruction, as long as it fits. -/
theorem execute (h : Mirrors capacity size m s)
    (fits : Ideal.Fits capacity size (Ideal.instruction s)) :
    Agree capacity size (Machine.execute m) (Ideal.instruction s) := by
  unfold Machine.execute
  unfold Ideal.instruction at fits ⊢
  cases there : s.read? s.pc with
  | none =>
    rw [bind_of_error (Ideal.fetch_of_none there)] at fits
    exact absurd rfl (fits s.pc).1
  | some w =>
    obtain ⟨m₁, first, h₁⟩ := h.fetch there
    rw [bind_of_ok (Ideal.fetch_of_some there)] at fits ⊢
    rw [bind_of_ok first]
    cases decoded : Opcode.decode? w with
    | none => exact .error h₁
    | some op =>
      rw [decoded] at fits
      dsimp only at fits ⊢
      rw [perform_eq, bind_assoc]
      rcases h₁.operands op.operands with ⟨words, m₂, s₂, count, onMachine, onIdeal, h₂⟩ |
        ⟨address, s', outside⟩
      · rw [bind_of_ok onIdeal] at fits ⊢
        rw [bind_of_ok onMachine]
        exact (h₂.act count fits.of_bind_pure).bind_pure
      · rw [bind_of_error outside] at fits
        exact absurd rfl (fits address).1

/-- Only the status is still to be set when an instruction has ended. -/
theorem with_status (h : Mirrors capacity size m s) (steps : Nat) (status : Status) :
    Mirrors capacity size { m with steps, status } { s with status } :=
  ⟨⟨h.store_eq, h.stack_eq, h.pc_eq, h.output_eq, rfl⟩, h.bounded.of_eq rfl rfl, h.capacity_eq,
    h.apart, h.unlimited⟩

theorem exhausted?_eq_none (h : Mirrors capacity size m s) : m.exhausted? = none := by
  rw [exhausted?, h.unlimited]
  rfl

theorem active_iff (h : Mirrors capacity size m s) : m.Active ↔ s.Active := by
  unfold Machine.Active Ideal.Active
  rw [h.status_eq]

/-- An instruction fits if the state after it does. -/
theorem fits_of_contained (h : Mirrors capacity size m s) (active : s.Active)
    (contained : (Ideal.step s).Contained (capacity - size)) :
    Ideal.Fits capacity size (Ideal.instruction { s with status := .running }) := by
  have apart := h.apart
  rw [Ideal.step_of_active active] at contained
  cases ends : Ideal.instruction { s with status := .running } with
  | ok op t =>
    rw [ends] at contained
    have shallow : t.stack.length ≤ capacity - size := contained.shallow
    change size + t.stack.length ≤ capacity
    omega
  | error trap t =>
    rw [ends] at contained
    have inside := contained.inside
    intro address
    refine ⟨?_, ?_⟩ <;> rintro rfl <;> cases inside

/-- **A step leads both machines to the same state**, as long as the stack has room and no
address is outside the store. -/
theorem step (h : Mirrors capacity size m s)
    (contained : (Ideal.step s).Contained (capacity - size)) :
    Mirrors capacity size (after Machine.step m) (Ideal.step s) := by
  unfold after
  by_cases active : m.Active
  · have active' := h.active_iff.mp active
    have started := h.with_status m.steps .running
    have agree := started.execute (h.fits_of_contained active' contained)
    rw [Ideal.step_of_active active', step_of_active active, attempt_eq,
      started.exhausted?_eq_none]
    dsimp only
    generalize Machine.execute { m with status := .running } = r at agree ⊢
    generalize Ideal.instruction { s with status := .running } = r' at agree ⊢
    cases agree with
    | ok h' => exact h'.with_status _ _
    | error h' =>
      rw [← h.pc_eq]
      exact h'.with_status _ _
  · -- inactive: nothing happens to either
    rw [step_of_not_active active, Ideal.step_of_not_active (mt h.active_iff.mpr active)]
    exact h

/-! ## Runs -/

/-- A program that was loaded is the one that the ideal machine starts with. -/
theorem loaded {made : Machine} {program : List Word}
    (new : Machine.new ⟨capacity, none⟩ = .ok made)
    (size_le : size ≤ capacity) (fits : program.length ≤ size) :
    Mirrors capacity size (made.holding program) (Ideal.start size program) := by
  have room : made.memory.capacity = capacity := capacity_of_new new
  have config : made.config = ⟨capacity, none⟩ := (Invariant.made new).config_eq
  have order : Invariant ⟨capacity, none⟩ (made.holding program) :=
    .holding config room (Nat.le_trans fits size_le) (by rintro ⟨⟩)
  refine ⟨⟨?_, ?_, rfl, rfl, rfl⟩, order.bounded, order.capacity_eq, size_le, config ▸ rfl⟩
  · have zeros : min (size - program.length) (capacity - program.length) =
        size - program.length := by omega
    have cells := Memory.toList_holding (room.symm ▸ Nat.le_trans fits size_le)
    simp only [holding, Ideal.start]
    rw [cells, room, List.take_append, List.take_of_length_le fits, List.take_replicate, zeros]
  · have length := order.bounded.length_stack
    rw [(order.unstarted (.inr rfl)).sp_eq, Int.sub_self] at length
    exact List.eq_nil_of_length_eq_zero (Int.ofNat_eq_zero.mp length)

/-- The machines go through the same states. -/
theorem steps (h : Mirrors capacity size m s) {k : Nat}
    (contained : ∀ i ≤ k, (Ideal.step^[i] s).Contained (capacity - size)) :
    Mirrors capacity size ((after Machine.step)^[k] m) (Ideal.step^[k] s) := by
  induction k with
  | zero => exact h
  | succ k ih =>
    rw [Function.iterate_succ_apply', Function.iterate_succ_apply']
    have next := contained (k + 1) (Nat.le_refl _)
    rw [Function.iterate_succ_apply'] at next
    exact (ih fun i hi => contained i (Nat.le_succ_of_le hi)).step next

end Mirrors

/-- **Shared memory is as good as a separate stack**: as long as the ideal machine stays in
its store and its stack in the rest of memory, the machine goes through the same states step
by step. So it halts when the ideal machine does, and faults when and where it does. -/
theorem Machine.refines_ideal {capacity size : Nat} {program : List Word} {made : Machine}
    (new : Machine.new ⟨capacity, none⟩ = .ok made) (size_le : size ≤ capacity)
    (fits : program.length ≤ size) {k : Nat}
    (contained : ∀ i ≤ k,
      (Ideal.step^[i] (Ideal.start size program)).Contained (capacity - size)) :
    ∃ loaded, Machine.load program made = .ok () loaded ∧
      ∀ i ≤ k, Matches size ((after Machine.step)^[i] loaded)
        (Ideal.step^[i] (Ideal.start size program)) := by
  have loadable : made.Loadable := by
    obtain ⟨addressable, rfl⟩ := new_eq_ok_iff.mp new
    exact .inl rfl
  refine ⟨made.holding program, load_eq_ok loadable ?_, fun i hi => ?_⟩
  · rw [capacity_of_new new]
    exact Nat.le_trans fits size_le
  · have start := Mirrors.loaded new size_le fits
    exact (start.steps fun j hj => contained j (Nat.le_trans hj hi)).toMatches

/-- A program that writes its last instruction but one itself, an `OUT`, and then executes
it. -/
def overwriting : List Word := [1, 21, 1, 21, 18, 6, 0, 0]

theorem Machine.refines_ideal_overwriting :
    ∃ loaded, Machine.load overwriting (fresh ⟨10, none⟩) = .ok () loaded ∧
      (∀ i ≤ 5, Matches 8 ((after Machine.step)^[i] loaded)
        (Ideal.step^[i] (Ideal.start 8 overwriting))) ∧
      Ideal.step^[5] (Ideal.start 8 overwriting) =
        ⟨[1, 21, 1, 21, 18, 6, 21, 0], [], 8, [21], .halted⟩ := by
  have made : Machine.new ⟨10, none⟩ = .ok (fresh ⟨10, none⟩) := rfl
  obtain ⟨loaded, load, same⟩ :=
    refines_ideal made (by decide : 8 ≤ 10) (by decide : overwriting.length ≤ 8) (k := 5)
      (by decide +kernel)
  exact ⟨loaded, load, same, by decide +kernel⟩

end Stackwright
