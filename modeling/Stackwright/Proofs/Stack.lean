import Stackwright.Proofs.Moves

/-!
# The stack as a list

The stack lies in memory from the stack pointer on, and as long as the stack pointer
stays between zero and the size of memory (`Bounded`) it behaves as a list does: a word
is taken off just if there is one, and then it is the topmost. The stack pointer is
checked nowhere. It stays within its bounds because each move checks the cell that it
touches.
-/

namespace Stackwright.Machine

variable {m m' : Machine} {w : Word}

/-- The stack pointer is between zero and the size of memory, and all of memory has
addresses. -/
structure Bounded (m : Machine) : Prop where
  /-- every cell has an address -/
  addressable : m.capacity ≤ Word.greatest
  /-- the stack does not reach below memory -/
  sp_nonneg : 0 ≤ m.sp.toInt
  /-- the stack does not start above memory -/
  sp_le : m.sp.toInt ≤ m.capacity

namespace Bounded

/-! ## No wrapping around -/

/-- The stack is empty just if the stack pointer is at the end of memory. -/
theorem stackBase_le_iff (h : m.Bounded) :
    m.stackBase ≤ m.sp ↔ (m.capacity : Int) ≤ m.sp.toInt := by
  rw [Int32.le_iff_toInt_le, stackBase, Word.toInt_ofNat h.addressable]

/-- There is a topmost word just if the stack pointer is below the end of memory. -/
theorem peek_eq_ok_iff (h : m.Bounded) :
    m.peek = .ok w ↔ m.sp.toInt < m.capacity ∧ m.memory.read m.sp = .ok w := by
  unfold peek
  split
  · next empty =>
    rw [h.stackBase_le_iff] at empty
    simp [Int.not_lt.mpr empty]
  · next nonempty =>
    rw [h.stackBase_le_iff, Int.not_le] at nonempty
    cases m.memory.read m.sp <;> simp [nonempty]

theorem toInt_sp_sub_one (h : m.Bounded) : (m.sp - 1).toInt = m.sp.toInt - 1 := by
  refine Word.toInt_sub_one ?_
  have := h.sp_nonneg
  omega

theorem toInt_sp_add_one (h : m.Bounded) (nonempty : m.sp.toInt < m.capacity) :
    (m.sp + 1).toInt = m.sp.toInt + 1 := by
  refine Word.toInt_add_one ?_
  have := h.addressable
  omega

theorem toInt_pc_add_one (h : m.Bounded) (inside : m.memory.Contains m.pc) :
    (m.pc + 1).toInt = m.pc.toInt + 1 := by
  refine Word.toInt_add_one ?_
  have := (Memory.contains_iff.mp inside).2
  have := h.addressable
  simp only [capacity] at this
  omega

/-! ## Moves keep the bounds -/

/-- There is room for a word as long as the stack pointer is not zero. -/
theorem contains_sp_sub_one_iff (h : m.Bounded) :
    m.memory.Contains (m.sp - 1) ↔ 0 < m.sp.toInt := by
  rw [Memory.contains_iff, h.toInt_sp_sub_one]
  have := h.sp_le
  simp only [capacity] at this
  omega

/-- Writing a cell keeps the bounds. -/
theorem set (h : m.Bounded) (address value : Word) :
    Bounded { m with memory := m.memory.set address value } where
  addressable := by
    rw [capacity, Memory.capacity_set]
    exact h.addressable
  sp_nonneg := h.sp_nonneg
  sp_le := by
    rw [capacity, Memory.capacity_set]
    exact h.sp_le

/-- Pushing keeps the bounds: it fails if the stack pointer is zero. -/
theorem pushed (h : m.Bounded) (room : 0 < m.sp.toInt) (value : Word) :
    Bounded { m with memory := m.memory.set (m.sp - 1) value, sp := m.sp - 1 } where
  addressable := (h.set (m.sp - 1) value).addressable
  sp_nonneg := by
    rw [h.toInt_sp_sub_one]
    omega
  sp_le := by
    rw [h.toInt_sp_sub_one]
    have := (h.set (m.sp - 1) value).sp_le
    simp only [capacity] at this ⊢
    omega

/-- Popping keeps the bounds: it fails if the stack pointer is the size of memory. -/
theorem popped (h : m.Bounded) (nonempty : m.sp.toInt < m.capacity) :
    Bounded { m with sp := m.sp + 1 } where
  addressable := h.addressable
  sp_nonneg := by
    rw [h.toInt_sp_add_one nonempty]
    have := h.sp_nonneg
    omega
  sp_le := by
    rw [h.toInt_sp_add_one nonempty]
    simp only [capacity] at nonempty ⊢
    omega

/-- Whatever does not touch memory and stack pointer keeps the bounds. -/
theorem of_eq (h : m.Bounded) (memory : m'.memory = m.memory) (sp : m'.sp = m.sp) :
    m'.Bounded where
  addressable := by
    rw [capacity, memory]
    exact h.addressable
  sp_nonneg := sp ▸ h.sp_nonneg
  sp_le := by
    rw [sp, capacity, memory]
    exact h.sp_le

/-- No move breaks the bounds. -/
theorem moved (h : m.Bounded) (move : Moved m m') : m'.Bounded := by
  cases move with
  | fetch fetched =>
    obtain ⟨-, rfl⟩ := fetch_eq_ok_iff.mp fetched
    exact h.of_eq rfl rfl
  | push pushed =>
    obtain ⟨inside, rfl⟩ := push_eq_ok_iff.mp pushed
    exact h.pushed (h.contains_sp_sub_one_iff.mp inside) _
  | pop popped =>
    obtain ⟨topmost, rfl⟩ := pop_eq_ok_iff.mp popped
    exact h.popped (h.peek_eq_ok_iff.mp topmost).1
  | write written =>
    obtain ⟨-, rfl⟩ := writeCell_eq_ok_iff.mp written
    exact h.set _ _
  | jump address => exact h.of_eq rfl rfl
  | emit word => exact h.of_eq rfl rfl

/-- No sequence of moves breaks the bounds. -/
theorem underway (h : m.Bounded) (way : Underway m m') : m'.Bounded := by
  induction way with
  | refl => exact h
  | tail _ move ih => exact ih.moved move

/-! ## Taking words off and putting them on -/

/-- The stack takes up memory from the stack pointer on. -/
theorem length_stack (h : m.Bounded) : (m.stack.length : Int) = m.capacity - m.sp.toInt := by
  have := h.sp_nonneg
  have := h.sp_le
  rw [stack, Memory.contentsFrom, List.length_drop, Memory.length_toList]
  simp only [capacity] at this ⊢
  omega

/-- The first word on the stack is the topmost. -/
theorem read_sp_of_stack (h : m.Bounded) {rest : List Word} (hs : m.stack = w :: rest) :
    m.sp.toInt < m.capacity ∧ m.memory.read m.sp = .ok w := by
  have length := h.length_stack
  rw [hs, List.length_cons] at length
  refine ⟨by omega, Memory.read_eq_ok_iff.mpr ⟨h.sp_nonneg, ?_⟩⟩
  have first : m.stack[0]? = some w := by rw [hs]; rfl
  rwa [stack, Memory.contentsFrom, List.getElem?_drop, Nat.add_zero] at first

theorem peek_of_stack_nil (h : m.Bounded) (hs : m.stack = []) :
    m.peek = .error .stackUnderflow := by
  have length := h.length_stack
  rw [hs, List.length_nil] at length
  exact if_pos (h.stackBase_le_iff.mpr (by omega))

/-- From an empty stack nothing is taken. -/
theorem pop_of_stack_nil (h : m.Bounded) (hs : m.stack = []) :
    pop m = .error .stackUnderflow m := by
  rw [pop_eq, h.peek_of_stack_nil hs]

/-- What is taken off a stack is the topmost word. -/
theorem pop_of_stack_cons (h : m.Bounded) {rest : List Word} (hs : m.stack = w :: rest) :
    pop m = .ok w { m with sp := m.sp + 1 } :=
  pop_eq_ok_iff.mpr ⟨h.peek_eq_ok_iff.mpr (h.read_sp_of_stack hs), rfl⟩

/-- A word less is on the stack once it is taken off. -/
theorem stack_popped (h : m.Bounded) {rest : List Word} (hs : m.stack = w :: rest) :
    stack { m with sp := m.sp + 1 } = rest := by
  have nonempty := (h.read_sp_of_stack hs).1
  have := h.sp_nonneg
  have next : (m.sp + 1).toInt.toNat = m.sp.toInt.toNat + 1 := by
    rw [h.toInt_sp_add_one nonempty]
    omega
  have rest_eq : m.stack.drop 1 = rest := by rw [hs]; rfl
  rw [stack, Memory.contentsFrom, List.drop_drop] at rest_eq
  rw [stack, Memory.contentsFrom, next, rest_eq]

/-- A word is on top of the stack once it is put on. -/
theorem stack_pushed (h : m.Bounded) (room : 0 < m.sp.toInt) (value : Word) :
    stack { m with memory := m.memory.set (m.sp - 1) value, sp := m.sp - 1 } =
      value :: m.stack := by
  have inside := h.contains_sp_sub_one_iff.mpr room
  have below : m.sp.toInt.toNat = (m.sp - 1).toInt.toNat + 1 := by
    rw [h.toInt_sp_sub_one]
    omega
  have bound : (m.sp - 1).toInt.toNat < m.memory.cells.toList.length := by
    rw [Memory.length_toList]
    exact inside.2
  rw [stack, stack, Memory.contentsFrom, Memory.contentsFrom, Memory.toList_set inside, below,
    List.drop_set, if_neg (Nat.lt_irrefl _), Nat.sub_self, List.drop_eq_getElem_cons bound]
  rfl

end Bounded

end Stackwright.Machine
