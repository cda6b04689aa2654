import Stackwright.Word

/-!
# Memory

The machine has one memory of words, shared by code, data and stack. Its size is
fixed when it is made, and every cell is zero then. Addresses are words, so there is
an address for each cell only as long as there are not too many cells, and an address
may lie outside; this is checked here and nowhere else.
-/

namespace Stackwright

/-- An address outside memory. -/
structure OutOfBounds where
  /-- the address -/
  address : Word
  /-- the number of cells that there are -/
  capacity : Nat
  deriving DecidableEq, Repr

/-- The wording of the error. -/
def OutOfBounds.message (e : OutOfBounds) : String :=
  let address := e.address.text
  s!"address {address} is outside memory of {e.capacity} word(s)"

/-- A row of cells, numbered from zero. -/
@[ext]
structure Memory where
  /-- the cells -/
  cells : Array Word
  /-- each of them has an address -/
  addressable : cells.size ≤ Word.greatest
  deriving DecidableEq, Repr

namespace Memory

/-- A memory of zeros. -/
def zeros (capacity : Nat) (addressable : capacity ≤ Word.greatest) : Memory where
  cells := Array.replicate capacity 0
  addressable := Nat.le_trans (Nat.le_of_eq Array.size_replicate) addressable

/-- The number of cells. -/
def capacity (memory : Memory) : Nat := memory.cells.size

/-- Whether an address is that of a cell. -/
def Contains (memory : Memory) (address : Word) : Prop :=
  0 ≤ address.toInt ∧ address.toInt.toNat < memory.capacity

instance (memory : Memory) (address : Word) : Decidable (memory.Contains address) :=
  inferInstanceAs (Decidable (_ ∧ _))

/-- The cells have the addresses from zero to the capacity. -/
theorem contains_iff {memory : Memory} {address : Word} :
    memory.Contains address ↔ 0 ≤ address.toInt ∧ address.toInt < memory.capacity := by
  unfold Contains
  omega

/-- The word at an address. -/
def read (memory : Memory) (address : Word) : Except OutOfBounds Word :=
  if h : memory.Contains address then
    have bound : address.toInt.toNat < memory.cells.size := h.2
    .ok memory.cells[address.toInt.toNat]
  else .error ⟨address, memory.capacity⟩

/-- Put a word at the address of a cell. Elsewhere this changes nothing. -/
def set (memory : Memory) (address : Word) (value : Word) : Memory :=
  if memory.Contains address then
    { cells := memory.cells.setIfInBounds address.toInt.toNat value
      addressable := Nat.le_trans (Nat.le_of_eq Array.size_setIfInBounds) memory.addressable }
  else memory

/-- Put a word at an address. -/
def write (memory : Memory) (address : Word) (value : Word) : Except OutOfBounds Memory :=
  if memory.Contains address then .ok (memory.set address value)
  else .error ⟨address, memory.capacity⟩

/-- The words from an address on to the end; none if it lies beyond. Negative
addresses count as zero. -/
def contentsFrom (memory : Memory) (address : Word) : List Word :=
  memory.cells.toList.drop address.toInt.toNat

/-- Make all cells zero. -/
def clear (memory : Memory) : Memory := zeros memory.capacity memory.addressable

/-! ## What changes, and what does not -/

/-- A memory of zeros has the size that was asked for. -/
theorem capacity_zeros {n : Nat} (addressable : n ≤ Word.greatest) :
    (zeros n addressable).capacity = n := Array.size_replicate

/-- A memory of zeros is cleared already. -/
theorem clear_zeros {n : Nat} (addressable : n ≤ Word.greatest) :
    (zeros n addressable).clear = zeros n addressable :=
  Memory.ext (congrArg (Array.replicate · 0) (capacity_zeros addressable))

/-- What is written where a cell is goes there. -/
theorem write_of_contains {memory : Memory} {address : Word} (h : memory.Contains address)
    (value : Word) : memory.write address value = .ok (memory.set address value) :=
  if_pos h

/-- Setting a cell keeps the size. -/
theorem capacity_set (memory : Memory) (address value : Word) :
    (memory.set address value).capacity = memory.capacity := by
  unfold set
  split
  · exact Array.size_setIfInBounds
  · rfl

/-- Setting a cell keeps the addresses. -/
theorem contains_set {memory : Memory} {address value other : Word} :
    (memory.set address value).Contains other ↔ memory.Contains other := by
  rw [contains_iff, capacity_set, contains_iff]

/-- What is read is what the cell at the address holds. -/
theorem read_eq_ok_iff {memory : Memory} {address w : Word} :
    memory.read address = .ok w ↔
      0 ≤ address.toInt ∧ memory.cells.toList[address.toInt.toNat]? = some w := by
  rw [Array.getElem?_toList]
  constructor
  · intro h
    unfold read at h
    split at h
    · next inside =>
      cases h
      exact ⟨inside.1, Array.getElem?_eq_getElem inside.2⟩
    · cases h
  · rintro ⟨positive, h⟩
    obtain ⟨bound, rfl⟩ := Array.getElem?_eq_some_iff.mp h
    exact dif_pos ⟨positive, bound⟩

/-- What can be read is inside. -/
theorem contains_of_read {memory : Memory} {address w : Word}
    (h : memory.read address = .ok w) : memory.Contains address := by
  unfold read at h
  split at h
  · assumption
  · cases h

/-- Setting a cell is setting a member of the list of cells. -/
theorem toList_set {memory : Memory} {address : Word} (h : memory.Contains address)
    (value : Word) : (memory.set address value).cells.toList =
      memory.cells.toList.set address.toInt.toNat value := by
  rw [set, if_pos h, Array.toList_setIfInBounds]

/-- The list of cells is as long as the memory. -/
theorem length_toList (memory : Memory) : memory.cells.toList.length = memory.capacity :=
  Array.length_toList

/-- Nothing can be read outside. -/
theorem read_of_not_contains {memory : Memory} {address : Word}
    (h : ¬memory.Contains address) :
    memory.read address = .error ⟨address, memory.capacity⟩ :=
  dif_neg h

/-- A cell that was just set holds its value. -/
theorem read_set_self {memory : Memory} {address : Word} (h : memory.Contains address)
    (value : Word) : (memory.set address value).read address = .ok value := by
  rw [read, dif_pos (contains_set.mpr h)]
  simp only [set, if_pos h, Array.getElem_setIfInBounds_self]

/-- All other cells hold what they held before. -/
theorem read_set_of_ne {memory : Memory} {address other : Word} (h : other ≠ address)
    (value : Word) : (memory.set address value).read other = memory.read other := by
  by_cases inside : memory.Contains other
  · rw [read, dif_pos (contains_set.mpr inside), read, dif_pos inside]
    unfold set
    by_cases here : memory.Contains address
    · have apart : address.toInt.toNat ≠ other.toInt.toNat := by
        intro same
        have := here.1
        have := inside.1
        exact h (Int32.toInt_inj.mp (by omega))
      simp only [if_pos here]
      exact congrArg _ (Array.getElem_setIfInBounds_ne inside.2 apart)
    · simp only [if_neg here]
      rfl
  · rw [read_of_not_contains inside, read_of_not_contains (mt contains_set.mp inside),
      capacity_set]

end Memory

end Stackwright
