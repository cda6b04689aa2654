import Stackwright.Machine.Loading
import Stackwright.Proofs.Sequencing

/-!
# What loading makes of a machine

A program is loaded by clearing the machine and then writing word after word. It comes to the same
as to put the whole program into a machine that has nothing else in it (`Machine.holding`), whatever
was there before. There is room for each word, since that was looked at before the first one was
written; so a machine is cleared only if it is loaded then (`load_eq_ok`, `load_of_large`).

A single word goes behind what is there (`loadWord_of_room`), unless there is no cell left
(`loadWord_of_full`).
-/

namespace Stackwright

/-! ## Memory -/

namespace Memory

/-- A memory of the same size that starts with the given words and goes on with zeros. -/
def holding (memory : Memory) (words : List Word) : Memory where
  cells := ((words ++ List.replicate (memory.capacity - words.length) 0).take
    memory.capacity).toArray
  addressable := by
    rw [List.size_toArray]
    exact Nat.le_trans (List.length_take_le ..) memory.addressable

variable {memory : Memory} {words : List Word}

theorem capacity_holding (memory : Memory) (words : List Word) :
    (memory.holding words).capacity = memory.capacity := by
  simp only [holding, capacity, List.size_toArray, List.length_take, List.length_append,
    List.length_replicate]
  omega

theorem toList_holding (fits : words.length ≤ memory.capacity) :
    (memory.holding words).cells.toList =
      words ++ List.replicate (memory.capacity - words.length) 0 := by
  refine List.take_of_length_le ?_
  rw [List.length_append, List.length_replicate]
  omega

/-- What is held depends on what was held before by its size only. -/
theorem holding_eq_of_capacity {other : Memory} (same : other.capacity = memory.capacity)
    (words : List Word) : other.holding words = memory.holding words := by
  refine Memory.ext ?_
  simp only [holding, same]

/-- A memory that is cleared holds nothing. -/
theorem clear_eq_holding (memory : Memory) : memory.clear = memory.holding [] := by
  refine Memory.ext (Array.toList_inj.mp ?_)
  rw [toList_holding (Nat.zero_le _)]
  exact Array.toList_replicate

/-- The place behind some words has an address as long as there is a cell. -/
theorem toInt_end (room : words.length < memory.capacity) :
    (Word.ofNat words.length).toInt = words.length :=
  Word.toInt_ofNat (Nat.le_trans (Nat.le_of_lt room) memory.addressable)

theorem contains_end (room : words.length < memory.capacity) :
    (memory.holding words).Contains (Word.ofNat words.length) := by
  rw [contains_iff, toInt_end room, capacity_holding]
  omega

/-- A word that is put behind those that are there is held with them. -/
theorem set_holding (room : words.length < memory.capacity) (w : Word) :
    (memory.holding words).set (Word.ofNat words.length) w = memory.holding (words ++ [w]) := by
  obtain ⟨rest, zeros⟩ : ∃ rest, memory.capacity - words.length = rest + 1 :=
    Nat.exists_eq_succ_of_ne_zero (by omega)
  have fits : (words ++ [w]).length ≤ memory.capacity := by
    rw [List.length_append, List.length_singleton]
    omega
  have left : memory.capacity - (words ++ [w]).length = rest := by
    rw [List.length_append, List.length_singleton]
    omega
  refine Memory.ext (Array.toList_inj.mp ?_)
  rw [toList_set (contains_end room), toInt_end room, Int.toNat_natCast,
    toList_holding (Nat.le_of_lt room), toList_holding fits, zeros, left, List.replicate_succ,
    List.set_append_right _ _ (Nat.le_refl _), Nat.sub_self, List.set_cons_zero,
    List.append_assoc, List.singleton_append]

end Memory

namespace Machine

variable {m : Machine} {program held : List Word} {w : Word}

/-! ## A program as a whole -/

/-- A machine with a program in it, of which no instruction has been executed. -/
def holding (m : Machine) (program : List Word) : Machine :=
  { m with
    memory := m.memory.holding program
    pc := 0
    sp := m.stackBase
    status := .loaded
    loaded := program.length
    steps := 0
    output := #[] }

/-- Of what was there before, only the configuration and the size of memory matter. -/
theorem holding_congr {m' : Machine} (config : m'.config = m.config)
    (capacity : m'.capacity = m.capacity) (program : List Word) :
    m'.holding program = m.holding program := by
  unfold holding stackBase
  rw [config, capacity, Memory.holding_eq_of_capacity capacity]

theorem holding_reset (m : Machine) (program : List Word) :
    m.reset.holding program = m.holding program :=
  @holding_congr m m.reset rfl (Memory.capacity_zeros m.memory.addressable) program

/-- A machine that starts afresh holds nothing. -/
theorem reset_eq_holding (m : Machine) : m.reset = { m.holding [] with status := m.status } := by
  unfold reset
  rw [Memory.clear_eq_holding]
  rfl

theorem checkLoadable_of_loadable (loadable : m.Loadable) : checkLoadable m = .ok () m := by
  refine (bind_of_ok rfl).trans ?_
  rw [if_neg (not_not_intro loadable)]
  rfl

/-- What comes after the check goes by the machine as it is. -/
theorem checkLoadable_bind (loadable : m.Loadable) (next : Machine → Control Unit) :
    (checkLoadable >>= fun _ => get >>= next) m = next m m :=
  (bind_of_ok (checkLoadable_of_loadable loadable)).trans (bind_of_ok rfl)

theorem checkLoadable_of_not_loadable (late : ¬m.Loadable) :
    checkLoadable m = .error (.invalidState .load m.status) m := by
  refine (bind_of_ok rfl).trans ?_
  rw [if_pos late]
  rfl

/-- Where there is a cell, a word is stored. -/
theorem store_of_contains {address : Word} (inside : m.memory.Contains address) (size : Nat) :
    store size address w m = .ok () { m with memory := m.memory.set address w } := by
  refine (bind_of_ok rfl).trans ?_
  rw [Memory.write_of_contains inside]
  rfl

/-- Words that are stored one after the other are held with those before them. -/
theorem storeFrom_holding {memory : Memory} (size : Nat)
    (fits : (held ++ program).length ≤ memory.capacity) :
    storeFrom size held.length program { m with memory := memory.holding held } =
      .ok () { m with memory := memory.holding (held ++ program) } := by
  induction program generalizing held with
  | nil =>
    rw [List.append_nil]
    rfl
  | cons w rest ih =>
    rw [List.append_cons] at fits ⊢
    have room : held.length < memory.capacity := by
      simp only [List.length_append, List.length_singleton] at fits
      omega
    have stored := @store_of_contains { m with memory := memory.holding held } w _
      (Memory.contains_end room) size
    rw [Memory.set_holding room] at stored
    refine (bind_of_ok stored).trans ?_
    have later := ih fits
    rwa [List.length_append, List.length_singleton] at later

/-- **A program that fits is all there is** in the machine when it has been loaded. -/
theorem load_eq_ok (loadable : m.Loadable) (fits : program.length ≤ m.capacity) :
    load program m = .ok () (m.holding program) := by
  refine (checkLoadable_bind loadable _).trans ?_
  rw [if_neg (Nat.not_lt.mpr fits)]
  have cleared : (modify reset : Control Unit) m =
      .ok () { m.holding [] with status := m.status } :=
    congrArg (EStateM.Result.ok ()) m.reset_eq_holding
  have stored := @storeFrom_holding { m.holding [] with status := m.status } program [] m.memory
    program.length fits
  exact (bind_of_ok cleared).trans (bind_of_ok stored)

/-- A program that does not fit is refused before anything is cleared. -/
theorem load_of_large (loadable : m.Loadable) (large : m.capacity < program.length) :
    load program m = .error (.programTooLarge program.length m.capacity) m := by
  refine (checkLoadable_bind loadable _).trans ?_
  rw [if_pos large]
  rfl

theorem load_of_not_loadable (late : ¬m.Loadable) :
    load program m = .error (.invalidState .load m.status) m :=
  bind_of_error (checkLoadable_of_not_loadable late)

/-- A program is loaded if it is time to load and the program fits. -/
theorem after_load (program : List Word) (m : Machine) :
    after (load program) m =
      if m.Loadable ∧ program.length ≤ m.capacity then m.holding program else m := by
  unfold after
  by_cases loadable : m.Loadable
  · by_cases fits : program.length ≤ m.capacity
    · rw [load_eq_ok loadable fits, if_pos ⟨loadable, fits⟩]
    · rw [load_of_large loadable (Nat.lt_of_not_le fits), if_neg fun accepted => fits accepted.2]
  · rw [load_of_not_loadable loadable, if_neg fun accepted => loadable accepted.1]

/-! ## A word more -/

/-- A word goes into the first cell behind what is loaded. -/
theorem loadWord_of_room (loadable : m.Loadable) (room : m.loaded < m.capacity) :
    loadWord w m =
      .ok ()
        { m with
          memory := m.memory.set (Word.ofNat m.loaded) w
          loaded := m.loaded + 1
          status := .loaded } := by
  have small : m.loaded ≤ Word.greatest := Nat.le_trans (Nat.le_of_lt room) m.memory.addressable
  have value := Word.toInt_ofNat small
  have address : Word.ofInt? m.loaded = some (Word.ofNat m.loaded) :=
    Word.ofInt?_eq_some_iff.mpr value
  have inside : m.memory.Contains (Word.ofNat m.loaded) := by
    rw [Memory.contains_iff, value]
    exact ⟨Int.natCast_nonneg _, Int.ofNat_lt.mpr room⟩
  refine (checkLoadable_bind loadable _).trans ?_
  dsimp only
  rw [if_neg (Nat.not_le.mpr room), address]
  exact (bind_of_ok rfl).trans (bind_of_ok (store_of_contains inside _))

theorem loadWord_of_full (loadable : m.Loadable) (full : m.capacity ≤ m.loaded) :
    loadWord w m = .error (.programTooLarge (m.loaded + 1) m.capacity) m := by
  refine (checkLoadable_bind loadable _).trans ?_
  dsimp only
  rw [if_pos full]
  rfl

theorem loadWord_of_not_loadable (late : ¬m.Loadable) :
    loadWord w m = .error (.invalidState .load m.status) m :=
  bind_of_error (checkLoadable_of_not_loadable late)

/-- A word is loaded if it is time to load and a cell is left. -/
theorem after_loadWord (word : Word) (m : Machine) :
    after (loadWord word) m =
      if m.Loadable ∧ m.loaded < m.capacity then
        { m with
          memory := m.memory.set (Word.ofNat m.loaded) word
          loaded := m.loaded + 1
          status := .loaded }
      else m := by
  unfold after
  by_cases loadable : m.Loadable
  · by_cases room : m.loaded < m.capacity
    · rw [loadWord_of_room loadable room, if_pos ⟨loadable, room⟩]
    · rw [loadWord_of_full loadable (Nat.le_of_not_lt room), if_neg fun accepted => room accepted.2]
  · rw [loadWord_of_not_loadable loadable, if_neg fun accepted => loadable accepted.1]

end Machine

end Stackwright
