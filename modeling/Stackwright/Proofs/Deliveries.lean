import Stackwright.Proofs.Reachable

/-!
# Deliveries

A program can be delivered to a machine as a whole, as an image or word by word, as often as one
likes, and each delivery is accepted or refused. The `Ledger` keeps a record of it in the simplest
way there is: a program replaces what was held before, a word is appended to it, and what is
refused leaves it alone.

Nothing else matters for the machine. It is at any time as if what the ledger holds had been loaded
at once into a machine that was just made (`Ledger.Exact`), so no delivery leaves a trace beyond
the words that it brought.
-/

namespace Stackwright

open Machine (fresh load loadWord loadImage)

/-- A request to load something. -/
inductive Delivery where
  /-- a program as a whole -/
  | program (words : List Word)
  /-- one word more -/
  | word (w : Word)
  /-- a program in image format -/
  | image (feed : Feed)
  deriving DecidableEq, Repr

namespace Delivery

/-- Make the request to a machine. -/
def perform : Delivery → Control Unit
  | program words => load words
  | word w => loadWord w
  | image feed => loadImage feed

/-- What is held after a delivery that was accepted, given what was held before. -/
def contents (held : List Word) : Delivery → List Word
  | program words => words
  | word w => held ++ [w]
  | image feed =>
    match Image.read feed with
    | .ok words => words
    | .error _ => held

/-- There are too many words. Of an image this is so if it cannot be read at all. -/
def Unfit (capacity : Nat) (held : List Word) : Delivery → Prop
  | program words => capacity < words.length
  | word _ => held.length = capacity
  | image feed => ∀ words, Image.read feed = .ok words → capacity < words.length

/-- The machine refuses the delivery. -/
def Refused (d : Delivery) (m : Machine) : Prop := ∃ e m', d.perform m = .error e m'

end Delivery

/-- A machine with a record of what was delivered to it. -/
structure Ledger where
  /-- the machine -/
  machine : Machine
  /-- the words that it should hold, if anything was accepted so far -/
  held : Option (List Word)
  deriving DecidableEq, Repr

namespace Ledger

/-- The words that the machine should hold; none at first. -/
def words (ledger : Ledger) : List Word := ledger.held.getD []

/-- Make a delivery and record it if it is accepted. -/
def enter (ledger : Ledger) (d : Delivery) : Ledger :=
  match d.perform ledger.machine with
  | .ok _ m => ⟨m, some (d.contents ledger.words)⟩
  | .error _ m => ⟨m, ledger.held⟩

/-- Make some deliveries to a machine to which nothing was delivered before. -/
def ofDeliveries (m : Machine) (deliveries : List Delivery) : Ledger :=
  deliveries.foldl enter ⟨m, none⟩

end Ledger

/-! ## The record is all there is -/

namespace Ledger

/-- The stage of the machine, by the record. -/
def status (ledger : Ledger) : Status :=
  match ledger.held with
  | none => .constructed
  | some _ => .loaded

/-- But for its stage, the machine is as if the words that it should hold had been put at once
into the machine that was made. -/
structure Exact (made : Machine) (ledger : Ledger) : Prop where
  /-- nothing but the record matters -/
  machine_eq : ledger.machine = { made.holding ledger.words with status := ledger.status }
  /-- there is room for what is held -/
  fits : ledger.words.length ≤ made.capacity

namespace Exact

variable {made : Machine} {ledger : Ledger} {d : Delivery}

/-- The record of a machine that was loaded at once. -/
theorem atOnce {words : List Word} (fits : words.length ≤ made.capacity) :
    Exact made ⟨made.holding words, some words⟩ :=
  ⟨rfl, fits⟩

theorem loadable (h : ledger.Exact made) : ledger.machine.Loadable := by
  rw [h.machine_eq]
  unfold status
  cases ledger.held with
  | none => exact .inl rfl
  | some words => exact .inr rfl

theorem capacity_eq (h : ledger.Exact made) : ledger.machine.capacity = made.capacity := by
  rw [h.machine_eq]
  exact Memory.capacity_holding made.memory ledger.words

theorem loaded_eq (h : ledger.Exact made) : ledger.machine.loaded = ledger.words.length := by
  rw [h.machine_eq]
  rfl

theorem config_eq (h : ledger.Exact made) : ledger.machine.config = made.config := by
  rw [h.machine_eq]
  rfl

/-- A machine that was just made holds nothing. -/
theorem of_new {config : MachineConfig} (new : Machine.new config = .ok made) :
    Exact made ⟨made, none⟩ := by
  obtain ⟨addressable, rfl⟩ := Machine.new_eq_ok_iff.mp new
  exact ⟨Machine.fresh_eq_holding addressable, Nat.zero_le _⟩

/-! ### One delivery -/

/-- A program that fits is loaded as if nothing had been held. -/
theorem load_eq (h : ledger.Exact made) {program : List Word}
    (fits : program.length ≤ made.capacity) :
    load program ledger.machine = .ok () (made.holding program) := by
  rw [Machine.load_eq_ok h.loadable (h.capacity_eq ▸ fits),
    Machine.holding_congr h.config_eq h.capacity_eq]

/-- A program that does not fit is refused. -/
theorem load_of_large (h : ledger.Exact made) {program : List Word}
    (large : made.capacity < program.length) :
    load program ledger.machine =
      .error (.programTooLarge program.length made.capacity) ledger.machine := by
  rw [Machine.load_of_large h.loadable (h.capacity_eq ▸ large), h.capacity_eq]

/-- One word more makes a machine that could have been loaded with all of them. -/
theorem loadWord_eq (h : ledger.Exact made) (room : ledger.words.length ≠ made.capacity)
    (w : Word) :
    loadWord w ledger.machine = .ok () (made.holding (ledger.words ++ [w])) := by
  have below : ledger.words.length < made.capacity := Nat.lt_of_le_of_ne h.fits room
  rw [Machine.loadWord_of_room h.loadable (by rwa [h.loaded_eq, h.capacity_eq]), h.loaded_eq,
    h.machine_eq]
  have length : (ledger.words ++ [w]).length = ledger.words.length + 1 := List.length_append
  unfold Machine.holding
  rw [← Memory.set_holding below, length]

/-- No word goes into a memory that is full. -/
theorem loadWord_of_full (h : ledger.Exact made) (full : ledger.words.length = made.capacity)
    (w : Word) :
    loadWord w ledger.machine =
      .error (.programTooLarge (made.capacity + 1) made.capacity) ledger.machine := by
  have enough : ledger.machine.capacity ≤ ledger.machine.loaded := by
    rw [h.loaded_eq, h.capacity_eq]
    exact Nat.le_of_eq full.symm
  have refused := Machine.loadWord_of_full (w := w) h.loadable enough
  rwa [h.loaded_eq, h.capacity_eq, full] at refused

/-- What is fit to be loaded is accepted, and then it is as if all had been loaded at once. -/
theorem perform_of_fit (h : ledger.Exact made)
    (fit : ¬d.Unfit made.capacity ledger.words) :
    d.perform ledger.machine = .ok () (made.holding (d.contents ledger.words)) := by
  cases d with
  | program words => exact h.load_eq (Nat.le_of_not_lt fit)
  | word w => exact h.loadWord_eq fit w
  | image feed =>
    obtain ⟨words, fit⟩ := not_forall.mp fit
    obtain ⟨reading, fits⟩ := Classical.not_imp.mp fit
    rw [Delivery.perform, loadImage, Delivery.contents, reading]
    exact h.load_eq (Nat.le_of_not_lt fits)

/-- What is unfit is refused, and nothing happens to the machine. -/
theorem perform_of_unfit (h : ledger.Exact made)
    (unfit : d.Unfit made.capacity ledger.words) :
    ∃ e, d.perform ledger.machine = .error e ledger.machine := by
  cases d with
  | program words => exact ⟨_, h.load_of_large unfit⟩
  | word w => exact ⟨_, h.loadWord_of_full unfit w⟩
  | image feed =>
    rw [Delivery.perform, loadImage]
    cases reading : Image.read feed with
    | error e => exact ⟨_, rfl⟩
    | ok words => exact ⟨_, h.load_of_large (unfit words reading)⟩

/-- What is held after a delivery that is fit still fits. -/
theorem length_contents_le (h : ledger.Exact made)
    (fit : ¬d.Unfit made.capacity ledger.words) :
    (d.contents ledger.words).length ≤ made.capacity := by
  cases d with
  | program words => exact Nat.le_of_not_lt fit
  | word w =>
    rw [Delivery.contents, List.length_append, List.length_singleton]
    exact Nat.lt_of_le_of_ne h.fits fit
  | image feed =>
    obtain ⟨words, fit⟩ := not_forall.mp fit
    obtain ⟨reading, fits⟩ := Classical.not_imp.mp fit
    rw [Delivery.contents, reading]
    exact Nat.le_of_not_lt fits

/-- A delivery is refused just if it is unfit. -/
theorem refused_iff (h : ledger.Exact made) :
    d.Refused ledger.machine ↔ d.Unfit made.capacity ledger.words := by
  constructor
  · rintro ⟨e, m, refused⟩
    by_contra fit
    rw [h.perform_of_fit fit] at refused
    cases refused
  · intro unfit
    obtain ⟨e, refused⟩ := h.perform_of_unfit unfit
    exact ⟨e, _, refused⟩

/-- The record stays exact with each delivery. -/
theorem enter (h : ledger.Exact made) (d : Delivery) : (ledger.enter d).Exact made := by
  unfold Ledger.enter
  by_cases unfit : d.Unfit made.capacity ledger.words
  · obtain ⟨e, refused⟩ := h.perform_of_unfit unfit
    rw [refused]
    exact h
  · rw [h.perform_of_fit unfit]
    exact ⟨rfl, h.length_contents_le unfit⟩

/-- The record stays exact however many deliveries there are. -/
theorem enter_all (h : ledger.Exact made) (deliveries : List Delivery) :
    (deliveries.foldl Ledger.enter ledger).Exact made := by
  induction deliveries generalizing ledger with
  | nil => exact h
  | cons d rest ih => exact ih (h.enter d)

end Exact

end Ledger

/-- **Loading has no history.** After any deliveries the machine is what a new one is once all that
is held is loaded into it at once, or it is still new if nothing was accepted. What is refused then
is what does not fit, and nothing else. -/
theorem Machine.loading_without_history {config : MachineConfig} {made : Machine}
    (new : Machine.new config = .ok made) (deliveries : List Delivery) :
    let ledger := Ledger.ofDeliveries made deliveries
    (ledger.held = none → ledger.machine = made) ∧
      (∀ words, ledger.held = some words → load words made = .ok () ledger.machine) ∧
      ∀ d : Delivery, d.Refused ledger.machine ↔ d.Unfit config.capacity ledger.words := by
  intro ledger
  have start := Ledger.Exact.of_new new
  have kept : ledger.Exact made := start.enter_all deliveries
  rw [← capacity_of_new new]
  obtain ⟨m, held⟩ := ledger
  refine ⟨?_, ?_, fun d => kept.refused_iff⟩
  · rintro ⟨⟩
    exact kept.machine_eq.trans start.machine_eq.symm
  · rintro words ⟨⟩
    exact (start.load_eq kept.fits).trans (congrArg (EStateM.Result.ok ()) kept.machine_eq.symm)

/-- Deliveries of all kinds, some of which are refused by a machine with four cells. An image fills
it, and then comes a program that is shorter. -/
def mixed : List Delivery :=
  [.image (.ofText "no word"), .word 1, .word 2, .image (.ofText "-4\n-3\n-2\n-1"), .word 9,
    .program [1, 2, 3, 4, 5], .program [5, 6], .image (.ofText "8\n9\n10\n11\n12"), .word 7]

theorem Machine.loading_without_history_mixed :
    Machine.new ⟨4, none⟩ = .ok (fresh ⟨4, none⟩) ∧
      load [5, 6, 7] (fresh ⟨4, none⟩) =
        .ok () (Ledger.ofDeliveries (fresh ⟨4, none⟩) mixed).machine ∧
      (Ledger.ofDeliveries (fresh ⟨4, none⟩) mixed).machine.memory.cells = #[5, 6, 7, 0] ∧
      ¬(Delivery.word 8).Refused (Ledger.ofDeliveries (fresh ⟨4, none⟩) mixed).machine ∧
      (Delivery.image (.ofText "8\n9\n10\n11\n12")).Refused
        (Ledger.ofDeliveries (fresh ⟨4, none⟩) mixed).machine := by
  have new : Machine.new ⟨4, none⟩ = .ok (fresh ⟨4, none⟩) := rfl
  have held : (Ledger.ofDeliveries (fresh ⟨4, none⟩) mixed).held = some [5, 6, 7] := by
    decide +kernel
  obtain ⟨-, loaded, refused⟩ := loading_without_history new mixed
  refine ⟨new, loaded _ held, by decide +kernel, mt (refused (.word 8)).mp ?_,
    (refused (.image _)).mpr ?_⟩
  · rw [Ledger.words, held, Delivery.Unfit]
    decide
  · intro words read
    have five : Image.read (.ofText "8\n9\n10\n11\n12") = .ok [8, 9, 10, 11, 12] := by
      decide +kernel
    cases five.symm.trans read
    decide

end Stackwright
