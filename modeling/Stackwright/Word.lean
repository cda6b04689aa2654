import Stackwright.Text.Numeral

/-!
# Words

The machine knows one kind of value: the *word*, a signed 32-bit integer whose
arithmetic wraps around. Addresses, operation codes and stack values are all
words. Written down, a word is a plain decimal integer.
-/

namespace Stackwright

/-- A signed 32-bit integer with wrap-around arithmetic. -/
abbrev Word : Type := Int32

namespace Word

/-- The greatest word, as an integer. -/
def greatest : Nat := 2147483647

/-- The word with a given value, if there is one. -/
def ofInt? (i : Int) : Option Word :=
  if -(greatest : Int) - 1 ≤ i ∧ i ≤ greatest then some (Int32.ofInt i) else none

/-- The word at a given distance from zero; meant for numbers up to `greatest`. -/
def ofNat (n : Nat) : Word := Int32.ofInt n

/-- Each word is the one with its value. -/
theorem ofInt?_toInt (w : Word) : ofInt? w.toInt = some w := by
  have lower := w.le_toInt
  have upper := w.toInt_lt
  rw [ofInt?, if_pos (by simp only [greatest]; omega), Int32.ofInt_toInt]

/-- The word with a given value is a word that has this value. -/
theorem ofInt?_eq_some_iff {i : Int} {w : Word} : ofInt? i = some w ↔ w.toInt = i := by
  constructor
  · intro h
    unfold ofInt? at h
    split at h
    · next range =>
      cases h
      simp only [greatest] at range
      exact Int32.toInt_ofInt_of_le (by omega) (by omega)
    · cases h
  · rintro rfl
    exact ofInt?_toInt w

/-- Numbers that are meant for words do not wrap around. -/
theorem toInt_ofNat {n : Nat} (h : n ≤ greatest) : (ofNat n).toInt = n :=
  Int32.toInt_ofInt_of_le (by omega) (by simp only [greatest] at h; omega)

/-- The next word has the next value, unless it wraps around. -/
theorem toInt_add_one {w : Word} (h : w.toInt < greatest) : (w + 1).toInt = w.toInt + 1 := by
  have lower := w.le_toInt
  simp only [greatest] at h
  rw [Int32.toInt_add, show (1 : Int32).toInt = 1 from rfl]
  exact Int.bmod_eq_of_le (by omega) (by omega)

/-- The previous word has the previous value, unless it wraps around. -/
theorem toInt_sub_one {w : Word} (h : -greatest ≤ w.toInt) : (w - 1).toInt = w.toInt - 1 := by
  have upper := w.toInt_lt
  simp only [greatest] at h
  rw [Int32.toInt_sub, show (1 : Int32).toInt = 1 from rfl]
  exact Int.bmod_eq_of_le (by omega) (by omega)

/-- A word in decimal. -/
def text (w : Word) : String := String.ofList (Text.decimal w.toInt)

/-- Read a decimal numeral with an optional sign. -/
def read? (cs : List Char) : Option Word :=
  (Text.integer? (greatest + 1) cs).bind ofInt?

/-- The truth value of a comparison as a word. -/
def ofBool (b : Bool) : Word := if b then 1 else 0

theorem ofBool_decide (p : Prop) [Decidable p] : ofBool (decide p) = if p then 1 else 0 := by
  by_cases h : p <;> simp [ofBool, h]

/-- The index that an address stands for: negative addresses have none. -/
def index? (address : Word) : Option Nat :=
  if 0 ≤ address.toInt then some address.toInt.toNat else none

/-- The index of an address has the value of the address. -/
theorem index?_eq_some_iff {w : Word} {n : Nat} : index? w = some n ↔ w.toInt = n := by
  unfold index?
  split
  · rw [Option.some.injEq]
    omega
  · constructor
    · intro h
      cases h
    · omega

end Word

end Stackwright
