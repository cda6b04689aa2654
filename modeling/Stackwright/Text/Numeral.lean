/-!
# Numerals

Reading and writing of whole numbers. Reading goes digit by digit from the left
and stops at the first digit that is wrong or that takes the value beyond a limit;
`Misread` tells the two apart, and at one digit "wrong" wins. What is written can be
read again, also with zeros before it (`natural?_digits`, `integer?_digits`).
-/

namespace Stackwright.Text

/-- Why a string of digits has no value. -/
inductive Misread where
  /-- a character is no digit of the radix -/
  | notADigit
  /-- the value passes the limit -/
  | tooLarge
  deriving DecidableEq, Repr

/-- The value of a digit; letters of either case continue after nine. -/
def digitValue? (radix : Nat) (c : Char) : Option Nat :=
  let value :=
    if '0' ≤ c ∧ c ≤ '9' then some (c.toNat - '0'.toNat)
    else if 'a' ≤ c ∧ c ≤ 'z' then some (c.toNat - 'a'.toNat + 10)
    else if 'A' ≤ c ∧ c ≤ 'Z' then some (c.toNat - 'A'.toNat + 10)
    else none
  value.filter (· < radix)

/-- Continue a numeral whose digits so far have the value `value`. -/
def readDigits (radix limit value : Nat) : List Char → Except Misread Nat
  | [] => .ok value
  | c :: cs =>
    match digitValue? radix c with
    | none => .error .notADigit
    | some d =>
      let value' := value * radix + d
      if limit < value' then .error .tooLarge else readDigits radix limit value' cs

/-- The digits before decide first, and then those after. -/
theorem readDigits_append (radix limit value : Nat) (cs ds : List Char) :
    readDigits radix limit value (cs ++ ds) =
      match readDigits radix limit value cs with
      | .ok value => readDigits radix limit value ds
      | .error e => .error e := by
  induction cs generalizing value with
  | nil => rfl
  | cons c cs ih =>
    rw [List.cons_append, readDigits, readDigits]
    cases digitValue? radix c with
    | none => rfl
    | some d =>
      by_cases large : limit < value * radix + d
      · simp only [if_pos large]
      · simp only [if_neg large, ih]

/-- The value of a non-empty string of decimal digits, up to a limit. -/
def natural? (limit : Nat) : List Char → Option Nat
  | [] => none
  | cs => (readDigits 10 limit 0 cs).toOption

/-- A natural number with an optional plus sign, up to a limit. -/
def unsigned? (limit : Nat) : List Char → Option Nat
  | '+' :: cs => natural? limit cs
  | cs => natural? limit cs

/-- A decimal integer with an optional sign, up to a limit on its absolute
value. -/
def integer? (limit : Nat) : List Char → Option Int
  | '-' :: cs => (natural? limit cs).map fun (n : Nat) => -(n : Int)
  | cs => (unsigned? limit cs).map fun (n : Nat) => (n : Int)

/-- An integer in decimal: no leading zeros, and a sign only if negative. -/
def decimal (i : Int) : List Char :=
  if i < 0 then '-' :: Nat.toDigits 10 i.natAbs else Nat.toDigits 10 i.natAbs

/-! ## Reading what was written -/

/-- Decimal digits are read as what they stand for. -/
theorem digitValue?_digitChar : ∀ d < 10, digitValue? 10 (Nat.digitChar d) = some d := by
  decide

/-- The digits of a number that the limit admits are read as this number. -/
theorem readDigits_toDigits {limit n : Nat} (h : n ≤ limit) :
    readDigits 10 limit 0 (Nat.toDigits 10 n) = .ok n := by
  induction n using Nat.strongRecOn with
  | ind n ih =>
    by_cases small : n < 10
    · rw [Nat.toDigits_of_lt_base small]
      simp [readDigits, digitValue?_digitChar n small, Nat.not_lt.mpr h]
    · rw [Nat.toDigits_of_base_le (by omega) (by omega), readDigits_append,
        ih (n / 10) (by omega) (by omega)]
      have last := digitValue?_digitChar (n % 10) (by omega)
      have whole : n / 10 * 10 + n % 10 = n := by omega
      simp [readDigits, last, whole, Nat.not_lt.mpr h]

/-- The digits of a number with some zeros before them. -/
def digits (zeros n : Nat) : List Char := List.replicate zeros '0' ++ Nat.toDigits 10 n

theorem digits_ne_nil (zeros n : Nat) : digits zeros n ≠ [] :=
  List.append_ne_nil_of_right_ne_nil _ Nat.toDigits_ne_nil

theorem isDigit_of_mem_digits {zeros n : Nat} {c : Char} (mem : c ∈ digits zeros n) :
    c.isDigit = true := by
  rcases List.mem_append.mp mem with zero | digit
  · rw [List.eq_of_mem_replicate zero]
    rfl
  · exact Nat.isDigit_of_mem_toDigits (by omega) (by omega) digit

/-- Zeros before the digits do not count, not even for the limit. -/
theorem readDigits_zeros (limit zeros : Nat) (cs : List Char) :
    readDigits 10 limit 0 (List.replicate zeros '0' ++ cs) = readDigits 10 limit 0 cs := by
  have value : digitValue? 10 '0' = some 0 := by decide
  induction zeros with
  | zero => rfl
  | succ zeros ih =>
    rw [List.replicate_succ, List.cons_append, readDigits, value]
    simpa using ih

/-- There is always a digit, so a number that was written is there to be read. -/
theorem natural?_digits {limit n : Nat} (zeros : Nat) (h : n ≤ limit) :
    natural? limit (digits zeros n) = some n := by
  rw [natural?, digits, readDigits_zeros, readDigits_toDigits h]
  · rfl
  · exact digits_ne_nil zeros n

section Signs

variable {limit n : Nat} (zeros : Nat)

theorem integer?_minus (h : n ≤ limit) :
    integer? limit ('-' :: digits zeros n) = some (-(n : Int)) := by
  rw [integer?, natural?_digits zeros h, Option.map_some]

theorem integer?_plus (h : n ≤ limit) :
    integer? limit ('+' :: digits zeros n) = some (n : Int) := by
  rw [integer?, unsigned?, natural?_digits zeros h, Option.map_some]
  rintro cs ⟨⟩

/-- No digit is a sign. -/
theorem integer?_digits (h : n ≤ limit) : integer? limit (digits zeros n) = some (n : Int) := by
  have noSign : ∀ (sign : Char) (cs : List Char), digits zeros n = sign :: cs → sign.isDigit :=
    fun sign cs shape => isDigit_of_mem_digits (shape ▸ List.mem_cons_self)
  rw [integer?, unsigned?, natural?_digits zeros h, Option.map_some]
  · intro cs shape
    cases noSign '+' cs shape
  · intro cs shape
    cases noSign '-' cs shape

end Signs

end Stackwright.Text
