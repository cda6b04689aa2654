import Stackwright.Proofs.Grammar

/-!
# Which error an operand gets

An operand that is rejected is either no literal and no name, or a literal with a value that is no
word, and there is one error for each of the two. For most texts, which one it is can be told from
the grammar: the second error is for what spells a value (`Literal.Spells`).

Reading is done from left to right though, and stops as soon as the digits have a value beyond
`Literal.room`. Whatever stands behind is not looked at, and it can be no digit. Such texts begin
with a literal that bursts the room (`Literal.Bursts`); they count as literals out of range, whether
they spell a value or not. There are no others: `Operand.parse_rejects` says exactly which texts
get which error.
-/

namespace Stackwright

namespace Literal

variable {base limit value : Nat} {c : Char} {cs rest : List Char}

/-- The text begins with a literal for which there is no room. -/
def Bursts (cs : List Char) : Prop :=
  ∃ front rest i, cs = front ++ rest ∧ Spells front i ∧ room < i.natAbs

/-- The value passes the limit when that of the digits up to some place does. -/
theorem readDigits_tooLarge_iff (bounded : base ≤ 16) (within : value ≤ limit) :
    Text.readDigits base limit value cs = .error .tooLarge ↔
      ∃ front rest ds, cs = front ++ rest ∧ Digits base front ds ∧
        limit < value * base ^ front.length + Nat.ofDigits base ds.reverse := by
  constructor
  · intro read
    induction cs generalizing value with
    | nil => cases read
    | cons c cs ih =>
      rw [Text.readDigits] at read
      cases digit : Text.digitValue? base c with
      | none => simp [digit] at read
      | some d =>
        have isDigit := (digitValue?_eq_some_iff bounded).mp digit
        simp only [digit] at read
        split at read
        · next large => exact ⟨[c], cs, [d], rfl, .cons isDigit .nil, by simpa using large⟩
        · next small =>
          obtain ⟨front, rest, ds, rfl, digits, large⟩ := ih (Nat.le_of_not_lt small) read
          refine ⟨c :: front, rest, d :: ds, rfl, .cons isDigit digits, ?_⟩
          rwa [value_cons digits.length_eq]
  · rintro ⟨front, rest, ds, rfl, digits, large⟩
    induction digits generalizing value with
    | nil => simp at large; omega
    | @cons c d front ds isDigit digits ih =>
      rw [List.cons_append, Text.readDigits, (digitValue?_eq_some_iff bounded).mpr isDigit]
      dsimp only
      split
      · rfl
      · next small =>
        refine ih (Nat.le_of_not_lt small) ?_
        rwa [value_cons digits.length_eq] at large

/-- More than one digit is needed for a value beyond the room. -/
theorem exists_digits_of_large {ds : List Nat} (digits : Digits 10 cs ds)
    (large : room < Nat.ofDigits 10 ds.reverse) :
    ∃ c c' rest, cs = c :: c' :: rest ∧ c'.isDigit := by
  have isDigits := isDigit_of_mem_digits digits
  cases digits with
  | nil => simp [room] at large
  | cons first digits =>
    cases digits with
    | nil =>
      have small := first.1
      simp [room] at large
      omega
    | cons _ _ => exact ⟨_, _, _, rfl, isDigits _ (by simp)⟩

/-- The radix is that of the literal in front, if this one is long enough. -/
theorem radix_append {r : Radix} {ds : List Nat} (digits : Digits r.base cs ds)
    (large : room < Nat.ofDigits r.base ds.reverse) :
    radix (r.mark ++ cs ++ rest) = (r.base, cs ++ rest) := by
  cases r with
  | binary => rfl
  | octal => rfl
  | hexadecimal => rfl
  | decimal =>
    obtain ⟨c, c', tail, rfl, digit⟩ := exists_digits_of_large digits large
    show radix (c :: c' :: (tail ++ rest)) = (10, c :: c' :: (tail ++ rest))
    unfold radix
    split
    · next shape => cases shape; cases digit
    · next shape => cases shape; cases digit
    · next shape => cases shape; cases digit
    · rfl

theorem magnitude_tooLarge_iff : magnitude cs = .error .tooLarge ↔
    ∃ front rest n, cs = front ++ rest ∧ IsNumeral front n ∧ room < n := by
  have read (r : Radix) (digits : List Char) :
      Text.readDigits r.base room 0 digits = .error .tooLarge ↔
        ∃ front rest ds, digits = front ++ rest ∧ Digits r.base front ds ∧
          room < Nat.ofDigits r.base ds.reverse := by
    rw [readDigits_tooLarge_iff r.base_le (Nat.zero_le _)]
    simp only [Nat.zero_mul, Nat.zero_add]
  constructor
  · intro h
    obtain ⟨r, digits, split, rfl⟩ := exists_radix cs
    simp only [magnitude, split] at h
    cases digits with
    | nil => simp at h
    | cons c tail =>
      obtain ⟨front, rest, ds, shape, isDigits, large⟩ := (read r (c :: tail)).mp h
      have nonempty : front ≠ [] := by
        rintro rfl
        obtain rfl := List.forall₂_nil_left_iff.mp isDigits
        cases large
      exact ⟨r.mark ++ front, rest, _, by rw [shape, List.append_assoc],
        .intro r nonempty isDigits, large⟩
  · rintro ⟨front, rest, n, rfl, ⟨r, nonempty, isDigits⟩, large⟩
    obtain ⟨c, tail, rfl⟩ := List.exists_cons_of_ne_nil nonempty
    simp only [magnitude, radix_append isDigits large]
    exact (read r (c :: (tail ++ rest))).mpr ⟨c :: tail, rest, _, rfl, isDigits, large⟩

theorem read_tooLarge_iff : read cs = .error .tooLarge ↔ Bursts cs := by
  have map_iff (cs : List Char) (f : Nat → Int) :
      (magnitude cs).map f = .error .tooLarge ↔ magnitude cs = .error .tooLarge := by
    cases magnitude cs <;> simp [Except.map]
  unfold read
  split
  · next cs =>
    rw [map_iff, magnitude_tooLarge_iff]
    constructor
    · rintro ⟨front, rest, n, rfl, numeral, large⟩
      exact ⟨'-' :: front, rest, -n, rfl, .minus numeral, by simpa using large⟩
    · rintro ⟨front, rest, i, shape, spells, large⟩
      cases spells with
      | plain numeral =>
        obtain ⟨c, tail, rfl, digit⟩ := numeral.exists_first
        cases shape
        cases digit
      | @minus front n numeral =>
        cases shape
        exact ⟨front, rest, n, rfl, numeral, by simpa using large⟩
  · next noMinus =>
    rw [map_iff, magnitude_tooLarge_iff]
    constructor
    · rintro ⟨front, rest, n, rfl, numeral, large⟩
      exact ⟨front, rest, n, rfl, .plain numeral, large⟩
    · rintro ⟨front, rest, i, rfl, spells, large⟩
      cases spells with
      | @plain _ n numeral => exact ⟨front, rest, n, rfl, numeral, large⟩
      | minus numeral => exact absurd rfl (noMinus _)

/-- What begins with a literal is meant to be one. -/
theorem Bursts.isMeant (h : Bursts cs) : isMeant cs := by
  obtain ⟨front, rest, i, rfl, spells, -⟩ := h
  have meant := spells.isMeant
  simp only [Literal.isMeant, List.dropWhile_append] at meant ⊢
  cases unsigned : front.dropWhile (· == '-') with
  | nil => simp [unsigned] at meant
  | cons c tail => simpa [unsigned] using meant

/-- A literal without a sign and a leading zero is in decimal. -/
theorem Spells.isDigit_of_mem {i : Int} (h : Spells (c :: cs) i) (digit : c.isDigit)
    (noZero : c ≠ '0') : ∀ d ∈ c :: cs, d.isDigit := by
  cases h with
  | minus _ => cases digit
  | plain numeral =>
    generalize whole : c :: cs = text at numeral
    obtain ⟨r, nonempty, isDigits⟩ := numeral
    cases r with
    | binary => exact absurd (List.cons.inj whole).1 noZero
    | octal => exact absurd (List.cons.inj whole).1 noZero
    | hexadecimal => exact absurd (List.cons.inj whole).1 noZero
    | decimal => exact isDigit_of_mem_digits isDigits

end Literal

namespace Operand

open Literal (Spells Bursts)

variable {text : String} {line : Nat} {i : Int}

/-- The integers that are words. -/
theorem exists_word_or_outside (i : Int) :
    (∃ w : Word, w.toInt = i) ∨ (i < -2147483648 ∨ 2147483647 < i) := by
  by_cases outside : i < -2147483648 ∨ 2147483647 < i
  · exact .inr outside
  · exact .inl ⟨Int32.ofInt i, Int32.toInt_ofInt_of_le (by omega) (by omega)⟩

theorem parse_of_bursts (bursts : Bursts text.toList) :
    parse text line = .error (.literalOutOfRange text line) := by
  simp only [parse, if_pos bursts.isMeant, Literal.read_tooLarge_iff.mpr bursts]

theorem parse_of_outside (spells : Spells text.toList i)
    (outside : i < -2147483648 ∨ 2147483647 < i) :
    parse text line = .error (.literalOutOfRange text line) := by
  by_cases fits : i.natAbs ≤ Literal.room
  · have noWord : Word.ofInt? i = none := by
      rw [Option.eq_none_iff_forall_ne_some]
      intro w isWord
      have value := Word.ofInt?_eq_some_iff.mp isWord
      have lower := w.le_toInt
      have upper := w.toInt_lt
      omega
    simp only [parse, if_pos spells.isMeant, Literal.read_eq_ok_iff.mpr ⟨fits, spells⟩, noWord]
  · exact parse_of_bursts ⟨text.toList, [], i, by simp, spells, Nat.lt_of_not_le fits⟩

theorem parse_outOfRange_iff : parse text line = .error (.literalOutOfRange text line) ↔
    (∃ i, Spells text.toList i ∧ (i < -2147483648 ∨ 2147483647 < i)) ∨ Bursts text.toList := by
  constructor
  · intro h
    unfold parse at h
    split at h
    · split at h
      · cases h
      · next burst => exact .inr (Literal.read_tooLarge_iff.mp burst)
      · next i read =>
        refine .inl ⟨i, (Literal.read_eq_ok_iff.mp read).2, ?_⟩
        obtain ⟨w, value⟩ | outside := exists_word_or_outside i
        · simp only [Word.ofInt?_eq_some_iff.mpr value] at h
          cases h
        · exact outside
    · split at h <;> cases h
  · rintro (⟨i, spells, outside⟩ | bursts)
    · exact parse_of_outside spells outside
    · exact parse_of_bursts bursts

theorem parse_invalid_iff : parse text line = .error (.invalidOperand text line) ↔
    (∀ i, ¬ Spells text.toList i) ∧ ¬ Bursts text.toList ∧ ¬ IsName text := by
  constructor
  · intro h
    refine ⟨fun i spells => ?_, fun bursts => ?_, fun isName => ?_⟩
    · obtain ⟨w, rfl⟩ | outside := exists_word_or_outside i
      · simp [(@parse_eq_literal_iff _ line _).mpr spells] at h
      · simp [parse_of_outside spells outside] at h
    · simp [parse_of_bursts bursts] at h
    · simp [(@parse_eq_label_iff _ line _).mpr ⟨rfl, isName⟩] at h
  · rintro ⟨noValue, noBurst, noName⟩
    have view := reads text line
    cases read : parse text line with
    | ok operand =>
      cases operand with
      | literal w => exact absurd (parse_eq_literal_iff.mp read) (noValue w.toInt)
      | label name => exact absurd (parse_eq_label_iff.mp read).2 noName
    | error e =>
      rw [read] at view
      cases view with
      | invalid => rfl
      | outOfRange =>
        obtain ⟨i, spells, -⟩ | bursts := parse_outOfRange_iff.mp read
        · exact absurd spells (noValue i)
        · exact absurd bursts noBurst

/-- **Rejected operands.** A literal is out of range when its value is no word, and also what
begins with a literal that bursts the room for reading, whatever follows. All else that is neither
a literal nor a name is no operand, and there are no other errors. -/
theorem parse_rejects (text : String) (line : Nat) :
    (parse text line = .error (.literalOutOfRange text line) ↔
        (∃ i, Spells text.toList i ∧ (i < -2147483648 ∨ 2147483647 < i)) ∨
          Bursts text.toList) ∧
      (parse text line = .error (.invalidOperand text line) ↔
        (∀ i, ¬ Spells text.toList i) ∧ ¬ Bursts text.toList ∧ ¬ IsName text) ∧
      ∀ e, parse text line = .error e →
        e = .literalOutOfRange text line ∨ e = .invalidOperand text line := by
  refine ⟨parse_outOfRange_iff, parse_invalid_iff, fun e failed => ?_⟩
  have view := reads text line
  rw [failed] at view
  cases view with
  | outOfRange => exact .inl rfl
  | invalid => exact .inr rfl

/-- What stands behind the digits is not looked at when they burst the room: here it is a letter,
so that the text spells no value and its value is not out of range. -/
theorem parse_rejects_by_room : ¬ ∀ (text : String) (line : Nat) (e : AssemblyError),
    parse text line = .error e → (e = .literalOutOfRange text line ↔
      ∃ i, Spells text.toList i ∧ (i < -2147483648 ∨ 2147483647 < i)) := by
  intro byGrammar
  have failed : parse "9223372036854775808x" 1 =
      .error (.literalOutOfRange "9223372036854775808x" 1) := by decide +kernel
  obtain ⟨i, spells, -⟩ := (byGrammar _ 1 _ failed).mp rfl
  have isDigit : 'x'.isDigit := spells.isDigit_of_mem (by decide) (by decide) 'x' (by decide)
  cases isDigit

end Operand

end Stackwright
