import Mathlib.Data.Nat.Digits.Defs
import Stackwright.Proofs.RoundTrip

/-!
# The grammar of operands

What an operand can be is said here by a grammar: a numeral is a mark for its radix and digits, a
literal is a numeral with a minus sign or without, and a label name is a word of certain
characters that spells no mnemonic. The value of a numeral is that of its digits, the last of
which counts least (`Nat.ofDigits`).

Operands are read from left to right with the first characters deciding what is to come, and with
a limit on the value at each digit. All the same, what is read is what the grammar says
(`Operand.parse_grammar`): the marks begin with a zero and are no decimal numerals, no numeral
begins with a sign, and the limit is out of the reach of words.
-/

namespace Stackwright

namespace Literal

/-! ## Numerals -/

/-- The radix of a numeral. -/
inductive Radix where
  | binary
  | octal
  | decimal
  | hexadecimal

namespace Radix

/-- How many digits there are. -/
def base : Radix → Nat
  | binary => 2
  | octal => 8
  | decimal => 10
  | hexadecimal => 16

/-- What stands in front of the digits. -/
def mark : Radix → List Char
  | binary => ['0', 'b']
  | octal => ['0', 'o']
  | decimal => []
  | hexadecimal => ['0', 'x']

end Radix

/-- The character is the digit with this value; letters can be small or capital. -/
def IsDigit (c : Char) (d : Nat) : Prop :=
  "0123456789abcdef".toList[d]? = some c ∨ "0123456789ABCDEF".toList[d]? = some c

instance (c : Char) (d : Nat) : Decidable (IsDigit c d) := inferInstanceAs (Decidable (_ ∨ _))

/-- The characters are digits in a given base, with these values. -/
def Digits (base : Nat) (cs : List Char) (ds : List Nat) : Prop :=
  List.Forall₂ (fun c d => d < base ∧ IsDigit c d) cs ds

/-- The characters are a numeral with this value: the mark of a radix, and then one or more of
its digits. -/
inductive IsNumeral : List Char → Nat → Prop where
  | intro {digits : List Char} {ds : List Nat} (radix : Radix) (nonempty : digits ≠ [])
    (isDigits : Digits radix.base digits ds) :
    IsNumeral (radix.mark ++ digits) (Nat.ofDigits radix.base ds.reverse)

/-- The characters are a literal with this value: a numeral with or without a minus sign. -/
inductive Spells : List Char → Int → Prop where
  | plain {cs : List Char} {n : Nat} (numeral : IsNumeral cs n) : Spells cs n
  | minus {cs : List Char} {n : Nat} (numeral : IsNumeral cs n) : Spells ('-' :: cs) (-n)

variable {base limit value n d : Nat} {c : Char} {cs : List Char}

theorem toNat_lt_of_digitValue? (h : Text.digitValue? 16 c = some d) : c.toNat < 128 := by
  have below (last : Char) (ascii : last.toNat < 128) (le : c ≤ last) : c.toNat < 128 :=
    Nat.lt_of_le_of_lt (UInt32.le_iff_toNat_le.mp le) ascii
  unfold Text.digitValue? at h
  dsimp only at h
  split at h
  · next digit => exact below '9' (by decide) digit.2
  · split at h
    · next small => exact below 'z' (by decide) small.2
    · split at h
      · next capital => exact below 'Z' (by decide) capital.2
      · cases h

/-- What a digit is worth, whatever its case, can be found out by looking at all characters. -/
theorem digitValue?_sixteen : Text.digitValue? 16 c = some d ↔ IsDigit c d := by
  constructor
  · intro read
    have table : ∀ n < 128, ∀ d ∈ Text.digitValue? 16 (Char.ofNat n), IsDigit (Char.ofNat n) d := by
      decide +kernel
    exact Text.forall_ascii (p := fun c => ∀ d ∈ Text.digitValue? 16 c, IsDigit c d) table
      (toNat_lt_of_digitValue? read) d read
  · intro digit
    have table : ∀ d < 16, "0123456789abcdef".toList[d]?.bind (Text.digitValue? 16) = some d ∧
        "0123456789ABCDEF".toList[d]?.bind (Text.digitValue? 16) = some d := by
      decide +kernel
    rcases digit with found | found
    · have worth := (table d (List.getElem?_eq_some_iff.mp found).1).1
      rwa [found] at worth
    · have worth := (table d (List.getElem?_eq_some_iff.mp found).1).2
      rwa [found] at worth

/-- The digits of a base are those of the greatest base that have smaller values. -/
theorem digitValue?_eq_some_iff (bounded : base ≤ 16) :
    Text.digitValue? base c = some d ↔ d < base ∧ IsDigit c d := by
  rw [← digitValue?_sixteen]
  simp only [Text.digitValue?, Option.filter_eq_some_iff, decide_eq_true_eq]
  constructor
  · rintro ⟨value, small⟩
    exact ⟨small, value, Nat.lt_of_lt_of_le small bounded⟩
  · rintro ⟨small, value, -⟩
    exact ⟨value, small⟩

/-- A digit counts together with those before it. -/
theorem value_cons {ds : List Nat} (same : cs.length = ds.length) :
    value * base ^ (c :: cs).length + Nat.ofDigits base (d :: ds).reverse =
      (value * base + d) * base ^ cs.length + Nat.ofDigits base ds.reverse := by
  rw [Nat.ofDigits_reverse_cons, ← same, List.length_cons, Nat.pow_succ]
  ring

/-- Digits are read as their value, together with those that were read before. -/
theorem readDigits_eq_ok_iff (positive : 0 < base) (bounded : base ≤ 16) (within : value ≤ limit) :
    Text.readDigits base limit value cs = .ok n ↔
      n ≤ limit ∧ ∃ ds, Digits base cs ds ∧
        n = value * base ^ cs.length + Nat.ofDigits base ds.reverse := by
  induction cs generalizing value with
  | nil =>
    rw [Text.readDigits, Except.ok.injEq]
    constructor
    · rintro rfl
      exact ⟨within, [], .nil, by simp⟩
    · rintro ⟨-, ds, digits, rfl⟩
      obtain rfl := List.forall₂_nil_left_iff.mp digits
      simp
  | cons c cs ih =>
    constructor
    · intro read
      rw [Text.readDigits] at read
      cases digit : Text.digitValue? base c with
      | none => simp [digit] at read
      | some d =>
        simp only [digit] at read
        split at read
        · cases read
        · next within' =>
          obtain ⟨fits, ds, later, rfl⟩ := (ih (Nat.le_of_not_lt within')).mp read
          exact ⟨fits, d :: ds, .cons ((digitValue?_eq_some_iff bounded).mp digit) later,
            (value_cons later.length_eq).symm⟩
    · rintro ⟨fits, ds, digits, rfl⟩
      obtain ⟨d, ds, digit, later, rfl⟩ := List.forall₂_cons_left_iff.mp digits
      have within' : value * base + d ≤ limit := by
        have one : 0 < base ^ cs.length := Nat.pow_pos positive
        calc value * base + d
            ≤ (value * base + d) * base ^ cs.length := Nat.le_mul_of_pos_right _ one
          _ ≤ value * base ^ (c :: cs).length + Nat.ofDigits base (d :: ds).reverse := by
            rw [value_cons later.length_eq]
            exact Nat.le_add_right _ _
          _ ≤ limit := fits
      rw [Text.readDigits, (digitValue?_eq_some_iff bounded).mpr digit]
      simp only [if_neg (Nat.not_lt.mpr within')]
      exact (ih within').mpr ⟨fits, ds, later, value_cons later.length_eq⟩

/-! ## Literals -/

theorem isDigit_of_decimal (h : d < 10) (digit : IsDigit c d) : c.isDigit := by
  have small : ("0123456789abcdef".toList.take 10).all Char.isDigit := by decide +kernel
  have capital : ("0123456789ABCDEF".toList.take 10).all Char.isDigit := by decide +kernel
  rcases digit with found | found <;> rw [← List.getElem?_take_of_lt h] at found
  · exact List.all_eq_true.mp small c (List.mem_of_getElem? found)
  · exact List.all_eq_true.mp capital c (List.mem_of_getElem? found)

theorem isDigit_of_mem_digits {ds : List Nat} (digits : Digits 10 cs ds) :
    ∀ c ∈ cs, c.isDigit := by
  induction digits with
  | nil => exact fun _ none => by cases none
  | cons first _ ih => exact List.forall_mem_cons.mpr ⟨isDigit_of_decimal first.1 first.2, ih⟩

/-- A numeral begins with a decimal digit, be it the zero of its mark. -/
theorem IsNumeral.exists_first (h : IsNumeral cs n) : ∃ c rest, cs = c :: rest ∧ c.isDigit := by
  obtain ⟨radix, nonempty, isDigits⟩ := h
  cases radix with
  | binary => exact ⟨'0', _, rfl, rfl⟩
  | octal => exact ⟨'0', _, rfl, rfl⟩
  | hexadecimal => exact ⟨'0', _, rfl, rfl⟩
  | decimal =>
    obtain ⟨c, rest, rfl⟩ := List.exists_cons_of_ne_nil nonempty
    exact ⟨c, rest, rfl, isDigit_of_mem_digits isDigits c List.mem_cons_self⟩

/-- Every text is split into the mark of a radix and what stands behind it. -/
theorem exists_radix (cs : List Char) :
    ∃ (r : Radix) (rest : List Char), radix cs = (r.base, rest) ∧ cs = r.mark ++ rest := by
  unfold radix
  split
  · exact ⟨.binary, _, rfl, rfl⟩
  · exact ⟨.octal, _, rfl, rfl⟩
  · exact ⟨.hexadecimal, _, rfl, rfl⟩
  · exact ⟨.decimal, _, rfl, rfl⟩

/-- Behind a mark there is no other, and no decimal numeral looks like one with a mark. -/
theorem radix_mark {r : Radix} {ds : List Nat} (digits : Digits r.base cs ds) :
    radix (r.mark ++ cs) = (r.base, cs) := by
  cases r with
  | binary => rfl
  | octal => rfl
  | hexadecimal => rfl
  | decimal => exact radix_of_digits (isDigit_of_mem_digits digits)

theorem Radix.base_pos (r : Radix) : 0 < r.base := by cases r <;> decide

theorem Radix.base_le (r : Radix) : r.base ≤ 16 := by cases r <;> decide

theorem magnitude_eq_ok_iff : magnitude cs = .ok n ↔ n ≤ room ∧ IsNumeral cs n := by
  have read (r : Radix) (digits : List Char) :
      Text.readDigits r.base room 0 digits = .ok n ↔ n ≤ room ∧ ∃ ds, Digits r.base digits ds ∧
        n = Nat.ofDigits r.base ds.reverse := by
    rw [readDigits_eq_ok_iff r.base_pos r.base_le (Nat.zero_le _)]
    simp only [Nat.zero_mul, Nat.zero_add]
  constructor
  · intro h
    unfold magnitude at h
    obtain ⟨r, digits, split, rfl⟩ := exists_radix cs
    rw [split] at h
    cases digits with
    | nil => cases h
    | cons c rest =>
      obtain ⟨fits, ds, isDigits, rfl⟩ := (read r (c :: rest)).mp h
      exact ⟨fits, r, List.cons_ne_nil c rest, isDigits⟩
  · rintro ⟨fits, r, nonempty, isDigits⟩
    unfold magnitude
    rw [radix_mark isDigits]
    obtain ⟨c, rest, rfl⟩ := List.exists_cons_of_ne_nil nonempty
    exact (read r (c :: rest)).mpr ⟨fits, _, isDigits, rfl⟩

/-- A numeral does not begin with a sign. -/
theorem IsNumeral.not_minus (h : IsNumeral ('-' :: cs) n) : False := by
  obtain ⟨c, rest, shape, digit⟩ := h.exists_first
  cases shape
  cases digit

theorem read_eq_ok_iff {i : Int} : read cs = .ok i ↔ i.natAbs ≤ room ∧ Spells cs i := by
  have map_iff (cs : List Char) (f : Nat → Int) :
      (magnitude cs).map f = .ok i ↔ ∃ n, (n ≤ room ∧ IsNumeral cs n) ∧ f n = i := by
    simp only [← magnitude_eq_ok_iff]
    cases magnitude cs <;> simp [Except.map]
  unfold read
  split
  · next cs =>
    rw [map_iff]
    constructor
    · rintro ⟨n, ⟨fits, numeral⟩, rfl⟩
      exact ⟨by simpa using fits, .minus numeral⟩
    · rintro ⟨fits, spells⟩
      cases spells with
      | plain numeral => exact numeral.not_minus.elim
      | @minus _ n numeral => exact ⟨n, ⟨by simpa using fits, numeral⟩, rfl⟩
  · next noMinus =>
    rw [map_iff]
    constructor
    · rintro ⟨n, ⟨fits, numeral⟩, rfl⟩
      exact ⟨fits, .plain numeral⟩
    · rintro ⟨fits, spells⟩
      cases spells with
      | @plain _ n numeral => exact ⟨n, ⟨fits, numeral⟩, rfl⟩
      | minus numeral => exact absurd rfl (noMinus _)

/-- What spells a literal is meant to be one. -/
theorem Spells.isMeant {i : Int} (h : Spells cs i) : isMeant cs := by
  have bare : ∀ {cs : List Char} {n}, IsNumeral cs n → Literal.isMeant cs := by
    intro cs n numeral
    obtain ⟨c, rest, rfl, digit⟩ := numeral.exists_first
    have noSign : (c == '-') = false := by
      refine beq_false_of_ne ?_
      rintro rfl
      cases digit
    unfold Literal.isMeant
    rw [List.dropWhile_cons_of_neg (by simp [noSign])]
    exact digit
  cases h with
  | plain numeral => exact bare numeral
  | minus numeral =>
    have unsigned := bare numeral
    exact unsigned

/-- The value of a literal in 64 bits, where a sign is a factor and products wrap around. -/
def readWrapping : List Char → Except Text.Misread Int64
  | '-' :: cs => (magnitude cs).map fun n => -1 * Int64.ofNat n
  | cs => (magnitude cs).map fun n => 1 * Int64.ofNat n

/-- There is room in 64 bits for a numeral and for its negative. -/
theorem toInt_sign_mul {sign : Int64} (unit : sign = 1 ∨ sign = -1) (fits : n ≤ room) :
    (sign * Int64.ofNat n).toInt = sign.toInt * n := by
  unfold room at fits
  have value : (Int64.ofNat n).toInt = n := Int64.toInt_ofNat_of_lt (by omega)
  have small : sign.toInt * n = n ∨ sign.toInt * n = -n := by
    rcases unit with rfl | rfl
    · exact .inl (Int.one_mul _)
    · exact .inr (Int.neg_one_mul _)
  rw [Int64.toInt_mul, value]
  exact Int.bmod_eq_of_le (by omega) (by omega)

/-- No product with a sign wraps around. -/
theorem toInt_readWrapping (cs : List Char) : (readWrapping cs).map Int64.toInt = read cs := by
  have product {sign : Int64} (unit : sign = 1 ∨ sign = -1) (cs : List Char) :
      ((magnitude cs).map fun n => sign * Int64.ofNat n).map Int64.toInt =
        (magnitude cs).map fun (n : Nat) => sign.toInt * (n : Int) := by
    cases numeral : magnitude cs with
    | error e => rfl
    | ok n => exact congrArg Except.ok (toInt_sign_mul unit (magnitude_eq_ok_iff.mp numeral).1)
  unfold readWrapping
  split
  · next cs =>
    rw [product (.inr rfl), read]
    exact congrArg (Except.map · _) (funext fun n => Int.neg_one_mul _)
  · next noMinus =>
    rw [product (.inl rfl), read]
    · exact congrArg (Except.map · _) (funext fun n => Int.one_mul _)
    · exact noMinus

end Literal

/-! ## Label names -/

/-- A letter or an underscore, and then letters, digits, underscores and points, which do not spell
a mnemonic. Letters and digits are those of ASCII. -/
def IsName (text : String) : Prop :=
  (∃ c cs, text.toList = c :: cs ∧ (c.isAlpha ∨ c = '_') ∧
    ∀ d ∈ cs, d.isAlphanum ∨ d = '_' ∨ d = '.') ∧ ∀ op : Opcode, ¬ op.Spells text

/-- ASCII characters have one capital form each. -/
theorem Text.capitals_of_ascii {cs : List Char} (ascii : ∀ c ∈ cs, c.toNat < 128) :
    capitals cs = cs.map Char.toUpper := by
  have table : ∀ c : Char, c.toNat < 128 → capital c = [c.toUpper] := by
    intro c small
    exact forall_ascii (p := fun c => capital c = [c.toUpper]) (by decide +kernel) small
  unfold capitals
  induction cs with
  | nil => rfl
  | cons c cs ih =>
    obtain ⟨here, later⟩ := List.forall_mem_cons.mp ascii
    rw [List.flatMap_cons, table c here, ih later]
    rfl

/-- What is found by name spells this name, if it is written in ASCII. -/
theorem Opcode.spells_of_ofName? {op : Opcode} {name : String} (found : ofName? name = some op)
    (ascii : ∀ c ∈ name.toList, c.toNat < 128) : op.Spells name := by
  have same := List.find?_some found
  rw [beq_iff_eq, Text.capitals_of_ascii ascii] at same
  rw [Spells, same, String.toList_ofList]

theorem isLabelName_iff {text : String} : isLabelName text ↔ IsName text := by
  constructor
  · intro isName
    obtain ⟨c, cs, shape, first, others⟩ := Token.exists_of_isLabelName isName
    refine ⟨⟨c, cs, shape, first, others⟩, fun op spells => ?_⟩
    unfold isLabelName at isName
    rw [shape] at isName
    dsimp only at isName
    rw [Opcode.ofName?_of_spells spells] at isName
    simp at isName
  · rintro ⟨⟨c, cs, shape, first, others⟩, noMnemonic⟩
    have ascii : ∀ d ∈ text.toList, d.toNat < 128 := by
      rw [shape]
      refine List.forall_mem_cons.mpr ⟨?_, fun d mem => ?_⟩
      · rcases first with letter | rfl
        · exact Text.toNat_lt_of_isAlphanum (by simp [Char.isAlphanum, letter])
        · decide
      · rcases others d mem with plain | rfl | rfl
        · exact Text.toNat_lt_of_isAlphanum plain
        · decide
        · decide
    have unknown : Opcode.ofName? text = none := by
      rw [Option.eq_none_iff_forall_ne_some]
      exact fun op found => noMnemonic op (Opcode.spells_of_ofName? found ascii)
    unfold isLabelName
    rw [shape]
    simp only [unknown, Option.isNone_none, Bool.and_true, Bool.and_eq_true, Bool.or_eq_true,
      beq_iff_eq, List.all_eq_true, or_assoc]
    exact ⟨first, others⟩

namespace Operand

variable {text : String} {line : Nat}

theorem parse_eq_literal_iff {w : Word} :
    parse text line = .ok (.literal w) ↔ Literal.Spells text.toList w.toInt := by
  constructor
  · intro h
    have view := reads text line
    rw [h] at view
    cases view with
    | literal _ value => exact (Literal.read_eq_ok_iff.mp value).2
  · intro spells
    have lower := w.le_toInt
    have upper := w.toInt_lt
    have value : Literal.read text.toList = .ok w.toInt :=
      Literal.read_eq_ok_iff.mpr ⟨by unfold Literal.room; omega, spells⟩
    unfold parse
    rw [if_pos spells.isMeant, value]
    dsimp only
    rw [Word.ofInt?_toInt]

theorem parse_eq_label_iff {name : String} :
    parse text line = .ok (.label name) ↔ name = text ∧ IsName text := by
  rw [← isLabelName_iff]
  constructor
  · intro h
    have view := reads text line
    rw [h] at view
    cases view with
    | label isName => exact ⟨rfl, isName⟩
  · rintro ⟨rfl, isName⟩
    unfold parse
    rw [Literal.isMeant_of_isLabelName isName, if_neg Bool.false_ne_true, if_pos isName]

/-- **Operands are read by their grammar.** What spells a word is read as the literal with its
value, and a label name as this label; everything else is an error. It makes no difference that
signs are applied in 64 bits. -/
theorem parse_grammar (text : String) (line : Nat) :
    (∀ w, parse text line = .ok (.literal w) ↔ Literal.Spells text.toList w.toInt) ∧
      (∀ name, parse text line = .ok (.label name) ↔ name = text ∧ IsName text) ∧
      ((∃ e, parse text line = .error e) ↔
        (∀ i, Literal.Spells text.toList i → i < -2147483648 ∨ 2147483647 < i) ∧ ¬ IsName text) ∧
      (Literal.readWrapping text.toList).map Int64.toInt = Literal.read text.toList := by
  refine ⟨fun w => parse_eq_literal_iff, fun name => parse_eq_label_iff, ⟨?_, ?_⟩,
    Literal.toInt_readWrapping text.toList⟩
  · rintro ⟨e, failed⟩
    refine ⟨fun i spells => ?_, fun isName => ?_⟩
    · by_contra inside
      have value : (Int32.ofInt i).toInt = i := Int32.toInt_ofInt_of_le (by omega) (by omega)
      rw [← value, ← @parse_eq_literal_iff _ line, failed] at spells
      cases spells
    · have read := (@parse_eq_label_iff _ line _).mpr ⟨rfl, isName⟩
      rw [failed] at read
      cases read
  · rintro ⟨outside, noName⟩
    cases read : parse text line with
    | error e => exact ⟨e, rfl⟩
    | ok operand =>
      cases operand with
      | literal w =>
        have lower := w.le_toInt
        have upper := w.toInt_lt
        have beyond := outside w.toInt (parse_eq_literal_iff.mp read)
        omega
      | label name => exact absurd (parse_eq_label_iff.mp read).2 noName

theorem parse_grammar_negative :
    Literal.Spells "-0x1F".toList (-31) ∧ parse "-0x1F" 1 = .ok (.literal (-31)) := by
  have digits : Literal.Digits 16 "1F".toList [1, 15] := .cons (by decide) (.cons (by decide) .nil)
  have spells : Literal.Spells "-0x1F".toList (-31) :=
    .minus (.intro .hexadecimal (by decide) digits)
  exact ⟨spells, ((parse_grammar "-0x1F" 1).1 (-31)).mpr spells⟩

end Operand

end Stackwright
