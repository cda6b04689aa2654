import Stackwright.Image
import Stackwright.Proofs.Printing

/-!
# Images

What is written as an image is read as the same program, be it from a text or from the bytes of
this text in a file (`Image.read_ofText`). So is every text that differs from it only in what a
reader of images tolerates (`Image.Tolerates`): blank lines, blanks beside the words, either ending
of a line or none after the last one, plus signs and zeros (`image_round_trip`).

A numeral has neither blanks nor line breaks in it. So it stands on one line, it is what is left of
that line when the blanks are trimmed off, and this is not empty. The carriage return that goes with
a line feed is a blank and would be trimmed off anyway.
-/

namespace Stackwright

/-! ## Trimming -/

namespace Text

variable {before after cs : List Char}

/-- A text without blanks has none to trim. -/
theorem trim_eq_self (h : ∀ c ∈ cs, isBlank c = false) : trim cs = cs := by
  have nothing : ∀ {ds : List Char}, (∀ c ∈ ds, isBlank c = false) → ds.dropWhile isBlank = ds := by
    intro ds hd
    cases ds with
    | nil => rfl
    | cons d ds =>
      have first := hd d List.mem_cons_self
      exact List.dropWhile_cons_of_neg (by simp [first])
  have backwards : ∀ c ∈ cs.reverse, isBlank c = false := fun c mem => h c (List.mem_reverse.mp mem)
  rw [trim, trimStart, trimEnd, nothing h, nothing backwards, List.reverse_reverse]

/-- Blanks before a text do not count. -/
theorem trim_blank_append (h : ∀ c ∈ before, isBlank c) (cs : List Char) :
    trim (before ++ cs) = trim cs := by
  rw [trim, trim, trimStart, trimStart, List.dropWhile_append_of_pos h]

/-- Blanks after a text do not count. -/
theorem trim_append_blank (h : ∀ c ∈ after, isBlank c) (cs : List Char) :
    trim (cs ++ after) = trim cs := by
  have backwards : ∀ c ∈ after.reverse, isBlank c := fun c mem => h c (List.mem_reverse.mp mem)
  rw [trim, trim, trimStart, trimStart, List.dropWhile_append]
  split
  · next none =>
    rw [List.dropWhile_eq_nil_iff.mpr h, List.isEmpty_iff.mp none]
  · rw [trimEnd, trimEnd, List.reverse_append, List.dropWhile_append_of_pos backwards]

/-- Whether a blank at the end is dropped before does not count either. -/
theorem trim_dropLastIf {c : Char} (h : isBlank c) (cs : List Char) :
    trim (dropLastIf c cs) = trim cs := by
  unfold dropLastIf
  split
  · next last =>
    obtain ⟨others, rfl⟩ := List.getLast?_eq_some_iff.mp (by simpa using last)
    rw [List.dropLast_concat, trim_append_blank (by simpa using h)]
  · rfl

/-- Blanks that stay on one line. -/
def IsPadding (text : String) : Prop := ∀ c ∈ text.toList, isBlank c ∧ c ≠ '\n'

end Text

/-! ## Numerals -/

/-- The numerals of a word. Zeros may come before its digits, and if it is not negative, a plus
sign may come before these. -/
inductive Word.Numeral (w : Word) : String → Prop where
  /-- with a minus sign -/
  | minus (zeros : Nat) (negative : w.toInt < 0) :
    Numeral w (String.ofList ('-' :: Text.digits zeros w.toInt.natAbs))
  /-- without a sign -/
  | plain (zeros : Nat) (nonnegative : 0 ≤ w.toInt) :
    Numeral w (String.ofList (Text.digits zeros w.toInt.natAbs))
  /-- with a plus sign -/
  | plus (zeros : Nat) (nonnegative : 0 ≤ w.toInt) :
    Numeral w (String.ofList ('+' :: Text.digits zeros w.toInt.natAbs))

namespace Word

variable {w : Word} {numeral : String}

/-- A word is written as one of its numerals. -/
theorem numeral_text (w : Word) : w.Numeral w.text := by
  unfold text Text.decimal
  split
  · next negative => exact .minus 0 negative
  · next nonnegative => exact .plain 0 (Int.not_lt.mp nonnegative)

/-- A numeral is read as its word. -/
theorem Numeral.read?_eq (h : w.Numeral numeral) : read? numeral.toList = some w := by
  have lower := w.le_toInt
  have upper := w.toInt_lt
  have fits : w.toInt.natAbs ≤ greatest + 1 := by
    simp only [greatest]
    omega
  have integer : Text.integer? (greatest + 1) numeral.toList = some w.toInt := by
    cases h with
    | minus zeros negative =>
      rw [String.toList_ofList, Text.integer?_minus zeros fits, Int.ofNat_natAbs_of_nonpos]
      · rw [Int.neg_neg]
      · omega
    | plain zeros nonnegative =>
      rw [String.toList_ofList, Text.integer?_digits zeros fits, Int.natAbs_of_nonneg nonnegative]
    | plus zeros nonnegative =>
      rw [String.toList_ofList, Text.integer?_plus zeros fits, Int.natAbs_of_nonneg nonnegative]
  rw [read?, integer]
  exact ofInt?_toInt w

/-- A numeral has no blanks, and it is not empty. -/
theorem Numeral.isWhole (h : w.Numeral numeral) : Token.IsWhole numeral := by
  have digits zeros := Token.isWhole_digits zeros w.toInt.natAbs
  cases h with
  | minus zeros _ =>
    rw [String.ofList_cons]
    exact Token.isWhole_append (List.all_eq_true.mp (by decide)) (digits zeros)
  | plain zeros _ => exact digits zeros
  | plus zeros _ =>
    rw [String.ofList_cons]
    exact Token.isWhole_append (List.all_eq_true.mp (by decide)) (digits zeros)

end Word

theorem Token.IsWhole.isBlank_eq_false {text : String} (h : IsWhole text) :
    ∀ c ∈ text.toList, Text.isBlank c = false := by
  intro c mem
  simpa using (Bool.and_eq_true_iff.mp (h.2 c mem)).1

theorem Token.IsWhole.newline_not_mem {text : String} (h : IsWhole text) :
    '\n' ∉ text.toList := by
  intro mem
  cases h.isBlank_eq_false _ mem

/-! ## Lines -/

namespace Image

/-- The lines of an image, each with the words on it. -/
inductive Row : List Word → String → Prop where
  /-- a blank line has no word -/
  | blank {padding : String} (isPadding : Text.IsPadding padding) : Row [] padding
  /-- any other line has one word, with blanks around it -/
  | word {w : Word} {before numeral after : String} (isBefore : Text.IsPadding before)
    (isNumeral : w.Numeral numeral) (isAfter : Text.IsPadding after) :
    Row [w] (before ++ numeral ++ after)

/-- The texts that are images of a program. -/
inductive Tolerates : List Word → String → Prop where
  /-- the last line may be left open, or what follows the end of a line is empty -/
  | last {here : List Word} {row : String} (isRow : Row here row) : Tolerates here row
  /-- a line ends as lines end on either system -/
  | next {here rest : List Word} {row ending text : String} (isRow : Row here row)
    (isEnding : ending = "\n" ∨ ending = "\r\n") (isRest : Tolerates rest text) :
    Tolerates (here ++ rest) (row ++ ending ++ text)

variable {program here : List Word} {row text : String}

theorem Row.newline_not_mem (h : Row here row) : '\n' ∉ row.toList := by
  have none : ∀ {padding : String}, Text.IsPadding padding → '\n' ∉ padding.toList :=
    fun isPadding mem => (isPadding _ mem).2 rfl
  cases h with
  | blank isPadding => exact none isPadding
  | word isBefore isNumeral isAfter =>
    simp [none isBefore, none isAfter, isNumeral.isWhole.newline_not_mem]

/-- A line gives its word, also if other blanks end it. -/
theorem Row.readLines_cons (h : Row here row) {line : List Char}
    (same : Text.trim line = Text.trim row.toList) (n : Nat) (rest : List String) :
    readLines n (String.ofList line :: rest) = (readLines (n + 1) rest).map (here ++ ·) := by
  rw [readLines, String.toList_ofList, same]
  cases h with
  | blank isPadding =>
    have none := Text.trim_blank_append (fun c mem => (isPadding c mem).1) []
    rw [List.append_nil] at none
    rw [none]
    cases readLines (n + 1) rest <;> rfl
  | @word w before numeral after isBefore isNumeral isAfter =>
    have whole := isNumeral.isWhole
    rw [String.toList_append, String.toList_append,
      Text.trim_append_blank fun c mem => (isAfter c mem).1,
      Text.trim_blank_append fun c mem => (isBefore c mem).1,
      Text.trim_eq_self whole.isBlank_eq_false]
    split
    · next empty => exact absurd empty whole.1
    · rw [isNumeral.read?_eq]
      rfl

/-- All lines together give the program. -/
theorem Tolerates.readLines_lines (h : Tolerates program text) (n : Nat) :
    readLines n (Text.lines text) = .ok program := by
  induction h generalizing n with
  | @last here row isRow =>
    have single := isRow.readLines_cons rfl n []
    rw [String.ofList_toList] at single
    by_cases empty : row.toList = []
    · obtain rfl := String.toList_eq_nil_iff.mp empty
      have nothing : readLines n [""] = .ok [] := rfl
      rw [nothing] at single
      have none : here = [] := by simpa [readLines, Except.map] using single
      rw [none]
      rfl
    · rw [Text.lines_of_not_mem isRow.newline_not_mem empty, single]
      simp [readLines, Except.map]
  | @next here rest row ending text isRow isEnding isRest ih =>
    rcases isEnding with rfl | rfl
    · rw [Text.lines_append_of_not_mem isRow.newline_not_mem,
        isRow.readLines_cons (Text.trim_dropLastIf (by decide) _), ih]
      rfl
    · have split : row ++ "\r\n" ++ text = row ++ "\r" ++ "\n" ++ text := by
        simp [String.append_assoc]
      have newline : '\n' ∉ (row ++ "\r").toList := by
        simp [isRow.newline_not_mem]
      have same : Text.trim (Text.dropLastIf '\r' (row ++ "\r").toList) = Text.trim row.toList := by
        rw [Text.trim_dropLastIf (by decide), String.toList_append,
          Text.trim_append_blank (List.all_eq_true.mp (by decide))]
      rw [split, Text.lines_append_of_not_mem newline, isRow.readLines_cons same, ih]
      rfl

end Image

/-- The text of a stream is what is read from it. -/
theorem Stream.feed_ofText (text : String) : (Stream.ofText text).feed = .ofText text := by
  have decoded : String.fromUTF8? text.toUTF8 = some text := dif_pos text.isValidUTF8
  unfold Stream.feed
  simp only [Stream.ofText, decoded]

namespace Image

variable {program : List Word} {text : String}

theorem Tolerates.read_ofText (h : Tolerates program text) : read (.ofText text) = .ok program := by
  rw [Feed.ofText, read, h.readLines_lines]

/-- What is written is one of the texts that are tolerated. -/
theorem tolerates_text (program : List Word) : Tolerates program (Image.text program) := by
  have padding : Text.IsPadding "" := by simp [Text.IsPadding]
  unfold Image.text
  induction program with
  | nil => exact .last (.blank padding)
  | cons w rest ih =>
    have isRow := Row.word padding w.numeral_text padding
    rw [String.empty_append, String.append_empty] at isRow
    rw [List.map_cons, String.join_cons]
    exact .next isRow (.inl rfl) ih

/-- A program that was written is read as itself. -/
theorem read_ofText (program : List Word) : read (.ofText (Image.text program)) = .ok program :=
  (tolerates_text program).read_ofText

/-- Writing word by word is writing the text. -/
theorem write_eq (output : String) (program : List Word) :
    write output program = output ++ Image.text program := by
  unfold write Image.text
  induction program generalizing output with
  | nil => simp
  | cons w rest ih =>
    rw [List.foldl_cons, ih, List.map_cons, String.join_cons, String.append_assoc]

end Image

/-- **Images can be read again.** A program is written word by word as it is written at once. What
was written is read as the program, and so is any text that differs from it only in what is
tolerated. So no two programs have the same text. -/
theorem image_round_trip (program : List Word) :
    (∀ output, Image.write output program = output ++ Image.text program) ∧
      Image.read (Stream.ofText (Image.text program)).feed = .ok program ∧
      Image.Tolerates program (Image.text program) ∧
      (∀ text, Image.Tolerates program text →
        Image.read (Stream.ofText text).feed = .ok program) ∧
      ∀ other, Image.text other = Image.text program → other = program := by
  have tolerated : ∀ text, Image.Tolerates program text →
      Image.read (Stream.ofText text).feed = .ok program := by
    intro text h
    rw [Stream.feed_ofText]
    exact h.read_ofText
  have written := Image.tolerates_text program
  refine ⟨fun output => Image.write_eq output program, tolerated _ written, written, tolerated,
    fun other same => ?_⟩
  have read := Image.read_ofText other
  rw [same, Image.read_ofText] at read
  exact (Except.ok.inj read).symm

/-- An image with all that is tolerated: blank lines, blanks beside the words, both endings of lines
and none after the last, zeros, and plus signs. -/
def disorderly : String :=
  "\r\n\t-002147483648 \r\n \u00a0\n+0\r\n\n2147483647\u2003\n\r+007"

theorem image_round_trip_disorderly :
    Image.Tolerates [-2147483648, 0, 2147483647, 7] disorderly ∧
      Image.read (Stream.ofText disorderly).feed = .ok [-2147483648, 0, 2147483647, 7] ∧
      Image.text [-2147483648, 0, 2147483647, 7] = "-2147483648\n0\n2147483647\n7\n" := by
  have least := Word.Numeral.minus (w := -2147483648) 2 (by decide)
  have zero := Word.Numeral.plus (w := 0) 0 (by decide)
  have greatest := Word.Numeral.plain (w := 2147483647) 0 (by decide)
  have seven := Word.Numeral.plus (w := 7) 2 (by decide)
  have padding : ∀ blank ∈ ["", "\t", " ", " \u00a0", "\u2003", "\r"], Text.IsPadding blank := by
    have allBlank : ∀ blank ∈ ["", "\t", " ", " \u00a0", "\u2003", "\r"],
        blank.toList.all fun c => Text.isBlank c && c != '\n' := by
      decide +kernel
    intro blank mem c here
    simpa using List.all_eq_true.mp (allBlank blank mem) c here
  have tolerated : Image.Tolerates [-2147483648, 0, 2147483647, 7] disorderly :=
    .next (.blank (padding "" (by decide))) (.inr rfl) <|
    .next (.word (padding "\t" (by decide)) least (padding " " (by decide))) (.inr rfl) <|
    .next (.blank (padding " \u00a0" (by decide))) (.inl rfl) <|
    .next (.word (padding "" (by decide)) zero (padding "" (by decide))) (.inr rfl) <|
    .next (.blank (padding "" (by decide))) (.inl rfl) <|
    .next (.word (padding "" (by decide)) greatest (padding "\u2003" (by decide))) (.inl rfl) <|
    .last (.word (padding "\r" (by decide)) seven (padding "" (by decide)))
  obtain ⟨-, -, -, reads, -⟩ := image_round_trip [-2147483648, 0, 2147483647, 7]
  exact ⟨tolerated, reads _ tolerated, by decide +kernel⟩

end Stackwright
