import Stackwright.Proofs.Bytes
import Stackwright.Proofs.Grammar
import Stackwright.Proofs.Images
import Stackwright.Proofs.Sequencing

/-!
# The lines of an image

What a line of an image can be is said here by a grammar: there are nothing but blanks on it, or
with blanks around it there is a decimal numeral of a word, with one sign or none (`Image.Holds`).
The lines are judged in order (`Image.Verdict`). If all of them are good then their words are the
program. Otherwise the first that is not is blamed, by its number and by its text without the blanks
around it. Blank lines are counted like all others.

The reader comes to this verdict and to no other (`Image.read_iff`). If a stream breaks off, or has
bytes in it that are no text, then the lines before are still judged, and only if there is nothing
wrong with them is the failure reported (`Image.read_exact`).
-/

namespace Stackwright

/-! ## Blanks at the ends -/

namespace Text

/-- What is left of a text without the blanks at its ends. -/
structure IsCore (core cs : List Char) : Prop where
  /-- there are only blanks around it -/
  around : ∃ before after, cs = before ++ core ++ after ∧ (∀ c ∈ before, isBlank c) ∧
    ∀ c ∈ after, isBlank c
  /-- it does not begin with a blank -/
  starts : ∀ c ∈ core.head?, isBlank c = false
  /-- it does not end with a blank -/
  stops : ∀ c ∈ core.getLast?, isBlank c = false

variable {core cs : List Char}

theorem dropWhile_blank_eq_self (h : ∀ c ∈ cs.head?, isBlank c = false) :
    cs.dropWhile isBlank = cs := by
  cases cs with
  | nil => rfl
  | cons c cs =>
    have solid := h c rfl
    exact List.dropWhile_cons_of_neg (by simp [solid])

/-- Trimming leaves the core. -/
theorem IsCore.trim_eq (h : IsCore core cs) : trim cs = core := by
  obtain ⟨⟨before, after, rfl, blankBefore, blankAfter⟩, starts, stops⟩ := h
  have backwards : ∀ c ∈ core.reverse.head?, isBlank c = false := by
    rwa [List.head?_reverse]
  rw [trim_append_blank blankAfter, trim_blank_append blankBefore, trim, trimStart, trimEnd,
    dropWhile_blank_eq_self starts, dropWhile_blank_eq_self backwards, List.reverse_reverse]

/-- What is left after blanks were dropped does not begin with one. -/
theorem isBlank_of_head?_dropWhile :
    ∀ c ∈ (cs.dropWhile isBlank).head?, isBlank c = false := by
  intro c first
  have solid := List.head?_dropWhile_not isBlank cs
  rw [Option.mem_def.mp first] at solid
  exact solid

theorem isCore_trim (cs : List Char) : IsCore (trim cs) cs := by
  have front := List.takeWhile_append_dropWhile (p := isBlank) (l := cs)
  have back := List.takeWhile_append_dropWhile (p := isBlank) (l := (trimStart cs).reverse)
  have split : trimStart cs =
      trim cs ++ ((trimStart cs).reverse.takeWhile isBlank).reverse := by
    rw [trim, trimEnd, ← List.reverse_append, back, List.reverse_reverse]
  refine ⟨⟨cs.takeWhile isBlank, ((trimStart cs).reverse.takeWhile isBlank).reverse, ?_,
    fun c mem => List.mem_takeWhile_imp mem,
    fun c mem => List.mem_takeWhile_imp (List.mem_reverse.mp mem)⟩, fun c first => ?_, ?_⟩
  · rw [List.append_assoc, ← split]
    exact front.symm
  · -- what is left begins as it did before blanks were dropped from its end
    refine @isBlank_of_head?_dropWhile cs c ?_
    change c ∈ (trimStart cs).head?
    rw [split, List.head?_append, Option.mem_def.mp first]
    rfl
  · intro c last
    rw [trim, trimEnd, List.getLast?_reverse] at last
    exact isBlank_of_head?_dropWhile c last

theorem trim_eq_iff : trim cs = core ↔ IsCore core cs :=
  ⟨fun h => h ▸ isCore_trim cs, IsCore.trim_eq⟩

/-! ## Numerals with signs -/

/-- The characters are one or more decimal digits with this value. -/
inductive IsDecimal : List Char → Nat → Prop where
  | intro {cs : List Char} {ds : List Nat} (nonempty : cs ≠ [])
    (isDigits : Literal.Digits 10 cs ds) : IsDecimal cs (Nat.ofDigits 10 ds.reverse)

/-- The characters are decimal digits with at most one sign before them, and with this value. -/
inductive Signed : List Char → Int → Prop where
  | plain {cs : List Char} {n : Nat} (decimal : IsDecimal cs n) : Signed cs n
  | plus {cs : List Char} {n : Nat} (decimal : IsDecimal cs n) : Signed ('+' :: cs) n
  | minus {cs : List Char} {n : Nat} (decimal : IsDecimal cs n) : Signed ('-' :: cs) (-n)

variable {limit n : Nat} {i : Int}

theorem natural?_eq_some_iff : natural? limit cs = some n ↔ n ≤ limit ∧ IsDecimal cs n := by
  have read : readDigits 10 limit 0 cs = .ok n ↔ _ :=
    Literal.readDigits_eq_ok_iff (by decide) (by decide) (Nat.zero_le limit)
  simp only [Nat.zero_mul, Nat.zero_add] at read
  constructor
  · intro h
    unfold natural? at h
    split at h
    · cases h
    · next nonempty =>
      cases digits : readDigits 10 limit 0 cs with
      | error e => simp [digits, Except.toOption] at h
      | ok m =>
        obtain rfl : m = n := by simpa [digits, Except.toOption] using h
        obtain ⟨within, ds, isDigits, rfl⟩ := read.mp digits
        exact ⟨within, nonempty, isDigits⟩
  · rintro ⟨within, nonempty, isDigits⟩
    rw [natural?, read.mpr ⟨within, _, isDigits, rfl⟩]
    · rfl
    · exact nonempty

/-- No sign is a digit. -/
theorem IsDecimal.isDigit {c : Char} (h : IsDecimal (c :: cs) n) : c.isDigit := by
  obtain ⟨-, isDigits⟩ := h
  exact Literal.isDigit_of_mem_digits isDigits c List.mem_cons_self

theorem integer?_eq_some_iff :
    integer? limit cs = some i ↔ i.natAbs ≤ limit ∧ Signed cs i := by
  have map_iff (cs : List Char) (f : Nat → Int) :
      (natural? limit cs).map f = some i ↔ ∃ n, (n ≤ limit ∧ IsDecimal cs n) ∧ f n = i := by
    simp only [Option.map_eq_some_iff, natural?_eq_some_iff]
  unfold integer? unsigned?
  split
  · next cs =>
    rw [map_iff]
    constructor
    · rintro ⟨n, ⟨within, decimal⟩, rfl⟩
      exact ⟨by simpa using within, .minus decimal⟩
    · rintro ⟨within, signed⟩
      cases signed with
      | plain decimal => cases decimal.isDigit
      | @minus _ n decimal => exact ⟨n, ⟨by simpa using within, decimal⟩, rfl⟩
  · next noMinus =>
    split
    · next cs =>
      rw [map_iff]
      constructor
      · rintro ⟨n, ⟨within, decimal⟩, rfl⟩
        exact ⟨within, .plus decimal⟩
      · rintro ⟨within, signed⟩
        cases signed with
        | plain decimal => cases decimal.isDigit
        | @plus _ n decimal => exact ⟨n, ⟨within, decimal⟩, rfl⟩
    · next noPlus =>
      rw [map_iff]
      constructor
      · rintro ⟨n, ⟨within, decimal⟩, rfl⟩
        exact ⟨within, .plain decimal⟩
      · rintro ⟨within, signed⟩
        cases signed with
        | @plain _ n decimal => exact ⟨n, ⟨within, decimal⟩, rfl⟩
        | plus => exact absurd rfl (noPlus _)
        | minus => exact absurd rfl (noMinus _)

end Text

/-- Words are read from the numerals that have their values. -/
theorem Word.read?_eq_some_iff {cs : List Char} {w : Word} :
    read? cs = some w ↔ Text.Signed cs w.toInt := by
  have lower := w.le_toInt
  have upper := w.toInt_lt
  have fits : w.toInt.natAbs ≤ greatest + 1 := by
    simp only [greatest]
    omega
  rw [read?, Option.bind_eq_some_iff]
  simp only [ofInt?_eq_some_iff]
  constructor
  · rintro ⟨i, read, rfl⟩
    exact (Text.integer?_eq_some_iff.mp read).2
  · intro signed
    exact ⟨_, Text.integer?_eq_some_iff.mpr ⟨fits, signed⟩, rfl⟩

/-! ## Lines -/

namespace Image

/-- The line has these words on it: none if it is blank, and otherwise the one for which there is a
numeral on it. -/
inductive Holds (line : String) : List Word → Prop where
  | blank (isCore : Text.IsCore [] line.toList) : Holds line []
  | word {core : List Char} {w : Word} (isCore : Text.IsCore core line.toList)
    (value : Text.Signed core w.toInt) : Holds line [w]

/-- The line may be in an image. -/
def IsGood (line : String) : Prop := ∃ words, Holds line words

/-- What is to be said of some lines, and of the failure that follows them. -/
inductive Verdict (lines : List String) (failure : Option IoError) :
    Except ImageError (List Word) → Prop where
  /-- each line is good, and nothing fails -/
  | program {rows : List (List Word)} (holds : List.Forall₂ Holds lines rows)
    (whole : failure = none) : Verdict lines failure (.ok rows.flatten)
  /-- a line is not good, and all lines before it are -/
  | bad {before after : List String} {line : String} {core : List Char}
    (split : lines = before ++ line :: after) (good : ∀ l ∈ before, IsGood l)
    (notGood : ¬ IsGood line) (isCore : Text.IsCore core line.toList) :
    Verdict lines failure (.error (.parse (before.length + 1) (String.ofList core)))
  /-- each line is good, and then there is a failure -/
  | broken {cause : IoError} (good : ∀ l ∈ lines, IsGood l) (fails : failure = some cause) :
    Verdict lines failure (.error (.read cause))

variable {line : String} {words : List Word}

/-- Whether a line is good can be found out by trying to read it. -/
theorem isGood_iff : IsGood line ↔
    Text.trim line.toList = [] ∨ (Word.read? (Text.trim line.toList)).isSome := by
  constructor
  · rintro ⟨words, holds⟩
    cases holds with
    | blank isCore => exact .inl isCore.trim_eq
    | word isCore value =>
      rw [isCore.trim_eq, Word.read?_eq_some_iff.mpr value]
      exact .inr rfl
  · have isCore := Text.isCore_trim line.toList
    rintro (empty | read)
    · exact ⟨[], .blank (empty ▸ isCore)⟩
    · obtain ⟨w, value⟩ := Option.isSome_iff_exists.mp read
      exact ⟨[w], .word isCore (Word.read?_eq_some_iff.mp value)⟩

instance (line : String) : Decidable (IsGood line) := decidable_of_iff _ isGood_iff.symm

/-- A line gives the words that are on it. -/
theorem readLines_of_holds (h : Holds line words) (n : Nat) (rest : List String) :
    readLines n (line :: rest) = (readLines (n + 1) rest).map (words ++ ·) := by
  rw [readLines]
  cases h with
  | blank isCore =>
    rw [isCore.trim_eq]
    cases readLines (n + 1) rest <;> rfl
  | @word core w isCore value =>
    have read := Word.read?_eq_some_iff.mpr value
    rw [isCore.trim_eq]
    cases core with
    | nil => cases read
    | cons c cs =>
      dsimp only
      rw [read]
      rfl

/-- A line that is not good is an error. -/
theorem readLines_of_not_isGood (h : ¬ IsGood line) {core : List Char}
    (isCore : Text.IsCore core line.toList) (n : Nat) (rest : List String) :
    readLines n (line :: rest) = .error (.parse n (String.ofList core)) := by
  rw [readLines, isCore.trim_eq]
  cases core with
  | nil => exact absurd ⟨[], .blank isCore⟩ h
  | cons c cs =>
    dsimp only
    cases read : Word.read? (c :: cs) with
    | none => rfl
    | some w => exact absurd ⟨[w], .word isCore (Word.read?_eq_some_iff.mp read)⟩ h

/-- The words of good lines are read, one line after the other. -/
theorem readLines_of_forall₂ {lines : List String} {rows : List (List Word)}
    (h : List.Forall₂ Holds lines rows) (n : Nat) : readLines n lines = .ok rows.flatten := by
  induction h generalizing n with
  | nil => rfl
  | cons here _ ih => rw [readLines_of_holds here, ih, List.flatten_cons]; rfl

/-- Good lines have words on them. -/
theorem exists_forall₂_of_good {lines : List String} (good : ∀ line ∈ lines, IsGood line) :
    ∃ rows, List.Forall₂ Holds lines rows := by
  induction lines with
  | nil => exact ⟨[], .nil⟩
  | cons line lines ih =>
    obtain ⟨⟨words, here⟩, later⟩ := List.forall_mem_cons.mp good
    obtain ⟨rows, others⟩ := ih later
    exact ⟨words :: rows, .cons here others⟩

/-- The first line that is not good is the error, whatever comes after it. -/
theorem readLines_of_bad {before after : List String} {core : List Char}
    (good : ∀ l ∈ before, IsGood l) (notGood : ¬ IsGood line)
    (isCore : Text.IsCore core line.toList) (n : Nat) :
    readLines n (before ++ line :: after) =
      .error (.parse (n + before.length) (String.ofList core)) := by
  induction before generalizing n with
  | nil => exact readLines_of_not_isGood notGood isCore n after
  | cons l before ih =>
    obtain ⟨⟨words, here⟩, later⟩ := List.forall_mem_cons.mp good
    rw [List.cons_append, readLines_of_holds here, ih later, List.length_cons, Nat.add_assoc,
      Nat.add_comm 1]
    rfl

/-- All lines are good, or there is a first that is not. -/
theorem good_or_exists_first (lines : List String) :
    (∀ line ∈ lines, IsGood line) ∨ ∃ before line after, lines = before ++ line :: after ∧
      (∀ l ∈ before, IsGood l) ∧ ¬ IsGood line := by
  induction lines with
  | nil => exact .inl fun _ none => absurd none List.not_mem_nil
  | cons line lines ih =>
    by_cases good : IsGood line
    · rcases ih with all | ⟨before, bad, after, rfl, others, notGood⟩
      · exact .inl (List.forall_mem_cons.mpr ⟨good, all⟩)
      · have allBefore := List.forall_mem_cons.mpr ⟨good, others⟩
        exact .inr ⟨line :: before, bad, after, rfl, allBefore, notGood⟩
    · exact .inr ⟨[], line, lines, rfl, fun _ none => absurd none List.not_mem_nil, good⟩

theorem Verdict.read_eq {feed : Feed} {result : Except ImageError (List Word)}
    (h : Verdict feed.lines feed.failure result) : read feed = result := by
  unfold read
  cases h with
  | program holds whole => rw [readLines_of_forall₂ holds, whole]
  | bad split good notGood isCore =>
    rw [split, readLines_of_bad good notGood isCore, Nat.add_comm]
  | broken good fails =>
    obtain ⟨rows, holds⟩ := exists_forall₂_of_good good
    rw [readLines_of_forall₂ holds, fails]

theorem exists_verdict (lines : List String) (failure : Option IoError) :
    ∃ result, Verdict lines failure result := by
  rcases good_or_exists_first lines with good | ⟨before, line, after, split, good, notGood⟩
  · cases failure with
    | none =>
      obtain ⟨rows, holds⟩ := exists_forall₂_of_good good
      exact ⟨_, .program holds rfl⟩
    | some cause => exact ⟨_, .broken good rfl⟩
  · exact ⟨_, .bad split good notGood (Text.isCore_trim line.toList)⟩

/-- **The reader gives the verdict**, and there is only one. -/
theorem read_iff {feed : Feed} {result : Except ImageError (List Word)} :
    read feed = result ↔ Verdict feed.lines feed.failure result := by
  constructor
  · rintro rfl
    obtain ⟨result, verdict⟩ := exists_verdict feed.lines feed.failure
    rw [verdict.read_eq]
    exact verdict
  · exact Verdict.read_eq

end Image

/-! ## Streams -/

/-- The stream gives these lines to a reader of lines, and then it fails. It does not matter what it
would give if it was asked again. -/
def Stream.FailsAfter (s : Stream) (lines : List String) (cause : IoError) : Prop :=
  ∃ later : List (Except IoError String), s.answers = lines.map .ok ++ .error cause :: later

/-- Where the lines end with a failure, they were answered before it. -/
theorem Feed.exists_of_failure {answers : List (Except IoError String)} {cause : IoError}
    (fails : (ofAnswers answers).failure = some cause) :
    ∃ (lines : List String) (later : List (Except IoError String)),
      answers = lines.map .ok ++ .error cause :: later := by
  induction answers with
  | nil => cases fails
  | cons answer answers ih =>
    cases answer with
    | error e =>
      cases fails
      exact ⟨[], answers, rfl⟩
    | ok line =>
      obtain ⟨lines, later, rfl⟩ := ih fails
      exact ⟨line :: lines, later, rfl⟩

namespace Stream

variable {s : Stream} {lines : List String} {cause : IoError}

/-- What comes after the failure is not read. -/
theorem FailsAfter.feed_eq (h : s.FailsAfter lines cause) : s.feed = ⟨lines, some cause⟩ := by
  obtain ⟨later, answered⟩ := h
  rw [Stream.feed_eq, answered, Feed.ofAnswers_append, Feed.ofAnswers, List.append_nil]

/-- Either a stream is a text or it fails. -/
theorem exists_text_or_failsAfter (s : Stream) :
    (∃ text, s = ofText text) ∨ ∃ lines cause, s.FailsAfter lines cause := by
  cases failure : s.feed.failure with
  | none => exact .inl (eq_ofText_of_failure_eq_none failure)
  | some cause =>
    rw [Stream.feed_eq] at failure
    obtain ⟨lines, later, answered⟩ := Feed.exists_of_failure failure
    exact .inr ⟨lines, cause, later, answered⟩

end Stream

namespace Image

/-- **What is read of an image.** Of a text it is the verdict on its lines, and this is a program
just if each of them is good. Of a stream that fails it is the verdict on the lines before, with the
failure after them. There are no other streams. -/
theorem read_exact :
    (∀ text result, read (Stream.ofText text).feed = result ↔
      Verdict (Text.lines text) none result) ∧
    (∀ text, (∃ program, read (Stream.ofText text).feed = .ok program) ↔
      ∀ line ∈ Text.lines text, IsGood line) ∧
    (∀ (s : Stream) lines cause, s.FailsAfter lines cause →
      ∀ result, read s.feed = result ↔ Verdict lines (some cause) result) ∧
    ∀ s : Stream, (∃ text, s = .ofText text) ∨ ∃ lines cause, s.FailsAfter lines cause := by
  have ofText : ∀ text result, read (Stream.ofText text).feed = result ↔
      Verdict (Text.lines text) none result := by
    intro text result
    rw [Stream.feed_ofText]
    exact read_iff
  refine ⟨ofText, fun text => ⟨?_, fun good => ?_⟩, fun s lines cause fails result => ?_,
    Stream.exists_text_or_failsAfter⟩
  · rintro ⟨program, reads⟩ line mem
    cases (ofText text _).mp reads with
    | program holds _ =>
      obtain ⟨i, found⟩ := List.getElem?_of_mem mem
      obtain ⟨words, -, here⟩ := exists_getElem?_of_forall₂ holds found
      exact ⟨words, here⟩
  · obtain ⟨rows, holds⟩ := exists_forall₂_of_good good
    exact ⟨_, (ofText text _).mpr (.program holds rfl)⟩
  · rw [fails.feed_eq]
    exact read_iff

/-- A stream that breaks off in its last line. Among the lines before there is one that is bad. -/
def interrupted : Stream :=
  ⟨"-0\r\n\n\t+7 \n 1 2\n3\n4".toUTF8, some (.other "device gone")⟩

/-- Two lines that are good, and bytes between them that are no text. -/
def garbled : Stream := ⟨⟨#[0x31, 0x0A, 0xFF, 0x0A, 0x32]⟩, none⟩

theorem read_exact_interrupted :
    interrupted.FailsAfter ["-0", "", "\t+7 ", " 1 2", "3"] (.other "device gone") ∧
      read interrupted.feed = .error (.parse 4 "1 2") ∧
      garbled.FailsAfter ["1"] .invalidUtf8 ∧
      read garbled.feed = .error (.read .invalidUtf8) := by
  have breaksOff : interrupted.FailsAfter ["-0", "", "\t+7 ", " 1 2", "3"]
      (.other "device gone") :=
    ⟨[], by decide +kernel⟩
  have unreadable : garbled.FailsAfter ["1"] .invalidUtf8 := ⟨[.ok "2"], by decide +kernel⟩
  have isCore : Text.IsCore "1 2".toList " 1 2".toList := Text.trim_eq_iff.mp (by decide +kernel)
  have bad : Verdict ["-0", "", "\t+7 ", " 1 2", "3"] (some (.other "device gone"))
      (.error (.parse 4 "1 2")) :=
    .bad (show _ = ["-0", "", "\t+7 "] ++ " 1 2" :: ["3"] from rfl) (by decide +kernel)
      (by decide +kernel) isCore
  have broken : Verdict ["1"] (some .invalidUtf8) (.error (.read .invalidUtf8)) :=
    .broken (by decide +kernel) rfl
  obtain ⟨-, -, ofFailing, -⟩ := read_exact
  exact ⟨breaksOff, (ofFailing _ _ _ breaksOff _).mpr bad, unreadable,
    (ofFailing _ _ _ unreadable _).mpr broken⟩

end Image

end Stackwright
