import Mathlib.Data.List.TakeWhile
import Stackwright.Listing
import Stackwright.Proofs.Printing
import Stackwright.Proofs.Whereabouts

/-!
# What a listing shows

A listing has two sides. On the left there are words of the program with the address of the first,
on the right there is a line of the source with its number. Here it is said what the characters are
that are printed for them (`Row.IsShown`, `Listing.LineIsShown`), and that these are the characters
that the listing is written with.

All of a source line is shown but the blanks between its code and its comment
(`Listing.FallsInto`). Code that ends with a colon is green, and comments are dim.
-/

namespace Stackwright

/-- The text shows words with their address: first the address in at least four digits, in brackets
and cyan; then the words in decimal, filled up with blanks to twenty characters. -/
def Row.IsShown (row : Row) (text : String) : Prop :=
  let digits := toString row.address.toInt
  let words := " ".intercalate (row.words.map fun w => toString w.toInt)
  text = "\x1b[36m[".pushn '0' (4 - digits.length) ++ digits ++ "]\x1b[39m " ++
    words.pushn ' ' (20 - words.length)

namespace Listing

/-- A line is code and a comment, perhaps with blanks between them. The comment starts at the first
semicolon, if there is one, and otherwise there is no comment. -/
structure FallsInto (line code comment : String) : Prop where
  line_eq : ∃ blanks : String, (∀ c ∈ blanks.toList, Text.isBlank c) ∧
    line = code ++ blanks ++ comment
  noMark : ';' ∉ code.toList
  /-- the code does not end with a blank -/
  trimmed : ∀ c, code.toList.getLast? = some c → Text.isBlank c = false
  marked : comment = "" ∨ comment.toList.head? = some ';'

/-- The text shows a line of a source: its number in four columns, its code, and its comment. -/
def LineIsShown (n : Nat) (line text : String) : Prop :=
  ∃ code comment, FallsInto line code comment ∧
    text = "".pushn ' ' (4 - (toString n).length) ++ toString n ++ ": " ++
      (if code.toList.getLast? = some ':' then "\x1b[32m" ++ code ++ "\x1b[39m" else code) ++
      " \x1b[2m" ++ comment ++ "\x1b[22m"

end Listing

/-! ## Code and comments -/

namespace Text

/-- Nothing but blanks is trimmed away. -/
theorem exists_blanks_trimEnd (cs : List Char) :
    ∃ blanks, (∀ c ∈ blanks, isBlank c) ∧ cs = trimEnd cs ++ blanks := by
  refine ⟨(cs.reverse.takeWhile isBlank).reverse, fun c mem => ?_, ?_⟩
  · exact List.mem_takeWhile_imp (List.mem_reverse.mp mem)
  · rw [trimEnd, ← List.reverse_append, List.takeWhile_append_dropWhile, List.reverse_reverse]

/-- What is trimmed does not end with a blank. -/
theorem isBlank_of_getLast?_trimEnd {cs : List Char} {c : Char}
    (last : (trimEnd cs).getLast? = some c) : isBlank c = false := by
  rw [trimEnd, List.getLast?_reverse] at last
  have solid := List.head?_dropWhile_not isBlank cs.reverse
  rw [last] at solid
  exact solid

end Text

namespace Listing

/-- A line falls into its code, without the blanks at the end, and its comment. -/
theorem fallsInto (line : String) :
    FallsInto line (String.ofList (Text.trimEnd (Token.code line.toList)))
      (String.ofList (Token.comment line.toList)) := by
  obtain ⟨blanks, blank, split⟩ := Text.exists_blanks_trimEnd (Token.code line.toList)
  refine ⟨⟨String.ofList blanks, ?_, ?_⟩, ?_, fun c => ?_, ?_⟩
  · rwa [String.toList_ofList]
  · rw [← String.ofList_append, ← split, ← String.ofList_append, Token.code, Token.comment,
      List.takeWhile_append_dropWhile, String.ofList_toList]
  · rw [String.toList_ofList]
    intro mem
    refine (Token.isCode_code line.toList).1 ?_
    rw [split]
    exact List.mem_append_left _ mem
  · rw [String.toList_ofList]
    exact Text.isBlank_of_getLast?_trimEnd
  · have first := List.head?_dropWhile_not (· != Token.commentMark) line.toList
    rw [String.toList_ofList]
    cases comment : Token.comment line.toList with
    | nil => exact .inl rfl
    | cons c cs =>
      rw [Token.comment] at comment
      rw [comment] at first
      exact .inr (congrArg some (by simpa [Token.commentMark] using first))

/-! ## What is written -/

theorem toString_eq (text : String) : toString text = text := rfl

theorem pushn_eq (text : String) (c : Char) (n : Nat) :
    text.pushn c n = text ++ Text.repeated n c := by
  rw [String.pushn_eq_repeat_push, Text.repeated]
  induction n with
  | zero => exact String.append_empty.symm
  | succ n ih =>
    rw [Nat.repeat, ih, List.replicate_succ', String.ofList_append, ← String.append_assoc]
    rfl

/-- The words of a row are shown, and their address. -/
theorem isShown_machineSide (row : Row) : row.IsShown (machineSide row) := by
  have opens : "\x1b[36m[" = "\x1b[36m" ++ "[" := rfl
  have closes : "]\x1b[39m " = "]" ++ ("\x1b[39m" ++ " ") := rfl
  unfold Row.IsShown machineSide
  rw [← funext Word.text_eq_toString, ← Word.text_eq_toString]
  simp only [pushn_eq, opens, closes, Text.Style.paint, Text.Style.codes, Text.zeroFilled,
    Text.alignLeft, toString_eq, String.append_assoc]

/-- Code and comment of a line are shown, and its number. -/
theorem lineIsShown_sourceSide (n : Nat) (line : String) :
    LineIsShown n line (sourceSide n line) := by
  have dims : " \x1b[2m" = " " ++ "\x1b[2m" := rfl
  refine ⟨_, _, fallsInto line, ?_⟩
  unfold sourceSide
  simp only [pushn_eq, dims, Text.Style.paint, Text.Style.codes, Text.alignRight,
    toString_eq, String.append_assoc, String.toList_ofList, String.empty_append]

theorem opening_eq (file : String) :
    opening file = "".pushn '-' 27 ++ "+------[" ++ file ++
      "]".pushn '-' (45 - file.utf8ByteSize) := by
  simp only [opening, pushn_eq, toString_eq, String.append_assoc, String.empty_append]

theorem closing_eq : closing = "".pushn '-' 27 ++ "+".pushn '-' 53 := by
  simp only [closing, pushn_eq, toString_eq, String.append_assoc, String.empty_append]

end Listing

end Stackwright
