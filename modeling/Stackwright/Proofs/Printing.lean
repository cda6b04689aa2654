import Mathlib.Data.List.TakeWhile
import Stackwright.Proofs.WellFormed

/-!
# Writing sources

How a row of statements is written, one on each line: a label with its colon, a mnemonic in capital
or small letters with its operands, or the directive with its one; literals in decimal.

Whatever is written in this way is cut into lines and tokens as it was put together
(`tokenize_page`). All that matters for this is which characters occur: `Token.isSolid` are those
that neither end a token nor start a comment, and names, mnemonics and numerals have no others.
-/

namespace Stackwright

/-! ## What is written -/

/-- The mnemonic, each letter of it capital or small. -/
def Opcode.Spells (op : Opcode) (name : String) : Prop :=
  name.toList.map Char.toUpper = op.mnemonic.toList

instance (op : Opcode) (name : String) : Decidable (op.Spells name) :=
  inferInstanceAs (Decidable (_ = _))

/-- A literal in decimal, or the name of a label. -/
def Operand.text : Operand → String
  | literal value => value.text
  | label name => name

/-- The words by which a statement is written. -/
inductive Statement.Spelled : Statement → List String → Prop where
  /-- a label has a colon behind its name -/
  | label (name : String) : Spelled (.label name) [name ++ ":"]
  /-- an instruction is a mnemonic and its operands -/
  | instruction {op : Opcode} {mnemonic : String} (spells : op.Spells mnemonic)
    (operands : List Operand) :
    Spelled (.instruction op operands) (mnemonic :: operands.map Operand.text)
  /-- a word of data is the directive and its operand -/
  | data (operand : Operand) : Spelled (.data operand) [wordDirective, operand.text]

/-- The text in which each line is closed by a line feed. -/
def Text.unlines (lines : List String) : String := String.join (lines.map (· ++ "\n"))

/-- The text of a source with the given words on its lines. The last line may be left open. -/
def IsPage (rows : List (List String)) (text : String) : Prop :=
  text = Text.unlines (rows.map " ".intercalate) ∨
    text = "\n".intercalate (rows.map " ".intercalate)

/-- A word is written as the integer that it is. -/
theorem Word.text_eq_toString (w : Word) : w.text = toString w.toInt := by
  unfold text Text.decimal
  cases w.toInt with
  | ofNat n => rfl
  | negSucc n =>
    rw [if_pos (Int.negSucc_lt_zero n), String.ofList_cons]
    rfl

/-! ## Lines -/

namespace Text

variable {α : Type} [BEq α] [LawfulBEq α]

theorem breakAt_of_not_mem {sep : α} {cs : List α} (h : sep ∉ cs) : breakAt sep cs = ([], cs) := by
  induction cs with
  | nil => rfl
  | cons c cs ih =>
    rw [List.mem_cons, not_or] at h
    obtain ⟨other, later⟩ := h
    rw [breakAt, if_neg (by simpa using Ne.symm other), ih later]

theorem breakAt_append {sep : α} {cs : List α} (h : sep ∉ cs) (ds : List α) :
    breakAt sep (cs ++ sep :: ds) = (cs :: (breakAt sep ds).1, (breakAt sep ds).2) := by
  induction cs with
  | nil =>
    rw [List.nil_append, breakAt, if_pos (beq_self_eq_true sep)]
  | cons c cs ih =>
    rw [List.mem_cons, not_or] at h
    obtain ⟨other, later⟩ := h
    rw [List.cons_append, breakAt, if_neg (by simpa using Ne.symm other), ih later]

theorem dropLastIf_of_not_mem {x : α} {cs : List α} (h : x ∉ cs) : dropLastIf x cs = cs := by
  unfold dropLastIf
  rw [if_neg]
  intro last
  exact h (List.mem_of_getLast? (by simpa using last))

/-- A line without a break in it. -/
def IsLine (line : String) : Prop := '\n' ∉ line.toList ∧ '\r' ∉ line.toList

/-- Up to a line feed there is one line, and a text goes on after it. -/
theorem lines_append_of_not_mem {line : String} (h : '\n' ∉ line.toList) (text : String) :
    lines (line ++ "\n" ++ text) =
      String.ofList (dropLastIf '\r' line.toList) :: lines text := by
  have split : (line ++ "\n" ++ text).toList = line.toList ++ '\n' :: text.toList := by
    rw [String.toList_append, String.toList_append, List.append_assoc]
    rfl
  unfold lines closedLines openLine
  dsimp only
  rw [split, breakAt_append h]
  simp only [List.map_cons, List.cons_append]

theorem lines_append {line : String} (h : IsLine line) (text : String) :
    lines (line ++ "\n" ++ text) = line :: lines text := by
  rw [lines_append_of_not_mem h.1, dropLastIf_of_not_mem h.2, String.ofList_toList]

/-- What no line feed closes is a line if it is not empty. -/
theorem lines_of_not_mem {line : String} (h : '\n' ∉ line.toList) (nonempty : line.toList ≠ []) :
    lines line = [line] := by
  unfold lines closedLines openLine
  dsimp only
  rw [breakAt_of_not_mem h]
  simp [nonempty]

theorem lines_unlines {ls : List String} (h : ∀ l ∈ ls, IsLine l) : lines (unlines ls) = ls := by
  unfold unlines
  induction ls with
  | nil => rfl
  | cons l ls ih =>
    obtain ⟨here, later⟩ := List.forall_mem_cons.mp h
    rw [List.map_cons, String.join_cons, lines_append here, ih later]

theorem lines_intercalate {ls : List String} (h : ∀ l ∈ ls, IsLine l)
    (nonempty : ∀ l ∈ ls, l.toList ≠ []) : lines ("\n".intercalate ls) = ls := by
  induction ls with
  | nil => rfl
  | cons l ls ih =>
    obtain ⟨here, later⟩ := List.forall_mem_cons.mp h
    obtain ⟨some, others⟩ := List.forall_mem_cons.mp nonempty
    cases ls with
    | nil => exact lines_of_not_mem here.1 some
    | cons k ls =>
      rw [String.intercalate_cons_cons, lines_append here, ih later others]

end Text

/-! ## Characters -/

/-- Whether a character can stand anywhere in a token. -/
def Token.isSolid (c : Char) : Bool := !Text.isBlank c && c != Token.commentMark

namespace Text

/-- What holds of all ASCII characters can be found out by looking at them. -/
theorem forall_ascii {p : Char → Prop} (h : ∀ n < 128, p (Char.ofNat n)) {c : Char}
    (ascii : c.toNat < 128) : p c :=
  Char.ofNat_toNat c ▸ h c.toNat ascii

theorem toNat_lt_of_isAlphanum {c : Char} (h : c.isAlphanum) : c.toNat < 128 := by
  have below (last : Char) (ascii : last.toNat < 128) (le : c.val ≤ last.val) : c.toNat < 128 :=
    Nat.lt_of_le_of_lt (UInt32.le_iff_toNat_le.mp le) ascii
  rcases Bool.or_eq_true_iff.mp h with letter | digit
  · rcases Bool.or_eq_true_iff.mp letter with capital | small
    · exact below 'Z' (by decide) (of_decide_eq_true capital).2
    · exact below 'z' (by decide) (of_decide_eq_true (Bool.and_eq_true_iff.mp small).2)
  · exact below '9' (by decide) (of_decide_eq_true (Bool.and_eq_true_iff.mp digit).2)

/-- Letters and digits stand in tokens. -/
theorem isSolid_of_isAlphanum {c : Char} (h : c.isAlphanum) : Token.isSolid c :=
  forall_ascii (p := fun c => c.isAlphanum → Token.isSolid c) (by decide +kernel)
    (toNat_lt_of_isAlphanum h) h

theorem toNat_lt_of_toUpper {c : Char} (h : c.toUpper.isUpper) : c.toNat < 128 := by
  unfold Char.toUpper at h
  split at h
  · next small =>
    have bound := UInt32.le_iff_toNat_le.mp small.2
    have z : 'z'.val.toNat = 122 := rfl
    have value : c.toNat = c.val.toNat := rfl
    omega
  · have letter : c.isAlpha := Bool.or_eq_true_iff.mpr (.inl h)
    exact toNat_lt_of_isAlphanum (Bool.or_eq_true_iff.mpr (.inl letter))

/-- A character that is a capital letter up to its case is a letter, and the full mapping to
capitals treats it as the one for ASCII does. -/
theorem capital_of_toUpper {c : Char} (h : c.toUpper.isUpper) :
    c.isAlphanum ∧ capital c = [c.toUpper] :=
  forall_ascii (p := fun c => c.toUpper.isUpper → c.isAlphanum ∧ capital c = [c.toUpper])
    (by decide +kernel) (toNat_lt_of_toUpper h) h

end Text

/-! ## Tokens -/

namespace Token

/-- The text is cut nowhere, and nothing is left out of it. -/
def IsWhole (text : String) : Prop := text.toList ≠ [] ∧ ∀ c ∈ text.toList, isSolid c

variable {name : String}

/-- A label name starts with a letter or an underscore and goes on in the same manner. -/
theorem exists_of_isLabelName (h : isLabelName name) :
    ∃ c cs, name.toList = c :: cs ∧ (c.isAlpha ∨ c = '_') ∧
      ∀ d ∈ cs, d.isAlphanum ∨ d = '_' ∨ d = '.' := by
  unfold isLabelName at h
  split at h
  · cases h
  · next c cs shape =>
    simp only [Bool.and_eq_true, Bool.or_eq_true, List.all_eq_true, beq_iff_eq] at h
    refine ⟨c, cs, shape, h.1.1, fun d mem => ?_⟩
    simpa only [or_assoc] using h.1.2 d mem

theorem isWhole_of_isLabelName (h : isLabelName name) : IsWhole name := by
  obtain ⟨c, cs, shape, first, others⟩ := exists_of_isLabelName h
  refine ⟨?_, ?_⟩ <;> rw [shape]
  · exact List.cons_ne_nil c cs
  · refine List.forall_mem_cons.mpr ⟨?_, fun d mem => ?_⟩
    · rcases first with letter | rfl
      · exact Text.isSolid_of_isAlphanum (by simp [Char.isAlphanum, letter])
      · decide
    · rcases others d mem with plain | rfl | rfl
      · exact Text.isSolid_of_isAlphanum plain
      · decide
      · decide

/-- A definition is a token as its name is. -/
theorem isWhole_append_colon (h : IsWhole name) : IsWhole (name ++ ":") := by
  unfold IsWhole
  rw [String.toList_append]
  refine ⟨List.append_ne_nil_of_left_ne_nil h.1 _, fun c mem => ?_⟩
  rcases List.mem_append.mp mem with old | colon
  · exact h.2 c old
  · obtain rfl := List.mem_singleton.mp colon
    decide

/-- A sign before a token makes a token. -/
theorem isWhole_append {sign : String} (solid : ∀ c ∈ sign.toList, isSolid c) (h : IsWhole name) :
    IsWhole (sign ++ name) := by
  unfold IsWhole
  rw [String.toList_append]
  refine ⟨List.append_ne_nil_of_right_ne_nil _ h.1, fun c mem => ?_⟩
  rcases List.mem_append.mp mem with before | old
  · exact solid c before
  · exact h.2 c old

theorem isWhole_digits (zeros n : Nat) : IsWhole (String.ofList (Text.digits zeros n)) := by
  unfold IsWhole
  rw [String.toList_ofList]
  refine ⟨Text.digits_ne_nil zeros n, fun c mem => Text.isSolid_of_isAlphanum ?_⟩
  simp [Char.isAlphanum, Text.isDigit_of_mem_digits mem]

theorem isWhole_text (w : Word) : IsWhole w.text := by
  have digits := isWhole_digits 0 w.toInt.natAbs
  unfold Word.text Text.decimal
  split
  · rw [String.ofList_cons]
    exact isWhole_append (List.all_eq_true.mp (by decide)) digits
  · exact digits

theorem isWhole_of_operand {operand : Operand} (wf : operand.WellFormed) :
    IsWhole operand.text := by
  cases operand with
  | literal w => exact isWhole_text w
  | label name => exact isWhole_of_isLabelName wf

end Token

/-- Mnemonics are written in capitals. -/
theorem Opcode.isUpper_mnemonic (op : Opcode) : op.mnemonic.toList.all Char.isUpper := by
  cases op <;> decide +kernel

/-- What spells a mnemonic are letters. -/
theorem Opcode.Spells.isUpper {op : Opcode} {name : String} (h : op.Spells name) :
    ∀ c ∈ name.toList, c.toUpper.isUpper := by
  intro c mem
  refine List.all_eq_true.mp op.isUpper_mnemonic c.toUpper ?_
  rw [← show _ = _ from h]
  exact List.mem_map_of_mem mem

theorem Token.isWhole_of_spells {op : Opcode} {name : String} (h : op.Spells name) :
    IsWhole name := by
  refine ⟨?_, fun c mem => Text.isSolid_of_isAlphanum (Text.capital_of_toUpper (h.isUpper c mem)).1⟩
  intro empty
  unfold Opcode.Spells at h
  rw [empty] at h
  cases op <;> cases h

/-- The words of a statement are its tokens. -/
theorem Statement.Spelled.isWhole {s : Statement} {ws : List String} (h : s.Spelled ws)
    (wf : s.WellFormed) : ∀ w ∈ ws, Token.IsWhole w := by
  cases h with
  | label name =>
    exact List.forall_mem_singleton.mpr
      (Token.isWhole_append_colon (Token.isWhole_of_isLabelName wf))
  | instruction spells operands =>
    refine List.forall_mem_cons.mpr ⟨Token.isWhole_of_spells spells, ?_⟩
    exact List.forall_mem_map.mpr fun operand mem => Token.isWhole_of_operand (wf.2 operand mem)
  | data operand =>
    have directive : Token.IsWhole wordDirective := ⟨by decide, List.all_eq_true.mp (by decide)⟩
    refine List.forall_mem_cons.mpr ⟨directive, ?_⟩
    exact List.forall_mem_singleton.mpr (Token.isWhole_of_operand wf)

/-! ## Lines of tokens -/

/-- The tokens of which the words on successive lines are the texts; the first line has number
`n`. -/
def Token.ofRows (n : Nat) : List (List String) → List Token
  | [] => []
  | row :: rest => row.map (⟨·, n⟩) ++ ofRows (n + 1) rest

namespace Text

/-- Words with single spaces between them are cut at the spaces. -/
theorem words_intercalate {ws : List (List Char)} (nonempty : ∀ w ∈ ws, w ≠ [])
    (solid : ∀ w ∈ ws, ∀ c ∈ w, isBlank c = false) : words ([' '].intercalate ws) = ws := by
  induction ws with
  | nil => rfl
  | cons w ws ih =>
    obtain ⟨here, later⟩ := List.forall_mem_cons.mp nonempty
    obtain ⟨here', later'⟩ := List.forall_mem_cons.mp solid
    cases ws with
    | nil =>
      rw [List.intercalate_singleton]
      exact words_eq_singleton here here'
    | cons v ws =>
      rw [List.intercalate_cons_cons, List.append_assoc, List.singleton_append,
        words_append_blank _ (by decide), words_eq_singleton here here', ih later later']
      rfl

/-- There is nothing but the spaces and the words. -/
theorem mem_intercalate {ws : List (List Char)} {c : Char} (h : c ∈ [' '].intercalate ws) :
    c = ' ' ∨ ∃ w ∈ ws, c ∈ w := by
  induction ws with
  | nil => cases h
  | cons w ws ih =>
    cases ws with
    | nil =>
      rw [List.intercalate_singleton] at h
      exact .inr ⟨w, List.mem_cons_self, h⟩
    | cons v ws =>
      rw [List.intercalate_cons_cons, List.append_assoc, List.singleton_append,
        List.mem_append, List.mem_cons] at h
      rcases h with here | space | later
      · exact .inr ⟨w, List.mem_cons_self, here⟩
      · exact .inl space
      · rcases ih later with space | ⟨u, mem, there⟩
        · exact .inl space
        · exact .inr ⟨u, List.mem_cons_of_mem _ mem, there⟩

end Text

namespace Token

variable {row : List String}

/-- A character of a row of words is a space, or it is no blank and starts no comment. -/
theorem eq_or_isSolid (whole : ∀ w ∈ row, IsWhole w) {c : Char}
    (mem : c ∈ (" ".intercalate row).toList) : c = ' ' ∨ isSolid c := by
  rw [String.toList_intercalate] at mem
  rcases Text.mem_intercalate mem with space | ⟨w, there, within⟩
  · exact .inl space
  · obtain ⟨v, isWord, rfl⟩ := List.mem_map.mp there
    exact .inr ((whole v isWord).2 c within)

/-- A row of words is a line, as a line break is neither a space nor in a word. -/
theorem isLine_intercalate (whole : ∀ w ∈ row, IsWhole w) :
    Text.IsLine (" ".intercalate row) := by
  constructor <;> intro mem <;> rcases eq_or_isSolid whole mem with space | solid
  · cases space
  · cases solid
  · cases space
  · cases solid

/-- The tokens of a line of words are these words. -/
theorem ofLine_intercalate (whole : ∀ w ∈ row, IsWhole w) (n : Nat) :
    ofLine n (" ".intercalate row) = row.map (⟨·, n⟩) := by
  have noComment : code (" ".intercalate row).toList = (" ".intercalate row).toList := by
    refine List.takeWhile_eq_self_iff.mpr fun c mem => ?_
    rcases eq_or_isSolid whole mem with rfl | solid
    · decide
    · exact (Bool.and_eq_true_iff.mp solid).2
  have nonempty : ∀ w ∈ row.map String.toList, w ≠ [] :=
    List.forall_mem_map.mpr fun w mem => (whole w mem).1
  have solid : ∀ w ∈ row.map String.toList, ∀ c ∈ w, Text.isBlank c = false :=
    List.forall_mem_map.mpr fun w mem c within => by
      simpa using (Bool.and_eq_true_iff.mp ((whole w mem).2 c within)).1
  rw [ofLine, noComment, String.toList_intercalate]
  change ((Text.words ([' '].intercalate _)).map _) = _
  rw [Text.words_intercalate nonempty solid, List.map_map]
  refine List.map_congr_left fun w _ => ?_
  simp

/-- The tokens of some lines are the words on them. -/
theorem ofLines_intercalate {rows : List (List String)}
    (whole : ∀ row ∈ rows, ∀ w ∈ row, IsWhole w) (n : Nat) :
    ofLines n (rows.map " ".intercalate) = ofRows n rows := by
  induction rows generalizing n with
  | nil => rfl
  | cons row rows ih =>
    obtain ⟨here, later⟩ := List.forall_mem_cons.mp whole
    rw [List.map_cons, ofLines, ofLine_intercalate here, ih later, ofRows]

/-- A row of words is not empty. -/
theorem toList_intercalate_ne_nil (nonempty : row ≠ []) (whole : ∀ w ∈ row, IsWhole w) :
    (" ".intercalate row).toList ≠ [] := by
  obtain ⟨w, ws, rfl⟩ := List.exists_cons_of_ne_nil nonempty
  have first := (whole w List.mem_cons_self).1
  cases ws with
  | nil => exact first
  | cons v ws =>
    rw [String.intercalate_cons_cons, String.toList_append, String.toList_append,
      List.append_assoc]
    exact List.append_ne_nil_of_left_ne_nil first _

end Token

/-- **What is written is cut as it was put together**: the tokens of a text are the words on its
lines. -/
theorem tokenize_page {rows : List (List String)} {text : String} (page : IsPage rows text)
    (nonempty : ∀ row ∈ rows, row ≠ []) (whole : ∀ row ∈ rows, ∀ w ∈ row, Token.IsWhole w) :
    tokenize (.ofText text) = .ok (Token.ofRows 1 rows) := by
  have isLine : ∀ line ∈ rows.map " ".intercalate, Text.IsLine line :=
    List.forall_mem_map.mpr fun row mem => Token.isLine_intercalate (whole row mem)
  have lines : Text.lines text = rows.map " ".intercalate := by
    rcases page with rfl | rfl
    · exact Text.lines_unlines isLine
    · -- a last line that is left open counts only because it is not empty
      exact Text.lines_intercalate isLine (List.forall_mem_map.mpr fun row mem =>
        Token.toList_intercalate_ne_nil (nonempty row mem) (whole row mem))
  change Except.ok (Token.ofLines 1 (Text.lines text)) = _
  rw [lines, Token.ofLines_intercalate whole]

end Stackwright
