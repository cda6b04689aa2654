import Mathlib.Data.List.Forall2
import Stackwright.Proofs.Printing

/-!
# Reading what was written

A source that was written statement by statement is read as the same statements, each on its line
(`parse_written`), and nothing else is ever read: what the parser yields could have been written.

The parser tells the kinds of statements and operands apart by their first and last characters
alone. So what is shown here for each kind is that it is not taken for another one, and then that
it has the right value. As each mnemonic takes the operands that it has and no more, the next
statement starts where the next line does.
-/

namespace Stackwright

/-! ## Operands -/

namespace Literal

variable {cs : List Char}

/-- Digits alone have no mark for the radix in front of them. -/
theorem radix_of_digits (digits : ∀ c ∈ cs, c.isDigit) : radix cs = (10, cs) := by
  unfold radix
  split
  · exact absurd (digits 'b' (by simp)) (by decide)
  · exact absurd (digits 'o' (by simp)) (by decide)
  · exact absurd (digits 'x' (by simp)) (by decide)
  · rfl

/-- Digits alone have no sign in front of them. -/
theorem read_of_digits (digits : ∀ c ∈ cs, c.isDigit) :
    read cs = (magnitude cs).map fun (n : Nat) => (n : Int) := by
  unfold read
  split
  · exact absurd (digits '-' (by simp)) (by decide)
  · rfl

/-- A digit behind a sign, or without one, makes a literal. -/
theorem isMeant_of_digits (digits : ∀ c ∈ cs, c.isDigit) (nonempty : cs ≠ []) :
    isMeant cs ∧ isMeant ('-' :: cs) := by
  obtain ⟨c, rest, rfl⟩ := List.exists_cons_of_ne_nil nonempty
  have digit := digits c List.mem_cons_self
  have noSign : (c == '-') = false := by
    refine beq_false_of_ne ?_
    rintro rfl
    cases digit
  have bare : isMeant (c :: rest) := by
    unfold isMeant
    rw [List.dropWhile_cons_of_neg (by simp [noSign])]
    exact digit
  exact ⟨bare, bare⟩

/-- The digits of a number are read as this number. -/
theorem magnitude_toDigits {n : Nat} (h : n ≤ room) : magnitude (Nat.toDigits 10 n) = .ok n := by
  have digits : ∀ c ∈ Nat.toDigits 10 n, c.isDigit :=
    fun c mem => Nat.isDigit_of_mem_toDigits (by omega) (by omega) mem
  unfold magnitude
  rw [radix_of_digits digits]
  split
  · next empty => exact absurd (congrArg Prod.snd empty) Nat.toDigits_ne_nil
  · next shape =>
    cases shape
    exact Text.readDigits_toDigits h

/-- An integer in decimal is a literal with this value. -/
theorem read_decimal {i : Int} (h : i.natAbs ≤ room) :
    isMeant (Text.decimal i) ∧ read (Text.decimal i) = .ok i := by
  have digits : ∀ c ∈ Nat.toDigits 10 i.natAbs, c.isDigit :=
    fun c mem => Nat.isDigit_of_mem_toDigits (by omega) (by omega) mem
  have meant := isMeant_of_digits digits Nat.toDigits_ne_nil
  unfold Text.decimal
  split
  · have value : -(i.natAbs : Int) = i := by omega
    refine ⟨meant.2, ?_⟩
    rw [read, magnitude_toDigits h]
    exact congrArg Except.ok value
  · have value : (i.natAbs : Int) = i := by omega
    refine ⟨meant.1, ?_⟩
    rw [read_of_digits digits, magnitude_toDigits h]
    exact congrArg Except.ok value

/-- What starts with a name is not taken for a literal: a name starts neither with a digit nor with
a sign. -/
theorem isMeant_append_of_isLabelName {name : String} (h : isLabelName name) (rest : List Char) :
    isMeant (name.toList ++ rest) = false := by
  obtain ⟨c, cs, shape, first, -⟩ := Token.exists_of_isLabelName h
  have start : (c == '-') = false ∧ c.isDigit = false := by
    rcases first with letter | rfl
    · exact Text.forall_ascii
        (p := fun c => c.isAlpha → (c == '-') = false ∧ c.isDigit = false) (by decide +kernel)
        (Text.toNat_lt_of_isAlphanum (by simp [Char.isAlphanum, letter])) letter
    · decide
  unfold isMeant
  rw [shape, List.cons_append, List.dropWhile_cons_of_neg (by simp [start.1])]
  exact start.2

theorem isMeant_of_isLabelName {name : String} (h : isLabelName name) :
    isMeant name.toList = false := by
  simpa using isMeant_append_of_isLabelName h []

end Literal

/-- **Operands are read as they were written.** -/
theorem Operand.parse_text {operand : Operand} (wf : operand.WellFormed) (line : Nat) :
    Operand.parse operand.text line = .ok operand := by
  unfold Operand.parse
  cases operand with
  | literal w =>
    have lower := w.le_toInt
    have upper := w.toInt_lt
    obtain ⟨meant, value⟩ := Literal.read_decimal (i := w.toInt) (by unfold Literal.room; omega)
    have text : (Operand.literal w).text.toList = Text.decimal w.toInt := String.toList_ofList
    rw [text, if_pos meant, value]
    dsimp only
    rw [Word.ofInt?_toInt]
  | label name =>
    have isName : isLabelName name := wf
    rw [Operand.text, Literal.isMeant_of_isLabelName isName, if_neg Bool.false_ne_true,
      if_pos isName]

/-! ## First words -/

/-- Texts of letters are put in capitals letter by letter. -/
theorem Text.capitals_of_toUpper {cs : List Char} (letters : ∀ c ∈ cs, c.toUpper.isUpper) :
    capitals cs = cs.map Char.toUpper := by
  unfold capitals
  induction cs with
  | nil => rfl
  | cons c cs ih =>
    obtain ⟨here, later⟩ := List.forall_mem_cons.mp letters
    rw [List.flatMap_cons, (capital_of_toUpper here).2, ih later]
    rfl

/-- Mnemonics are their own capitals. -/
theorem Opcode.capitals_mnemonic (op : Opcode) :
    Text.capitals op.mnemonic.toList = op.mnemonic.toList := by
  cases op <;> decide +kernel

/-- An operation is found under each spelling of its mnemonic: what is looked up are the capitals,
and these are the same for all spellings. -/
theorem Opcode.ofName?_of_spells {op : Opcode} {name : String} (h : op.Spells name) :
    ofName? name = some op := by
  have same : Text.capitals name.toList = Text.capitals op.mnemonic.toList := by
    rw [op.capitals_mnemonic, Text.capitals_of_toUpper h.isUpper]
    exact h
  rw [← op.ofName?_mnemonic]
  unfold ofName?
  rw [same]

namespace Statement

variable {op : Opcode} {name : String}

/-- The name of a definition is what stands before its colon. -/
theorem labelDefinition?_append_colon (name : String) :
    labelDefinition? (name ++ ":") = some name := by
  have shape : (name ++ ":").toList = name.toList ++ [':'] := String.toList_append
  unfold labelDefinition?
  rw [shape]
  simp

/-- A mnemonic is neither a definition nor the directive: these have characters in them that
are no letters. -/
theorem not_mem_of_spells (h : op.Spells name) {c : Char} (noLetter : c.toUpper.isUpper = false) :
    c ∉ name.toList := by
  intro mem
  rw [h.isUpper c mem] at noLetter
  cases noLetter

theorem start_label (isName : isLabelName name) (n : Nat) :
    start ⟨name ++ ":", n⟩ = .inr (.ok ⟨.label name, n⟩) := by
  unfold start
  dsimp only
  rw [labelDefinition?_append_colon]
  exact if_pos isName

theorem start_data (n : Nat) : start ⟨wordDirective, n⟩ = .inl ⟨⟨wordDirective, n⟩, none, []⟩ := by
  have noLabel : labelDefinition? wordDirective = none := by decide
  unfold start
  dsimp only
  rw [noLabel]
  exact if_pos rfl

theorem start_mnemonic (h : op.Spells name) (n : Nat) :
    start ⟨name, n⟩ =
      if op.operands.isEmpty then .inr (.ok ⟨.instruction op [], n⟩)
      else .inl ⟨⟨name, n⟩, some op, []⟩ := by
  have noLabel : labelDefinition? name = none := by
    refine if_neg fun last => ?_
    exact not_mem_of_spells h (by decide) (List.mem_of_getLast? last)
  have noData : name ≠ wordDirective := by
    rintro rfl
    exact not_mem_of_spells h (c := '.') (by decide) (by decide)
  unfold start
  dsimp only
  rw [noLabel]
  dsimp only
  rw [if_neg noData, Opcode.ofName?_of_spells h]

/-! ## Statements -/

/-- An instruction is complete with the operands that it still lacks. Each of them moves over to
those that were taken before, and the last one ends it. -/
theorem parseFrom_operands {head : Token} {taken operands : List Operand} (nonempty : operands ≠ [])
    (enough : taken.length + operands.length = op.operands.length)
    (wf : ∀ operand ∈ operands, operand.WellFormed) (n : Nat) (rest : List Token) :
    parseFrom (some ⟨head, some op, taken⟩) (operands.map (⟨·.text, n⟩) ++ rest) =
      .ok ⟨.instruction op (taken ++ operands), head.line⟩ :: parseFrom none rest := by
  induction operands generalizing taken with
  | nil => exact absurd rfl nonempty
  | cons operand operands ih =>
    obtain ⟨here, later⟩ := List.forall_mem_cons.mp wf
    rw [List.length_cons] at enough
    rw [List.map_cons, List.cons_append, parseFrom, Operand.parse_text here]
    dsimp only
    unfold Pending.supply
    dsimp only
    rw [List.length_append, List.length_singleton]
    by_cases last : operands = []
    · subst last
      rw [List.length_nil] at enough
      rw [if_neg (by omega)]
      rfl
    · have more := List.length_pos_iff.mpr last
      have enough' : (taken ++ [operand]).length + operands.length = op.operands.length := by
        rw [List.length_append, List.length_singleton]
        omega
      rw [if_pos (by omega)]
      dsimp only
      rw [ih last enough' later, List.append_assoc, List.singleton_append]

/-- The words of a statement are read as this statement, and nothing after them is. -/
theorem parseFrom_spelled {s : Statement} {ws : List String} (spelled : s.Spelled ws)
    (wf : s.WellFormed) (n : Nat) (rest : List Token) :
    parseFrom none (ws.map (⟨·, n⟩) ++ rest) = .ok ⟨s, n⟩ :: parseFrom none rest := by
  cases spelled with
  | label name =>
    rw [List.map_singleton, List.singleton_append, parseFrom, start_label wf]
  | @instruction op mnemonic spells operands =>
    obtain ⟨enough, good⟩ := wf
    rw [List.map_cons, List.cons_append, parseFrom, start_mnemonic spells, List.map_map]
    by_cases none : op.operands = []
    · have noOperands : operands = [] := by
        rw [none] at enough
        exact List.length_eq_zero_iff.mp enough
      subst noOperands
      rw [none]
      rfl
    · have nonempty : operands ≠ [] := by
        rintro rfl
        exact none (List.length_eq_zero_iff.mp enough.symm)
      rw [if_neg (by simpa using none)]
      exact parseFrom_operands nonempty (by simpa using enough) good n rest
  | data operand =>
    rw [List.map_cons, List.map_singleton, List.cons_append, List.singleton_append, parseFrom,
      start_data]
    dsimp only
    rw [parseFrom, Operand.parse_text wf]
    rfl

/-- No statement is written without a word. -/
theorem Spelled.ne_nil {s : Statement} {ws : List String} (h : s.Spelled ws) : ws ≠ [] := by
  cases h with
  | label name => exact List.cons_ne_nil _ _
  | instruction spells operands => exact List.cons_ne_nil _ _
  | data operand => exact List.cons_ne_nil _ _

/-- Statements on successive lines are read one after the other. -/
theorem parseFrom_ofRows {statements : List Statement} {rows : List (List String)}
    (spelled : List.Forall₂ Spelled statements rows) (wf : ∀ s ∈ statements, s.WellFormed)
    (n : Nat) :
    parseFrom none (Token.ofRows n rows) = (statements.zipIdx n).map fun (s, i) => .ok ⟨s, i⟩ := by
  induction spelled generalizing n with
  | nil => rfl
  | cons here _ ih =>
    obtain ⟨good, others⟩ := List.forall_mem_cons.mp wf
    rw [Token.ofRows, parseFrom_spelled here good, ih others, List.zipIdx_cons, List.map_cons]

/-- Each row has words, and none of them is cut. -/
theorem isWhole_of_spelled {statements : List Statement} {rows : List (List String)}
    (spelled : List.Forall₂ Spelled statements rows) (wf : ∀ s ∈ statements, s.WellFormed) :
    ∀ row ∈ rows, row ≠ [] ∧ ∀ w ∈ row, Token.IsWhole w := by
  induction spelled with
  | nil =>
    rintro _ ⟨⟩
  | cons here _ ih =>
    obtain ⟨good, others⟩ := List.forall_mem_cons.mp wf
    exact List.forall_mem_cons.mpr ⟨⟨here.ne_nil, here.isWhole good⟩, ih others⟩

end Statement

/-- **Parsing undoes writing.** Well-formed statements, written one on each line, are read as
these statements with the numbers of their lines; and only well-formed statements are read from
any tokens. -/
theorem parse_written :
    (∀ (statements : List Statement) (rows : List (List String)) (text : String),
      (∀ s ∈ statements, s.WellFormed) → List.Forall₂ Statement.Spelled statements rows →
      IsPage rows text →
      ∃ tokens, tokenize (.ofText text) = .ok tokens ∧
        Statement.parse tokens = (statements.zipIdx 1).map fun (s, i) => .ok ⟨s, i⟩) ∧
    ∀ (tokens : List Token) (s : SourceStatement),
      .ok s ∈ Statement.parse tokens → s.statement.WellFormed := by
  constructor
  · intro statements rows text wf spelled page
    have words := Statement.isWhole_of_spelled spelled wf
    refine ⟨Token.ofRows 1 rows, ?_, Statement.parseFrom_ofRows spelled wf 1⟩
    exact tokenize_page page (fun row mem => (words row mem).1) fun row mem => (words row mem).2
  · intro tokens s yielded
    exact Statement.wellFormed_of_mem_parse yielded

/-- A loop that counts up from a negative number, with data after it. -/
def countingUp : List Statement :=
  [.instruction .push [.literal (-7)], .label "up.1", .instruction .push [.literal 1],
    .instruction .add [], .instruction .dup [], .instruction .jnz [.label "up.1"],
    .instruction .halt [], .data (.label "up.1"), .data (.literal 2147483647)]

/-- The words by which it is written, in any letters. -/
def countingUpRows : List (List String) :=
  [["Push", "-7"], ["up.1:"], ["pUSH", "1"], ["add"], ["DUP"], ["jnZ", "up.1"], ["halt"],
    [".word", "up.1"], [".word", "2147483647"]]

/-- The source. -/
def countingUpText : String :=
  "Push -7\nup.1:\npUSH 1\nadd\nDUP\njnZ up.1\nhalt\n.word up.1\n.word 2147483647"

theorem parse_written_countingUp :
    (∀ s ∈ countingUp, s.WellFormed) ∧
      List.Forall₂ Statement.Spelled countingUp countingUpRows ∧
      IsPage countingUpRows countingUpText ∧
      ∃ tokens, tokenize (.ofText countingUpText) = .ok tokens ∧
        Statement.parse tokens = (countingUp.zipIdx 1).map fun (s, i) => .ok ⟨s, i⟩ := by
  have wf : ∀ s ∈ countingUp, s.WellFormed := by decide +kernel
  have spelled : List.Forall₂ Statement.Spelled countingUp countingUpRows :=
    .cons (.instruction (by decide) _) <| .cons (.label _) <|
      .cons (.instruction (by decide) _) <| .cons (.instruction (by decide) _) <|
      .cons (.instruction (by decide) _) <| .cons (.instruction (by decide) _) <|
      .cons (.instruction (by decide) _) <| .cons (.data _) <| .cons (.data _) .nil
  have page : IsPage countingUpRows countingUpText := .inr (by decide +kernel)
  exact ⟨wf, spelled, page, parse_written.1 countingUp countingUpRows countingUpText wf spelled page⟩

end Stackwright
