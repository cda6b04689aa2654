import Stackwright.Proofs.Grammar
import Stackwright.Proofs.Partition
import Stackwright.Proofs.Renaming

/-!
# Who answers to a mnemonic

Mnemonics are put in capitals before they are compared, and this is done for all of Unicode. Next
to the small letters there are four other characters that become letters of mnemonics: a dotless i,
a long s, and two ligatures that become two letters at once. So a mnemonic has spellings that are
none up to the case of its letters (`Opcode.MeantBy`), and these are all that it has
(`Opcode.ofName?_eq_some_iff`). The other characters that become letters become such as stand in
no mnemonic, an F or two times S.

What the first token of a statement means decides what becomes of the statement
(`Token.Opens`): it is an instruction only if its first token means this instruction, and an unknown
one just if its first token means nothing (`items_opened`).
-/

namespace Stackwright

/-! ## Characters that become capital letters -/

/-- The first text stands for the second one, which is in capitals. -/
inductive Text.StandsFor : List Char → List Char → Prop where
  | nil : StandsFor [] []
  /-- a letter of ASCII stands for itself -/
  | letter {c : Char} {cs capitals : List Char} (isLetter : c.toUpper.isUpper)
    (rest : StandsFor cs capitals) : StandsFor (c :: cs) (c.toUpper :: capitals)
  /-- a small letter i without a dot -/
  | dotless {cs capitals : List Char} (rest : StandsFor cs capitals) :
    StandsFor ('\u0131' :: cs) ('I' :: capitals)
  /-- a small letter s in its long form -/
  | long {cs capitals : List Char} (rest : StandsFor cs capitals) :
    StandsFor ('\u017f' :: cs) ('S' :: capitals)
  /-- a ligature of s in its long form and t -/
  | longLigature {cs capitals : List Char} (rest : StandsFor cs capitals) :
    StandsFor ('\ufb05' :: cs) ('S' :: 'T' :: capitals)
  /-- a ligature of s and t -/
  | ligature {cs capitals : List Char} (rest : StandsFor cs capitals) :
    StandsFor ('\ufb06' :: cs) ('S' :: 'T' :: capitals)

/-- What the capitals of a character can be. -/
inductive Text.Raised (c : Char) : List Char → Prop where
  /-- the character, as a capital if it is a letter of ASCII -/
  | letter : Raised c [c.toUpper]
  | dotless (same : c = '\u0131') : Raised c ['I']
  | long (same : c = '\u017f') : Raised c ['S']
  | ligature (same : c = '\ufb05' ∨ c = '\ufb06') : Raised c ['S', 'T']
  /-- two letters that follow each other in no mnemonic -/
  | double : Raised c ['S', 'S']
  /-- letters of which the first is in no mnemonic -/
  | foreign {cs : List Char} : Raised c ('F' :: cs)

namespace Text

theorem toUpper_of_not_small {c : Char} (other : ¬('a' ≤ c ∧ c ≤ 'z')) : c.toUpper = c := by
  unfold Char.toUpper
  split
  · next small => exact absurd ⟨small.1, small.2⟩ other
  · rfl

/-- There are no other capitals. -/
theorem raised (c : Char) : Raised c (capital c) := by
  have found {n : Nat} (valid : n.isValidChar) (code : c.toNat = n) : c = Char.ofNat n := by
    rw [← code, Char.ofNat_toNat]
  unfold capital
  split
  · exact .letter
  · next other =>
    split
    · exact .double
    · next code => exact .dotless (found (by decide) code)
    · next code => exact .long (found (by decide) code)
    · exact .foreign
    · exact .foreign
    · exact .foreign
    · exact .foreign
    · exact .foreign
    · next code => exact .ligature (.inl (found (by decide) code))
    · next code => exact .ligature (.inr (found (by decide) code))
    · have same : [c] = [c.toUpper] := by rw [toUpper_of_not_small other]
      rw [same]
      exact .letter

/-- What stands for capitals becomes these capitals. -/
theorem StandsFor.capitals_eq {name letters : List Char} (stands : StandsFor name letters) :
    capitals name = letters := by
  induction stands with
  | nil => rfl
  | letter isLetter _ ih =>
    rw [capitals, List.flatMap_cons, (capital_of_toUpper isLetter).2]
    exact congrArg (_ :: ·) ih
  | dotless _ ih => exact congrArg ('I' :: ·) ih
  | long _ ih => exact congrArg ('S' :: ·) ih
  | longLigature _ ih => exact congrArg ('S' :: 'T' :: ·) ih
  | ligature _ ih => exact congrArg ('S' :: 'T' :: ·) ih

end Text

namespace Opcode

variable {op : Opcode} {name : String}

/-- The mnemonic is what the name stands for. -/
def MeantBy (op : Opcode) (name : String) : Prop :=
  Text.StandsFor name.toList op.mnemonic.toList

/-- No mnemonic has an F, and none has two times S. -/
theorem mnemonic_plain (op : Opcode) :
    'F' ∉ op.mnemonic.toList ∧ ¬['S', 'S'] <:+: op.mnemonic.toList := by
  cases op <;> decide +kernel

/-- What becomes an end of a mnemonic stands for it. By induction on the name, as the rest of it
becomes an end of the mnemonic as well. -/
theorem standsFor_of_capitals {cs letters : List Char} (ends : letters <:+ op.mnemonic.toList)
    (same : Text.capitals cs = letters) : Text.StandsFor cs letters := by
  obtain ⟨noF, noSS⟩ := op.mnemonic_plain
  induction cs generalizing letters with
  | nil =>
    cases same
    exact .nil
  | cons c cs ih =>
    have view := Text.raised c
    rw [Text.capitals, List.flatMap_cons] at same
    have later : Text.StandsFor cs (Text.capitals cs) :=
      ih (.trans ⟨_, same⟩ ends) rfl
    generalize Text.capital c = raised at view same
    subst same
    cases view with
    | letter =>
      have isUpper := List.all_eq_true.mp op.isUpper_mnemonic c.toUpper
        (ends.subset List.mem_cons_self)
      exact .letter isUpper later
    | dotless here =>
      subst here
      exact .dotless later
    | long here =>
      subst here
      exact .long later
    | ligature here =>
      rcases here with rfl | rfl
      · exact .longLigature later
      · exact .ligature later
    | double => exact absurd ((List.prefix_append _ _).isInfix.trans ends.isInfix) noSS
    | foreign => exact absurd (ends.subset List.mem_cons_self) noF

/-- **An operation is found under the names that mean it, and under no others.** -/
theorem ofName?_eq_some_iff : ofName? name = some op ↔ op.MeantBy name := by
  constructor
  · intro found
    have same := List.find?_some found
    rw [beq_iff_eq] at same
    exact standsFor_of_capitals List.suffix_rfl (by rw [same, String.toList_ofList])
  · intro means
    rw [← op.ofName?_mnemonic]
    unfold ofName?
    rw [op.capitals_mnemonic, Text.StandsFor.capitals_eq means]

/-- The spellings up to the case of letters are those in ASCII. -/
theorem spells_iff : op.Spells name ↔ op.MeantBy name ∧ ∀ c ∈ name.toList, c.toNat < 128 := by
  rw [← ofName?_eq_some_iff]
  constructor
  · intro spells
    exact ⟨ofName?_of_spells spells, fun c mem => Text.toNat_lt_of_toUpper (spells.isUpper c mem)⟩
  · rintro ⟨found, ascii⟩
    exact spells_of_ofName? found ascii

end Opcode

/-! ## First tokens -/

/-- The token neither defines a label nor announces data, and it means no operation. -/
def Token.Unknown (t : Token) : Prop :=
  (∀ name, t.text ≠ name ++ ":") ∧ t.text ≠ wordDirective ∧ ∀ op : Opcode, ¬op.MeantBy t.text

/-- What the first token of a statement says about what becomes of it. -/
structure Token.Opens (head : Token) (item : Parsed) : Prop where
  /-- an instruction is the one that the token means -/
  instruction : ∀ op operands line, item = .ok ⟨.instruction op operands, line⟩ →
    op.MeantBy head.text ∧ line = head.line
  /-- it is unknown just if the token is -/
  unknown : ∀ name line, item = .error (.unknownMnemonic name line) ↔
    head.Unknown ∧ name = head.text ∧ line = head.line

namespace Statement

variable {head : Token}

/-- What is known of a statement that waits for operands. -/
structure Awaits (head : Token) (p : Pending) : Prop where
  head_eq : p.head = head
  known : ¬head.Unknown
  means : ∀ op, p.op? = some op → op.MeantBy head.text

/-- What comes of a known token is not unknown. -/
theorem opens_of_known (known : ¬head.Unknown) {item : Parsed}
    (named : ∀ name line, item ≠ .error (.unknownMnemonic name line))
    (instruction : ∀ op operands line, item = .ok ⟨.instruction op operands, line⟩ →
      op.MeantBy head.text ∧ line = head.line) : head.Opens item where
  instruction := instruction
  unknown name line :=
    ⟨fun error => absurd error (named name line), fun unknown => absurd unknown.1 known⟩

/-- The first token decides what the statement is. -/
theorem opens_start (head : Token) : (start head).elim (Awaits head) head.Opens := by
  unfold start
  split
  · next name definition =>
    rw [labelDefinition?_eq_some_iff] at definition
    have known : ¬head.Unknown := fun unknown => unknown.1 name definition
    split <;> exact opens_of_known known (by rintro _ _ ⟨⟩) (by rintro _ _ _ ⟨⟩)
  · next noDefinition =>
    split
    · next directive =>
      exact ⟨rfl, fun unknown => unknown.2.1 directive, by rintro _ ⟨⟩⟩
    · next noDirective =>
      split
      · next noName =>
        have unknown : head.Unknown := by
          refine ⟨fun name definition => ?_, noDirective, fun op means => ?_⟩
          · rw [labelDefinition?_eq_some_iff.mpr definition] at noDefinition
            cases noDefinition
          · rw [Opcode.ofName?_eq_some_iff.mpr means] at noName
            cases noName
        constructor
        · rintro _ _ _ ⟨⟩
        · intro name line
          simp [unknown, eq_comm]
      · next op found =>
        have means := Opcode.ofName?_eq_some_iff.mp found
        have known : ¬head.Unknown := fun unknown => unknown.2.2 op means
        split
        · refine opens_of_known known (by rintro _ _ ⟨⟩) ?_
          rintro _ _ _ ⟨⟩
          exact ⟨means, rfl⟩
        · refine ⟨rfl, known, ?_⟩
          rintro _ ⟨⟩
          exact means

/-- An operand does not change what the statement is. -/
theorem opens_take {p : Pending} (awaits : Awaits head p) (t : Token) :
    (p.take t).elim (Awaits head) head.Opens := by
  rw [Pending.take]
  cases read : Operand.parse t.text t.line with
  | error e =>
    have view := Operand.reads t.text t.line
    rw [read] at view
    refine opens_of_known awaits.known ?_ (by rintro _ _ _ ⟨⟩)
    rintro _ _ ⟨⟩
    cases view
  | ok operand =>
    have view := p.supplied operand
    dsimp only
    generalize p.supply operand = made at view ⊢
    cases view with
    | data _ => exact opens_of_known awaits.known (by rintro _ _ ⟨⟩) (by rintro _ _ _ ⟨⟩)
    | waiting _ _ => exact ⟨awaits.head_eq, awaits.known, awaits.means⟩
    | @complete op mnemonic _ =>
      refine opens_of_known awaits.known (by rintro _ _ ⟨⟩) ?_
      rintro _ _ _ ⟨⟩
      exact ⟨awaits.means op mnemonic, congrArg (·.line) awaits.head_eq⟩

/-- The first of the tokens of an item decides what it is. -/
theorem exists_head_of_parse {tokens : List Token} {item : Parsed}
    (parsed : parse tokens = [item]) : ∃ head ∈ tokens.head?, head.Opens item := by
  cases tokens with
  | nil => cases parsed
  | cons head rest =>
    refine ⟨head, rfl, yields_of_parse (Awaits head) head.Opens (opens_start head) ?_ ?_ parsed⟩
    · exact fun p t awaits => opens_take awaits t
    · exact fun p awaits =>
        opens_of_known awaits.known (by rintro _ _ ⟨⟩) (by rintro _ _ _ ⟨⟩)

end Statement

/-- **Who answers to a mnemonic.** A name is that of an operation just if it means this operation.
It spells the mnemonic up to the case of letters just if it is in ASCII as well. The tokens of a
source fall apart into those of its items. Where an item is an instruction, the first of its tokens
means this instruction, and where it is unknown, its first token means nothing. -/
theorem Statement.items_opened (name : String) (op : Opcode) (tokens : List Token) :
    (Opcode.ofName name = .ok op ↔ op.MeantBy name) ∧
      (op.Spells name ↔ op.MeantBy name ∧ ∀ c ∈ name.toList, c.toNat < 128) ∧
      ∃ groups : List (List Token), groups.flatten = tokens ∧
        List.Forall₂ (fun item group =>
          parse group = [item] ∧ ∃ head ∈ group.head?, head.Opens item) (parse tokens) groups := by
  refine ⟨?_, Opcode.spells_iff, ?_⟩
  · rw [← Opcode.ofName?_eq_some_iff, Opcode.ofName]
    cases Opcode.ofName? name with
    | none => simp
    | some found => simp
  · obtain ⟨groups, flat, related⟩ := exists_groups tokens
    exact ⟨groups, flat, related.imp fun _ _ alone => ⟨alone, exists_head_of_parse alone⟩⟩

/-- A name that is no spelling of a mnemonic. Its second letter is an i without a dot, which is not
even a small form of the letter I: that one has a dot. -/
def dotlessDiv : String := "d\u0131v"

/-- Not all names that are those of operations spell their mnemonics. -/
theorem Opcode.found_without_spelling :
    ¬∀ name op, Opcode.ofName name = .ok op ↔ op.Spells name := by
  intro all
  have found : Opcode.ofName dotlessDiv = .ok .div := by decide +kernel
  exact absurd ((all dotlessDiv .div).mp found) (by decide +kernel)

end Stackwright
