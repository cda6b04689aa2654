import Stackwright.Statement

/-!
# Well-formed statements

The type of statements is wider than the language: an instruction could have any
number of operands, and a label any name. What the parser yields is always *well-formed*
(`wellFormed_of_mem_parse`): names are label names, and an instruction has the operands
that the instruction set asks for. Everything that counts words rests on this.

The parser remembers an unfinished statement between two tokens, so the same is said of
those first. What a single token can do is listed once: what it can be read as (`Operand.Reads`),
and what it makes of a statement as its first token (`Started`) and as an operand (`Supplied`).
-/

namespace Stackwright

/-- A label that is used as an operand has the name of a label. -/
def Operand.WellFormed : Operand → Prop
  | literal _ => True
  | label name => isLabelName name = true

/-- Names are label names, and each operation has as many operands as it takes. -/
def Statement.WellFormed : Statement → Prop
  | label name => isLabelName name = true
  | instruction op operands =>
    operands.length = op.operands.length ∧ ∀ operand ∈ operands, operand.WellFormed
  | data operand => operand.WellFormed

instance : DecidablePred Operand.WellFormed
  | .literal _ => inferInstanceAs (Decidable True)
  | .label name => inferInstanceAs (Decidable (isLabelName name = true))

instance : DecidablePred Statement.WellFormed
  | .label name => inferInstanceAs (Decidable (isLabelName name = true))
  | .instruction op operands => inferInstanceAs
      (Decidable (operands.length = op.operands.length ∧ ∀ operand ∈ operands, operand.WellFormed))
  | .data operand => inferInstanceAs (Decidable operand.WellFormed)

/-- The operands so far are well-formed, and there is room for one more. -/
structure Pending.WellFormed (p : Pending) : Prop where
  /-- the operation takes more operands than there are so far -/
  room : ∀ op, p.op? = some op → p.taken.length < op.operands.length
  /-- the operands so far are well-formed -/
  taken : ∀ operand ∈ p.taken, operand.WellFormed

/-! ## Reading operands -/

/-- What a text can be read as, if an operand is due. -/
inductive Operand.Reads (text : String) (line : Nat) : Except AssemblyError Operand → Prop where
  /-- it is a literal, and its value is a word -/
  | literal {w : Word} (meant : Literal.isMeant text.toList)
    (value : Literal.read text.toList = .ok w.toInt) : Reads text line (.ok (.literal w))
  /-- it is the name of a label -/
  | label (isName : isLabelName text) : Reads text line (.ok (.label text))
  /-- it is meant to be a literal, but its value is no word -/
  | outOfRange : Reads text line (.error (.literalOutOfRange text line))
  /-- it is neither literal nor name -/
  | invalid : Reads text line (.error (.invalidOperand text line))

/-- There is nothing else that it can be read as. -/
theorem Operand.reads (text : String) (line : Nat) : Reads text line (parse text line) := by
  unfold parse
  split
  · next meant =>
    split
    · exact .invalid
    · exact .outOfRange
    · next value read =>
      split
      · next w isWord =>
        rw [← Word.ofInt?_eq_some_iff.mp isWord] at read
        exact .literal meant read
      · exact .outOfRange
  · split
    · next isName => exact .label isName
    · exact .invalid

theorem Operand.wellFormed_of_parse {text : String} {line : Nat} {operand : Operand}
    (h : Operand.parse text line = .ok operand) : operand.WellFormed := by
  have view := reads text line
  rw [h] at view
  cases view with
  | literal _ _ => trivial
  | label isName => exact isName

/-! ## Supplying operands -/

namespace Pending

variable {p : Pending} {operand : Operand}

/-- What an operand can make of an unfinished statement. -/
inductive Supplied (p : Pending) (operand : Operand) : Pending ⊕ Statement → Prop where
  /-- a word of data is complete with it -/
  | data (directive : p.op? = none) : Supplied p operand (.inr (.data operand))
  /-- an instruction takes more -/
  | waiting {op : Opcode} (mnemonic : p.op? = some op)
    (more : p.taken.length + 1 < op.operands.length) :
    Supplied p operand (.inl { p with taken := p.taken ++ [operand] })
  /-- an instruction takes no more -/
  | complete {op : Opcode} (mnemonic : p.op? = some op)
    (last : op.operands.length ≤ p.taken.length + 1) :
    Supplied p operand (.inr (.instruction op (p.taken ++ [operand])))

/-- There is nothing else that an operand can make of it. -/
theorem supplied (p : Pending) (operand : Operand) : Supplied p operand (p.supply operand) := by
  simp only [supply]
  split
  · next directive => exact .data directive
  · next op mnemonic =>
    split
    · next more => exact .waiting mnemonic (by simpa using more)
    · next last => exact .complete mnemonic (by simpa using last)

/-- One operand more does no harm. -/
theorem WellFormed.taken_append (hp : p.WellFormed) (ho : operand.WellFormed) :
    ∀ o ∈ p.taken ++ [operand], o.WellFormed := by
  intro o mem
  rcases List.mem_append.mp mem with old | new
  · exact hp.taken o old
  · rw [List.mem_singleton.mp new]
    exact ho

/-- A statement that is still unfinished has room for another operand. -/
theorem WellFormed.supply_inl (hp : p.WellFormed) (ho : operand.WellFormed) {q : Pending}
    (h : p.supply operand = .inl q) : q.WellFormed := by
  have view := supplied p operand
  rw [h] at view
  cases view with
  | @waiting op mnemonic more =>
    refine ⟨fun op' mnemonic' => ?_, hp.taken_append ho⟩
    obtain rfl : op = op' := Option.some.inj (mnemonic.symm.trans mnemonic')
    rw [List.length_append, List.length_singleton]
    exact more

/-- A statement is finished by the last operand it takes. -/
theorem WellFormed.supply_inr (hp : p.WellFormed) (ho : operand.WellFormed) {s : Statement}
    (h : p.supply operand = .inr s) : s.WellFormed := by
  have view := supplied p operand
  rw [h] at view
  cases view with
  | data _ => exact ho
  | @complete op mnemonic last =>
    have room := hp.room op mnemonic
    refine ⟨?_, hp.taken_append ho⟩
    rw [List.length_append, List.length_singleton]
    omega

end Pending

/-! ## Parsing -/

namespace Statement

/-- What the first token of a statement can make of it. -/
inductive Started (head : Token) : Pending ⊕ Parsed → Prop where
  /-- a label is complete -/
  | label {name : String} (isName : isLabelName name) :
    Started head (.inr (.ok ⟨.label name, head.line⟩))
  /-- a word of data waits for its operand -/
  | data : Started head (.inl ⟨head, none, []⟩)
  /-- an instruction is complete if it takes no operands -/
  | complete {op : Opcode} (takesNone : op.operands = []) :
    Started head (.inr (.ok ⟨.instruction op [], head.line⟩))
  /-- an instruction waits if it takes operands -/
  | waiting {op : Opcode} (takesSome : op.operands ≠ []) : Started head (.inl ⟨head, some op, []⟩)
  /-- anything else is malformed -/
  | malformed (e : AssemblyError) : Started head (.inr (.error e))

/-- There is nothing else that the first token can make of it. -/
theorem started (head : Token) : Started head (start head) := by
  simp only [start]
  split
  · split
    · next isName => exact .label isName
    · exact .malformed _
  · split
    · exact .data
    · split
      · exact .malformed _
      · split
        · next takesNone => exact .complete (List.isEmpty_iff.mp takesNone)
        · next takesSome => exact .waiting (by simpa using takesSome)

/-- A statement that waits for its first operand takes one. -/
theorem wellFormed_of_start_inl {head : Token} {p : Pending} (h : start head = .inl p) :
    p.WellFormed := by
  have view := started head
  rw [h] at view
  cases view with
  | data =>
    constructor
    · rintro _ ⟨⟩
    · rintro _ ⟨⟩
  | waiting takesSome =>
    constructor
    · rintro _ ⟨⟩
      exact List.length_pos_iff.mpr takesSome
    · rintro _ ⟨⟩

/-- A statement of one token is a label or an operation that takes no operands. -/
theorem wellFormed_of_start_inr {head : Token} {s : SourceStatement}
    (h : start head = .inr (.ok s)) : s.statement.WellFormed := by
  have view := started head
  rw [h] at view
  cases view with
  | label isName => exact isName
  | complete takesNone =>
    constructor
    · exact (congrArg List.length takesNone).symm
    · rintro _ ⟨⟩

/-- What the parser yields from an unfinished statement on. -/
theorem wellFormed_of_mem_parseFrom {pending : Option Pending} {tokens : List Token}
    (hp : ∀ p, pending = some p → p.WellFormed) {s : SourceStatement}
    (h : .ok s ∈ parseFrom pending tokens) : s.statement.WellFormed := by
  fun_induction parseFrom pending tokens with
  | case1 => cases h
  | case2 p =>
    rw [List.mem_singleton] at h
    cases h
  | case3 t ts p begun ih =>
    refine ih ?_ h
    rintro _ ⟨⟩
    exact wellFormed_of_start_inl begun
  | case4 t ts item done ih =>
    rcases List.mem_cons.mp h with rfl | later
    · exact wellFormed_of_start_inr done
    · exact ih (fun _ hp => by cases hp) later
  | case5 p t ts e bad ih =>
    rcases List.mem_cons.mp h with here | later
    · cases here
    · exact ih (fun _ hp => by cases hp) later
  | case6 p t ts operand good q unfinished ih =>
    refine ih ?_ h
    rintro _ ⟨⟩
    exact (hp p rfl).supply_inl (Operand.wellFormed_of_parse good) unfinished
  | case7 p t ts operand good s' finished ih =>
    rcases List.mem_cons.mp h with here | later
    · cases here
      exact (hp p rfl).supply_inr (Operand.wellFormed_of_parse good) finished
    · exact ih (fun _ hp => by cases hp) later

/-- The parser yields nothing but well-formed statements. -/
theorem wellFormed_of_mem_parse {tokens : List Token} {s : SourceStatement}
    (h : .ok s ∈ parse tokens) : s.statement.WellFormed :=
  wellFormed_of_mem_parseFrom (fun _ hp => by cases hp) h

end Statement

end Stackwright
