import Stackwright.Proofs.Grammar
import Stackwright.Proofs.Pointing

/-!
# What errors about missing labels point at

Whether a label is defined is known in the second pass, and there the tokens are forgotten: an
operand is a name, and the line at hand is that of its statement. So an error about a label that is
not defined does not point at the token that gives the name, but at the first token of the statement
with this operand. As no statement has two operands, the one stands directly behind the other
(`SourceStatement.ComesFrom.spread`); but a line break can be between them, and then the line that
is pointed at does not show the name (`undefined_pointed`).
-/

namespace Stackwright

/-! ## Finding tokens in lines -/

namespace Token

/-- There is one way to take the comment off a line. -/
theorem IsCode.eq_code {cs line : List Char} (h : IsCode cs line) : cs = code line := by
  obtain ⟨noMark, whole | ⟨rest, before⟩⟩ := h
  all_goals
    have noEnd : ∀ c ∈ cs, (c != commentMark) = true := by
      intro c mem
      simpa using ne_of_mem_of_not_mem mem noMark
  · rw [code, ← whole, List.takeWhile_eq_self_iff.mpr noEnd]
  · rw [code, ← before, List.append_assoc, List.takeWhile_append_of_pos noEnd,
      List.singleton_append, List.takeWhile_cons_of_neg (by simp), List.append_nil]

/-- A word of a line is one of the tokens. -/
theorem TakenFrom.mem_of_standsIn {lines : List String} {tokens : List Token} {t : Token}
    (h : TakenFrom lines tokens) (stands : StandsIn lines t) : t ∈ tokens := by
  obtain ⟨first, line, cs, ws, found, isCode, apart, mem⟩ := stands
  obtain ⟨cs', isCode', apart'⟩ := h.words _ _ found
  obtain rfl : cs = cs' := isCode.eq_code.trans isCode'.eq_code.symm
  rw [← apart.words_eq, apart'.words_eq] at mem
  obtain ⟨t', mem', same⟩ := List.mem_map.mp mem
  obtain ⟨mem', here⟩ := List.mem_filter.mp mem'
  have sameLine : t'.line = t.line := by
    simp only [decide_eq_true_eq] at here
    omega
  have sameText : t'.text = t.text := String.toList_inj.mp same
  rwa [show t = t' from (Token.mk.injEq ..).mpr ⟨sameText.symm, sameLine.symm⟩]

end Token

/-! ## The tokens of a statement -/

namespace Statement

/-- The parser yields something for every token, be it an error at the end. -/
theorem eq_nil_of_parseFrom {before : Option Pending} {tokens : List Token}
    (nothing : parseFrom before tokens = []) : before = none ∧ tokens = [] := by
  induction tokens generalizing before with
  | nil =>
    cases before with
    | none => exact ⟨rfl, rfl⟩
    | some p => cases nothing
  | cons t ts ih =>
    rw [parseFrom_cons] at nothing
    cases made : advance before t with
    | inl p =>
      rw [made] at nothing
      cases (ih nothing).1
    | inr item =>
      rw [made] at nothing
      cases nothing

/-- What begins a statement is not the name of a label. -/
theorem text_ne_of_start {t : Token} {name : String} (isName : isLabelName name)
    (good : ∀ e, start t ≠ .inr (.error e)) : t.text ≠ name := by
  rintro rfl
  exact good _ (start_name isName)

end Statement

/-- How many tokens there are to a statement, and where its operand comes from. -/
inductive SourceStatement.Spread (s : SourceStatement) : List Token → Prop where
  /-- there is one token, and no operand -/
  | alone {t : Token} (good : ∀ e, Statement.start t ≠ .inr (.error e))
    (none : s.statement.operands = []) : Spread s [t]
  /-- the token behind the first is read as the only operand -/
  | pair {head t : Token} {p : Pending} {operand : Operand} (begins : Statement.start head = .inl p)
    (read : Operand.parse t.text t.line = .ok operand) (one : s.statement.operands = [operand]) :
    Spread s [head, t]

namespace SourceStatement

/-- What the first token leaves behind is complete with one operand. -/
theorem Spread.of_pending {s : SourceStatement} {head : Token} {ts : List Token} {p : Pending}
    (begins : Statement.start head = .inl p)
    (last : ∀ operand, ∃ made, p.supply operand = .inr made ∧ made.operands = [operand])
    (parsed : Statement.parseFrom (some p) ts = [.ok s]) : s.Spread (head :: ts) := by
  cases ts with
  | nil => cases parsed
  | cons t ts =>
    rw [Statement.parseFrom_cons, Statement.advance, Pending.take] at parsed
    cases read : Operand.parse t.text t.line with
    | error e =>
      rw [read] at parsed
      cases parsed
    | ok operand =>
      obtain ⟨made, complete, one⟩ := last operand
      rw [read] at parsed
      simp only [complete, Sum.map_inr] at parsed
      obtain ⟨this, nothing⟩ := List.cons.inj parsed
      obtain ⟨-, rfl⟩ := Statement.eq_nil_of_parseFrom nothing
      cases this
      exact .pair begins read one

/-- There is nothing else that statements come from. -/
theorem ComesFrom.spread {s : SourceStatement} {tokens : List Token} (h : s.ComesFrom tokens) :
    s.Spread tokens := by
  obtain ⟨parsed, -⟩ := h
  cases tokens with
  | nil => cases parsed
  | cons head ts =>
    rw [Statement.parse, Statement.parseFrom_cons, Statement.advance] at parsed
    have view := Statement.started head
    cases begins : Statement.start head with
    | inr item =>
      rw [begins] at parsed view
      obtain ⟨rfl, nothing⟩ := List.cons.inj parsed
      obtain ⟨-, rfl⟩ := Statement.eq_nil_of_parseFrom nothing
      refine .alone (fun e bad => ?_) ?_
      · rw [begins] at bad
        cases bad
      · cases view <;> rfl
    | inl p =>
      rw [begins] at parsed view
      refine .of_pending begins (fun operand => ?_) parsed
      cases view with
      | data => exact ⟨_, rfl, rfl⟩
      | @waiting op takesSome =>
        obtain none | ⟨kind, one⟩ := op.operands_cases
        · exact absurd none takesSome
        · exact ⟨.instruction op [operand], by simp [Pending.supply, one], rfl⟩

end SourceStatement

/-! ## The first use of a name -/

/-- The token `ref` is the first to give the name, and it is the operand of the statement that the
token in front of it begins. -/
structure Token.FirstUse (tokens : List Token) (name : String) (head ref : Token) : Prop where
  /-- the token in front waits for an operand -/
  begins : ∃ p, Statement.start head = .inl p
  /-- the operand is the name -/
  text_eq : ref.text = name
  /-- the tokens before are others -/
  first : ∃ before after, tokens = before ++ head :: ref :: after ∧
    ∀ t ∈ before ++ [head], t.text ≠ name

section

variable {name : String}

/-- A statement that does not use a name has no token that gives it. -/
theorem SourceStatement.Spread.text_ne {s : SourceStatement} {tokens : List Token}
    (h : s.Spread tokens) (isName : isLabelName name)
    (unused : .label name ∉ s.statement.operands) : ∀ t ∈ tokens, t.text ≠ name := by
  cases h with
  | alone good _ => exact List.forall_mem_singleton.mpr (Statement.text_ne_of_start isName good)
  | @pair head t p operand begins read one =>
    have head_ne : head.text ≠ name := Statement.text_ne_of_start isName (by simp [begins])
    refine List.forall_mem_cons.mpr ⟨head_ne, List.forall_mem_singleton.mpr ?_⟩
    rintro rfl
    have named := (@Operand.parse_eq_label_iff _ t.line _).mpr ⟨rfl, isLabelName_iff.mp isName⟩
    rw [read] at named
    cases named
    exact unused (one ▸ List.mem_singleton_self _)

/-- The first statement that uses a name does so with the first token that gives it. -/
theorem Token.exists_firstUse_of_groups {done todo : List SourceStatement} {s : SourceStatement}
    {groups : List (List Token)} (isName : isLabelName name)
    (related : List.Forall₂ SourceStatement.ComesFrom (done ++ s :: todo) groups)
    (used : .label name ∈ s.statement.operands)
    (others : ∀ d ∈ done, .label name ∉ d.statement.operands) :
    ∃ head ref, FirstUse groups.flatten name head ref ∧ head.line = s.line := by
  induction done generalizing groups with
  | nil =>
    obtain ⟨group, groups, comes, -, rfl⟩ := List.forall₂_cons_left_iff.mp related
    have line := comes.line_eq
    cases comes.spread with
    | alone _ none =>
      rw [none] at used
      cases used
    | @pair head ref p operand begins read one =>
      rw [one, List.mem_singleton] at used
      obtain ⟨text, -⟩ := Operand.parse_eq_label_iff.mp (used ▸ read)
      have head_ne : head.text ≠ name := Statement.text_ne_of_start isName (by simp [begins])
      exact ⟨head, ref, ⟨⟨p, begins⟩, text.symm, [], groups.flatten, rfl,
        List.forall_mem_singleton.mpr head_ne⟩, Option.some.inj line⟩
  | cons d done ih =>
    obtain ⟨group, groups, comes, rest, rfl⟩ := List.forall₂_cons_left_iff.mp related
    obtain ⟨unused, others⟩ := List.forall_mem_cons.mp others
    obtain ⟨head, ref, ⟨begins, text, before, after, split, earlier⟩, line⟩ := ih rest others
    refine ⟨head, ref, ⟨begins, text, group ++ before, after, ?_, ?_⟩, line⟩
    · rw [List.flatten_cons, split, List.append_assoc]
    · rw [List.append_assoc]
      exact List.forall_mem_append.mpr ⟨comes.spread.text_ne isName unused, earlier⟩

end

/-! ## The second pass -/

theorem Statement.WellFormed.operands {s : Statement} (wf : s.WellFormed) :
    ∀ operand ∈ s.operands, operand.WellFormed := by
  cases s with
  | label name => exact fun _ none => by cases none
  | instruction op operands => exact wf.2
  | data operand => exact List.forall_mem_singleton.mpr wf

/-- The first pass gets through good statements only. -/
theorem SymbolTable.good_of_collectFrom {items : List Parsed} {address : Nat}
    {table symbols : SymbolTable} (collected : collectFrom address table items = .ok symbols) :
    ∃ statements : List SourceStatement, items = statements.map .ok := by
  induction items generalizing address table with
  | nil => exact ⟨[], rfl⟩
  | cons item rest ih =>
    cases item with
    | error e => cases collected
    | ok s =>
      have goesOn : ∃ address' table', collectFrom address' table' rest = .ok symbols := by
        obtain ⟨statement, line⟩ := s
        cases statement with
        | label name =>
          rw [collectFrom] at collected
          split at collected
          · cases collected
          · next table' _ => exact ⟨address, table', collected⟩
        | instruction op operands =>
          simp only [collectFrom] at collected
          split at collected
          · cases collected
          · exact ⟨_, table, collected⟩
        | data operand =>
          simp only [collectFrom] at collected
          split at collected
          · cases collected
          · exact ⟨_, table, collected⟩
      obtain ⟨_, _, later⟩ := goesOn
      obtain ⟨statements, rfl⟩ := ih later
      exact ⟨s :: statements, rfl⟩

section

variable {symbols : SymbolTable} {name : String} {line : Nat}

/-- It is the name that has no address, and the line is the one at hand. -/
theorem Operand.resolve_eq_undefined {operand : Operand} {here : Nat}
    (failed : operand.resolve symbols here = .error (.undefinedSymbol name line)) :
    operand = .label name ∧ here = line ∧ symbols.address? name = none := by
  cases operand with
  | literal w => cases failed
  | label name' =>
    rw [resolve] at failed
    split at failed
    · cases failed
    · next missing =>
      cases failed
      exact ⟨rfl, rfl, missing⟩

/-- The second pass stops at the first statement that uses a name without an address. -/
theorem exists_use_of_emitFrom {statements : List SourceStatement} {address : Nat}
    (failed : emitFrom symbols address (statements.map .ok) =
      .error (.undefinedSymbol name line)) :
    symbols.address? name = none ∧ ∃ done s todo, statements = done ++ s :: todo ∧
      s.line = line ∧ .label name ∈ s.statement.operands ∧
        ∀ d ∈ done, .label name ∉ d.statement.operands := by
  induction statements generalizing address with
  | nil => cases failed
  | cons s rest ih =>
    by_cases fits : address ≤ Word.greatest
    · have next := @failure?_emitFrom_cons symbols address fits s (rest.map .ok)
      have words := s.statement.failure?_words symbols s.line
      rw [List.map_cons] at failed
      rw [failure?_eq_some_iff.mpr failed] at next
      cases written : s.statement.words symbols s.line with
      | error e =>
        rw [written] at next words
        cases next
        obtain ⟨operand, mem, resolved⟩ := List.exists_of_findSome?_eq_some words.symm
        obtain ⟨rfl, here, missing⟩ :=
          Operand.resolve_eq_undefined (failure?_eq_some_iff.mp resolved)
        exact ⟨missing, [], s, rest, rfl, here, mem, fun _ none => by cases none⟩
      | ok ws =>
        rw [written] at next words
        obtain ⟨missing, done, s', todo, rfl, here, used, others⟩ :=
          ih (failure?_eq_some_iff.mp next.symm)
        refine ⟨missing, s :: done, s', todo, rfl, here, used, ?_⟩
        refine List.forall_mem_cons.mpr ⟨fun mem => ?_, others⟩
        have resolves := List.findSome?_eq_none_iff.mp words.symm _ mem
        simp only [Operand.resolve, missing] at resolves
        cases resolves
    · obtain ⟨statement, n⟩ := s
      simp only [List.map_cons, emitFrom, if_pos (Nat.lt_of_not_le fits)] at failed
      cases failed

end

/-! ## Errors of a source -/

section

variable {tokens : List Token} {name : String} {line : Nat}

/-- Nothing that the first pass refuses is a label without a definition. -/
theorem not_spoiled_undefined :
    ¬ Spoiled (Statement.parse tokens) (.undefinedSymbol name line) := by
  rintro ⟨split, -⟩
  have mem : .error (.undefinedSymbol name line) ∈ Statement.parse tokens :=
    split ▸ List.mem_append_right _ List.mem_cons_self
  obtain ⟨t, -, -, kind⟩ := Statement.exists_spoiler_of_mem_parse mem
  cases kind

/-- What is left for the second pass is a name that no statement before has used. -/
theorem Token.exists_firstUse
    (failed : Assembly.ofTokens tokens = .error (.undefinedSymbol name line)) :
    ∃ head ref, FirstUse tokens name head ref ∧ head.line = line := by
  cases collected : SymbolTable.collect tokens with
  | error e =>
    rw [Assembly.ofTokens, collected] at failed
    cases failed
    have nothing : SymbolTable.empty.definitions = definitions [] := rfl
    rcases SymbolTable.spoiled_of_collectFrom collected nothing .nil with spoiled | ⟨_, other⟩
    · exact absurd spoiled not_spoiled_undefined
    · cases other
  | ok symbols =>
    obtain ⟨statements, parsed⟩ := SymbolTable.good_of_collectFrom collected
    have emitted : failure? (emitFrom symbols 0 (statements.map .ok)) =
        some (.undefinedSymbol name line) := by
      rw [← failure?_eq_some_iff.mpr failed, ofTokens_of_collect collected, emit, parsed]
      exact (failure?_bind_pure _ _).symm
    obtain ⟨-, done, s, todo, rfl, rfl, used, others⟩ :=
      exists_use_of_emitFrom (failure?_eq_some_iff.mp emitted)
    obtain ⟨groups, rfl, related⟩ := Statement.exists_groups_of_parse parsed
    have mem : .ok s ∈ Statement.parse groups.flatten := by
      rw [parsed]
      exact List.mem_map_of_mem (List.mem_append_right _ List.mem_cons_self)
    have isName : isLabelName name := (Statement.wellFormed_of_mem_parse mem).operands _ used
    exact exists_firstUse_of_groups isName related used others

end

/-- **Where an error about a missing label points.** It points at the line of the statement with the
first use of the name, that is of the token in front of the first token that gives the name. Both
stand in the source. The name itself is found on this line just if the two stand on one line. -/
theorem undefined_pointed {files : FileTree} {source : Source} {name : String} {line : Nat}
    (failed : source.assemble files = .error (.undefinedSymbol name line)) :
    ∃ lines, source.lines files = .ok lines ∧
      ∃ tokens head ref, Token.TakenFrom lines tokens ∧ Token.FirstUse tokens name head ref ∧
        (head.line = line ∧ head.StandsIn lines) ∧ (line ≤ ref.line ∧ ref.StandsIn lines) ∧
          (Token.StandsIn lines ⟨name, line⟩ ↔ ref.line = line) := by
  obtain ⟨lines, shown, assembled⟩ := exists_lines_of_line? failed rfl
  obtain ⟨head, ref, use, rfl⟩ := Token.exists_firstUse assembled
  have taken := Token.takenFrom_ofLines lines
  obtain ⟨before, after, split, first⟩ := use.first
  have ordered := taken.ascending
  rw [split] at ordered
  obtain ⟨behind, later⟩ := List.pairwise_cons.mp (List.pairwise_append.mp ordered).2.1
  have notBefore : head.line ≤ ref.line := behind ref List.mem_cons_self
  have stands : ref.StandsIn lines := taken.standsIn (by simp [split])
  refine ⟨lines, shown, _, head, ref, taken, use, ⟨rfl, taken.standsIn (by simp [split])⟩,
    ⟨notBefore, stands⟩, fun shows => ?_, fun same => ?_⟩
  · -- a token that gives the name is this one or a later one
    have mem := taken.mem_of_standsIn shows
    rw [split, List.append_cons, List.mem_append, List.mem_cons] at mem
    rcases mem with early | here | late
    · exact absurd rfl (first _ early)
    · rw [← here]
    · have notAfter := (List.pairwise_cons.mp later).1 _ late
      exact Nat.le_antisymm notAfter notBefore
  · have this : ref = ⟨name, head.line⟩ := (Token.mk.injEq ..).mpr ⟨use.text_eq, same⟩
    exact this ▸ stands

/-- A source with an operand that is not on the line of its statement. -/
def straddling : String := "push\n\na"

theorem undefined_pointed_straddling :
    (Source.text straddling).assemble ⟨[], []⟩ = .error (.undefinedSymbol "a" 1) ∧
      ∃ tokens head ref, Token.TakenFrom ["push", "", "a"] tokens ∧
        Token.FirstUse tokens "a" head ref ∧ head.line = 1 ∧
          Token.StandsIn ["push", "", "a"] ref := by
  have failed : (Source.text straddling).assemble ⟨[], []⟩ = .error (.undefinedSymbol "a" 1) := by
    decide +kernel
  have cut : Text.lines straddling = ["push", "", "a"] := by decide +kernel
  obtain ⟨lines, shown, tokens, head, ref, taken, use, ⟨line, -⟩, ⟨-, stands⟩, -⟩ :=
    undefined_pointed failed
  obtain rfl := (Except.ok.inj shown).symm.trans cut
  exact ⟨failed, tokens, head, ref, taken, use, line, stands⟩

/-- The line that is pointed at need not show the name. -/
theorem undefined_not_shown : ¬ ∀ (files : FileTree) (source : Source) (lines : List String)
    (name : String) (line : Nat), source.assemble files = .error (.undefinedSymbol name line) →
      source.lines files = .ok lines → Token.StandsIn lines ⟨name, line⟩ := by
  intro shows
  have failed : (Source.text straddling).assemble ⟨[], []⟩ = .error (.undefinedSymbol "a" 1) := by
    decide +kernel
  have cut : (Source.text straddling).lines ⟨[], []⟩ = .ok ["push", "", "a"] := by decide +kernel
  have mem := (Token.takenFrom_ofLines _).mem_of_standsIn (shows _ _ _ _ _ failed cut)
  revert mem
  decide +kernel

end Stackwright
