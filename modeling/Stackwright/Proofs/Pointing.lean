import Stackwright.Proofs.Partition
import Stackwright.Proofs.Reading
import Stackwright.Proofs.Renaming

/-!
# What errors point at

An error about the syntax of a source, or about a label that is defined again, blames a token
(`AssemblyError.culprit?`). It knows the token by its text and by the line it stands on, and both
came a long way: through the statement that waited for the token, through the list of statements
and through the passes over it. They are still those of a token of the source, so it is found where
the error says it is (`errors_pointed`).

The second definition of a label comes with the line of the first. That the first definition is a
token as well, and the first of its kind, is shown by counting: in front of a statement there are
as many definitions among the tokens as there are among the statements (`exists_definitions`).
-/

namespace Stackwright

/-- The token that an error blames, if it blames one. -/
def AssemblyError.culprit? : AssemblyError → Option Token
  | unknownMnemonic name line | missingOperand name _ line => some ⟨name, line⟩
  | invalidLabel name line | duplicateSymbol name line _ => some ⟨name ++ ":", line⟩
  | invalidOperand text line | literalOutOfRange text line => some ⟨text, line⟩
  | _ => none

/-- An error points at the line of the token it blames. -/
theorem AssemblyError.line?_of_culprit? {e : AssemblyError} {t : Token}
    (culprit : e.culprit? = some t) : e.line? = some t.line := by
  cases e <;> cases culprit <;> rfl

/-! ## Malformed statements -/

/-- The error says that a statement is malformed, and that this token makes it so. -/
def Token.Spoils (t : Token) (e : AssemblyError) : Prop :=
  e.culprit? = some t ∧ e.kind = .malformedSource

namespace Statement

variable {t : Token} {e : AssemblyError}

theorem spoils_of_start (bad : start t = .inr (.error e)) : t.Spoils e := by
  unfold start at bad
  split at bad
  · next name definition =>
    rw [labelDefinition?_eq_some_iff] at definition
    split at bad
    · cases bad
    · cases bad
      exact ⟨by rw [AssemblyError.culprit?, ← definition], rfl⟩
  · split at bad
    · cases bad
    · split at bad
      · cases bad
        exact ⟨rfl, rfl⟩
      · split at bad <;> cases bad

theorem spoils_of_parse (bad : Operand.parse t.text t.line = .error e) : t.Spoils e := by
  have view := Operand.reads t.text t.line
  rw [bad] at view
  cases view with
  | outOfRange => exact ⟨rfl, rfl⟩
  | invalid => exact ⟨rfl, rfl⟩

theorem spoils_of_advance {before : Option Pending}
    (bad : advance before t = .inr (.error e)) : t.Spoils e := by
  cases before with
  | none => exact spoils_of_start bad
  | some p =>
    rw [advance, Pending.take] at bad
    cases read : Operand.parse t.text t.line with
    | error e' =>
      rw [read] at bad
      cases bad
      exact spoils_of_parse read
    | ok operand =>
      rw [read] at bad
      dsimp only at bad
      cases made : p.supply operand <;> rw [made] at bad <;> cases bad

/-- The token that spoils a statement is one of those that are parsed, or it is the first token of
the statement that waits for operands. -/
theorem exists_spoiler_of_mem_parseFrom {before : Option Pending} {tokens : List Token}
    (mem : .error e ∈ parseFrom before tokens) :
    ∃ t ∈ (before.map (·.head)).toList ++ tokens, t.Spoils e := by
  induction tokens generalizing before with
  | nil =>
    cases before with
    | none => cases mem
    | some p =>
      obtain rfl : e = p.missing := Except.error.inj (List.mem_singleton.mp mem)
      exact ⟨p.head, List.mem_cons_self, rfl, rfl⟩
  | cons t ts ih =>
    have back := goesBackTo_advance before t
    rw [parseFrom_cons] at mem
    cases made : advance before t with
    | inl p =>
      rw [made] at mem back
      obtain ⟨blamed, found, spoils⟩ := ih mem
      refine ⟨blamed, ?_, spoils⟩
      rcases List.mem_cons.mp found with head | later
      · -- the statement began with this token, or it was there before
        have first : blamed = (before.map (·.head)).getD t := head.trans back
        rw [first]
        cases before with
        | none => exact List.mem_cons_self
        | some q => exact List.mem_cons_self
      · exact List.mem_append_right _ (List.mem_cons_of_mem _ later)
    | inr item =>
      rw [made] at mem
      rcases List.mem_cons.mp mem with here | later
      · rw [← here] at made
        exact ⟨t, List.mem_append_right _ List.mem_cons_self, spoils_of_advance made⟩
      · obtain ⟨blamed, found, spoils⟩ := ih later
        exact ⟨blamed, List.mem_append_right _ (List.mem_cons_of_mem _ found), spoils⟩

/-- A malformed statement is so because of one of the tokens. -/
theorem exists_spoiler_of_mem_parse {tokens : List Token} (mem : .error e ∈ parse tokens) :
    ∃ t ∈ tokens, t.Spoils e :=
  exists_spoiler_of_mem_parseFrom mem

end Statement

/-! ## Definitions -/

/-- The label that a token defines, with its line. -/
def Token.definition? (t : Token) : Option (String × Nat) :=
  ((Statement.labelDefinition? t.text).filter isLabelName).map (·, t.line)

theorem Token.definition?_eq_some_iff {t : Token} {name : String} {line : Nat} :
    t.definition? = some (name, line) ↔ t = ⟨name ++ ":", line⟩ ∧ isLabelName name := by
  obtain ⟨text, n⟩ := t
  simp only [definition?, Option.map_eq_some_iff, Option.filter_eq_some_iff, Token.mk.injEq,
    Statement.labelDefinition?_eq_some_iff, Prod.mk.injEq]
  constructor
  · rintro ⟨name, ⟨rfl, isName⟩, rfl, rfl⟩
    exact ⟨⟨rfl, rfl⟩, isName⟩
  · rintro ⟨⟨rfl, rfl⟩, isName⟩
    exact ⟨name, ⟨rfl, isName⟩, rfl, rfl⟩

/-- What can be read as an operand defines no label. -/
theorem Token.definition?_of_parse {t : Token} {operand : Operand}
    (read : Operand.parse t.text t.line = .ok operand) : t.definition? = none := by
  rw [Option.eq_none_iff_forall_ne_some]
  rintro ⟨name, line⟩ definition
  obtain ⟨rfl, isName⟩ := definition?_eq_some_iff.mp definition
  rw [Operand.parse_definition isName] at read
  cases read

namespace Statement

/-- What a token leaves behind or yields defines the same label as the token. -/
def DefinesAs (t : Token) : Pending ⊕ Parsed → Prop
  | .inl _ => t.definition? = none
  | .inr (.ok s) => t.definition? = s.definition?
  | .inr (.error _) => True

theorem definesAs_start (t : Token) : DefinesAs t (start t) := by
  unfold start
  split
  · next name definition =>
    split
    · next isName => simp [DefinesAs, Token.definition?, definition, isName,
        SourceStatement.definition?]
    · trivial
  · next noDefinition =>
    have none : t.definition? = none := by simp [Token.definition?, noDefinition]
    split
    · exact none
    · split
      · trivial
      · split
        · exact none
        · exact none

theorem definesAs_advance (before : Option Pending) (t : Token) :
    DefinesAs t (advance before t) := by
  cases before with
  | none => exact definesAs_start t
  | some p =>
    rw [advance, Pending.take]
    cases read : Operand.parse t.text t.line with
    | error e => trivial
    | ok operand =>
      have none := Token.definition?_of_parse read
      have view := Pending.supplied p operand
      dsimp only
      generalize p.supply operand = made at view ⊢
      cases view with
      | data _ => exact none
      | waiting _ _ => exact none
      | complete _ _ => exact none

/-- The tokens of good statements define the labels that the statements define. -/
theorem exists_definitions {before : Option Pending} {tokens : List Token}
    {statements : List SourceStatement} {rest : List Parsed}
    (parsed : parseFrom before tokens = statements.map .ok ++ rest) :
    ∃ done todo, tokens = done ++ todo ∧
      done.filterMap Token.definition? = definitions statements := by
  induction tokens generalizing before statements with
  | nil =>
    refine ⟨[], [], rfl, ?_⟩
    cases statements with
    | nil => rfl
    | cons s statements => cases before <;> cases parsed
  | cons t ts ih =>
    cases statements with
    | nil => exact ⟨[], t :: ts, rfl, rfl⟩
    | cons s statements =>
      have same := definesAs_advance before t
      rw [parseFrom_cons] at parsed
      generalize advance before t = made at parsed same
      cases made with
      | inl p =>
        obtain ⟨done, todo, rfl, defined⟩ := ih parsed
        refine ⟨t :: done, todo, rfl, ?_⟩
        rw [List.filterMap_cons_none same, defined]
      | inr item =>
        obtain ⟨rfl, later⟩ := List.cons.inj parsed
        obtain ⟨done, todo, rfl, defined⟩ := ih later
        refine ⟨t :: done, todo, rfl, ?_⟩
        rw [definitions, List.filterMap_cons, List.filterMap_cons, defined,
          show t.definition? = s.definition? from same]
        rfl

end Statement

/-! ## The passes -/

/-- What the first pass refuses spoils the source, if it is not that addresses run out. By induction
on the statements, each of which moves over to those before when it is passed. -/
theorem SymbolTable.spoiled_of_collectFrom {items : List Parsed} {address : Nat}
    {table : SymbolTable} {e : AssemblyError} (failed : collectFrom address table items = .error e)
    {before : List SourceStatement} (same : table.definitions = Stackwright.definitions before)
    (distinct : (Stackwright.definitions before).keys.Nodup) :
    Spoiled (before.map .ok ++ items) e ∨ ∃ line, e = .addressOverflow line := by
  induction items generalizing address table before with
  | nil => cases failed
  | cons item rest ih =>
    cases item with
    | error e' =>
      cases failed
      exact .inl (.malformed rfl distinct)
    | ok s =>
      have goesOn : ∀ {address} {table' : SymbolTable},
          collectFrom address table' rest = .error e →
          table'.definitions = table.definitions ++ Stackwright.definitions [s] →
          (∀ name line, s = ⟨.label name, line⟩ →
            (Stackwright.definitions before).lookup name = none) →
          Spoiled (before.map .ok ++ .ok s :: rest) e ∨ ∃ line, e = .addressOverflow line := by
        intro address table' failed more new
        rw [same, ← definitions_append] at more
        have later := ih failed more (nodup_keys_definitions_append_iff.mpr ⟨distinct, new⟩)
        rwa [List.map_append, List.map_singleton, List.append_assoc] at later
      obtain ⟨statement, line⟩ := s
      cases statement with
      | label name =>
        rw [collectFrom] at failed
        cases bound : insert name (Word.ofNat address) line table with
        | error e' table' =>
          rw [bound] at failed
          cases failed
          obtain ⟨-, previous, found, rfl⟩ := insert_eq_error_iff.mp bound
          refine .inl (.redefined rfl distinct ?_)
          rw [← same, lookup_definitions, found]
          rfl
        | ok _ table' =>
          rw [bound] at failed
          obtain ⟨absent, more⟩ := entries_of_insert_eq_ok bound
          refine goesOn failed ?_ ?_
          · rw [definitions, more, List.map_append]
            rfl
          · rintro _ _ ⟨⟩
            rw [← same, lookup_definitions, absent]
            rfl
      | instruction op operands =>
        simp only [collectFrom] at failed
        split at failed
        · cases failed
          exact .inr ⟨line, rfl⟩
        · exact goesOn failed (List.append_nil _).symm fun _ _ other => by cases other
      | data operand =>
        simp only [collectFrom] at failed
        split at failed
        · cases failed
          exact .inr ⟨line, rfl⟩
        · exact goesOn failed (List.append_nil _).symm fun _ _ other => by cases other

theorem Operand.resolve_eq_error {symbols : SymbolTable} {line : Nat} {operand : Operand}
    {e : AssemblyError} (failed : operand.resolve symbols line = .error e) :
    e.culprit? = none := by
  cases operand with
  | literal w => cases failed
  | label name =>
    rw [resolve] at failed
    split at failed <;> cases failed
    rfl

theorem Statement.culprit_of_words {symbols : SymbolTable} {s : Statement} {line : Nat}
    {e : AssemblyError} (failed : s.words symbols line = .error e) : e.culprit? = none := by
  have first := s.failure?_words symbols line
  rw [failure?_eq_some_iff.mpr failed] at first
  obtain ⟨operand, -, resolved⟩ := List.exists_of_findSome?_eq_some first.symm
  exact Operand.resolve_eq_error (failure?_eq_some_iff.mp resolved)

/-- The second pass blames no token unless a statement is malformed. -/
theorem culprit_of_emitFrom {symbols : SymbolTable} {items : List Parsed} {address : Nat}
    {e : AssemblyError} (failed : emitFrom symbols address items = .error e) :
    .error e ∈ items ∨ e.culprit? = none := by
  induction items generalizing address with
  | nil => cases failed
  | cons item rest ih =>
    cases item with
    | error e' =>
      cases failed
      exact .inl List.mem_cons_self
    | ok s =>
      by_cases fits : address ≤ Word.greatest
      · have next := @failure?_emitFrom_cons symbols address fits s rest
        rw [failure?_eq_some_iff.mpr failed] at next
        cases written : s.statement.words symbols s.line with
        | error e' =>
          rw [written] at next
          cases next
          exact .inr (Statement.culprit_of_words written)
        | ok words =>
          rw [written] at next
          rcases ih (failure?_eq_some_iff.mp next.symm) with mem | none
          · exact .inl (List.mem_cons_of_mem _ mem)
          · exact .inr none
      · obtain ⟨statement, line⟩ := s
        simp only [emitFrom, if_pos (Nat.lt_of_not_le fits)] at failed
        cases failed
        exact .inr rfl

/-! ## Labels that are defined again -/

/-- Among the tokens a label is defined on one line for the first time, and on another line for
the second time. -/
def Token.DefinesTwice (tokens : List Token) (name : String) (first line : Nat) : Prop :=
  ∃ before between after,
    tokens = before ++ ⟨name ++ ":", first⟩ :: (between ++ ⟨name ++ ":", line⟩ :: after) ∧
      ∀ t ∈ before ++ between, t.text ≠ name ++ ":"

/-- The first entry for a key has no other in front of it, and there is none behind it if the keys
are apart. -/
theorem Bindings.exists_split_of_lookup {κ β : Type} [BEq κ] [LawfulBEq κ]
    {bindings : Bindings κ β} {key : κ} {value : β} (distinct : bindings.keys.Nodup)
    (found : bindings.lookup key = some value) :
    ∃ before after, bindings = before ++ (key, value) :: after ∧
      ∀ entry ∈ before ++ after, entry.1 ≠ key := by
  obtain ⟨before, after, rfl⟩ := List.append_of_mem (Bindings.mem_of_lookup found)
  refine ⟨before, after, rfl, fun entry mem same => ?_⟩
  unfold keys at distinct
  rw [List.map_append, List.map_cons, List.nodup_middle, List.nodup_cons,
    ← List.map_append, ← same] at distinct
  have key : entry.1 ∈ (before ++ after).map Prod.fst := List.mem_map_of_mem mem
  exact distinct.1 key

section

variable {tokens : List Token} {name : String} {first line : Nat}

/-- If no other of the definitions is one of this label, then no other of the tokens is. -/
theorem Token.text_ne_of_filterMap {entries : List (String × Nat)} (isName : isLabelName name)
    (defined : tokens.filterMap definition? = entries)
    (others : ∀ entry ∈ entries, entry.1 ≠ name) :
    ∀ t ∈ tokens, t.text ≠ name ++ ":" := by
  rintro ⟨text, line⟩ mem rfl
  have definition : definition? ⟨name ++ ":", line⟩ = some (name, line) :=
    definition?_eq_some_iff.mpr ⟨rfl, isName⟩
  exact others (name, line) (defined ▸ List.mem_filterMap.mpr ⟨_, mem, definition⟩) rfl

theorem Token.definesTwice_of_filterMap {before between : List (String × Nat)}
    (defined : tokens.filterMap definition? =
      before ++ (name, first) :: (between ++ [(name, line)]))
    (others : ∀ entry ∈ before ++ between, entry.1 ≠ name) :
    DefinesTwice tokens name first line := by
  obtain ⟨ts₁, rest₁, rfl, defined₁, later⟩ := List.filterMap_eq_append_iff.mp defined
  obtain ⟨gap₁, t₁, rest₂, rfl, none₁, here₁, later⟩ := List.filterMap_eq_cons_iff.mp later
  obtain ⟨ts₂, rest₃, rfl, defined₂, later⟩ := List.filterMap_eq_append_iff.mp later
  obtain ⟨gap₂, t₂, after, rfl, none₂, here₂, -⟩ := List.filterMap_eq_cons_iff.mp later
  obtain ⟨rfl, isName⟩ := definition?_eq_some_iff.mp here₁
  obtain ⟨rfl, -⟩ := definition?_eq_some_iff.mp here₂
  refine ⟨ts₁ ++ gap₁, ts₂ ++ gap₂, after, by simp only [List.append_assoc], ?_⟩
  refine text_ne_of_filterMap isName ?_ others
  rw [List.filterMap_append, List.filterMap_append, List.filterMap_append, defined₁, defined₂,
    List.filterMap_eq_nil_iff.mpr none₁, List.filterMap_eq_nil_iff.mpr none₂, List.append_nil,
    List.append_nil]

/-- What the first pass refuses as a definition is one, and so is the definition that it was
refused for. -/
theorem Token.definesTwice_of_spoiled
    (spoiled : Spoiled (Statement.parse tokens) (.duplicateSymbol name line first)) :
    DefinesTwice tokens name first line := by
  generalize error : AssemblyError.duplicateSymbol name line first = e at spoiled
  cases spoiled with
  | malformed split distinct =>
    have mem : .error e ∈ Statement.parse tokens :=
      split ▸ List.mem_append_right _ List.mem_cons_self
    obtain ⟨t, -, -, malformed⟩ := Statement.exists_spoiler_of_mem_parse mem
    rw [← error] at malformed
    cases malformed
  | @redefined before name line first after split distinct found =>
    cases error
    have whole : Statement.parse tokens =
        (before ++ [(⟨.label name, line⟩ : SourceStatement)]).map .ok ++ after := by
      rw [split, List.map_append, List.append_assoc]
      rfl
    obtain ⟨done, todo, rfl, defined⟩ := Statement.exists_definitions whole
    obtain ⟨earlier, between, entries, others⟩ := Bindings.exists_split_of_lookup distinct found
    rw [definitions_append, entries, List.append_assoc, List.cons_append] at defined
    obtain ⟨ts, gap, rest, rfl, different⟩ := definesTwice_of_filterMap defined others
    exact ⟨ts, gap, rest ++ todo, by simp only [List.append_assoc, List.cons_append], different⟩

end

/-! ## Errors of a source -/

section

variable {tokens : List Token} {e : AssemblyError}

/-- What goes wrong with a source spoils it, or no token is to blame. -/
theorem spoiled_of_ofTokens (failed : Assembly.ofTokens tokens = .error e) :
    Spoiled (Statement.parse tokens) e ∨ .error e ∈ Statement.parse tokens ∨
      e.culprit? = none := by
  rw [Assembly.ofTokens] at failed
  cases collected : SymbolTable.collect tokens with
  | error e' =>
    rw [collected] at failed
    cases failed
    have nothing : SymbolTable.empty.definitions = definitions [] := rfl
    rcases SymbolTable.spoiled_of_collectFrom collected nothing .nil with spoiled | ⟨line, rfl⟩
    · exact .inl spoiled
    · exact .inr (.inr rfl)
  | ok symbols =>
    rw [collected] at failed
    cases emitted : emitFrom symbols 0 (Statement.parse tokens) with
    | error e' =>
      simp only [bind, Except.bind, emit, emitted, Except.error.injEq] at failed
      subst failed
      exact .inr (culprit_of_emitFrom emitted)
    | ok emitted' =>
      simp only [bind, Except.bind, emit, emitted] at failed
      cases failed

/-- A token that an error of a source blames is a token of the source. -/
theorem mem_of_culprit {t : Token} (failed : Assembly.ofTokens tokens = .error e)
    (culprit : e.culprit? = some t) : t ∈ tokens := by
  have ofItem : .error e ∈ Statement.parse tokens → t ∈ tokens := by
    intro mem
    obtain ⟨spoiler, found, same, -⟩ := Statement.exists_spoiler_of_mem_parse mem
    rw [culprit] at same
    cases same
    exact found
  rcases spoiled_of_ofTokens failed with spoiled | mem | none
  · cases spoiled with
    | malformed split distinct => exact ofItem (split ▸ List.mem_append_right _ List.mem_cons_self)
    | redefined split distinct defined =>
      obtain ⟨before, between, after, rfl, -⟩ :=
        Token.definesTwice_of_spoiled (.redefined split distinct defined)
      cases culprit
      simp
  · exact ofItem mem
  · rw [culprit] at none
    cases none

end

/-- No line is pointed at if a source cannot be read. -/
theorem line?_of_tokenize {files : FileTree} {source : Source} {e : AssemblyError}
    (failed : source.feed files >>= tokenize = .error e) : e.line? = none := by
  cases fed : source.feed files with
  | error e' =>
    rw [fed] at failed
    cases failed
    unfold Source.feed at fed
    split at fed
    · cases fed
    · split at fed
      · cases fed
        rfl
      · cases fed
  | ok feed =>
    rw [fed] at failed
    obtain ⟨lines, _ | e'⟩ := feed
    · cases failed
    · cases failed
      rfl

/-- If a line is pointed at, then the source could be read. -/
theorem exists_lines_of_line? {files : FileTree} {source : Source} {e : AssemblyError} {n : Nat}
    (failed : source.assemble files = .error e) (pointed : e.line? = some n) :
    ∃ lines, source.lines files = .ok lines ∧
      Assembly.ofTokens (Token.ofLines 1 lines) = .error e := by
  rw [Source.assemble_eq] at failed
  cases read : source.feed files >>= tokenize with
  | ok tokens =>
    obtain ⟨lines, shown, rfl⟩ := Source.tokenize_eq_ok_iff.mp read
    rw [read] at failed
    exact ⟨lines, shown, failed⟩
  | error e' =>
    rw [read] at failed
    cases failed
    rw [line?_of_tokenize read] at pointed
    cases pointed

/-- If a token is to blame, then the source could be read. -/
theorem exists_lines_of_culprit {files : FileTree} {source : Source} {e : AssemblyError} {t : Token}
    (failed : source.assemble files = .error e) (culprit : e.culprit? = some t) :
    ∃ lines, source.lines files = .ok lines ∧
      Assembly.ofTokens (Token.ofLines 1 lines) = .error e :=
  exists_lines_of_line? failed (AssemblyError.line?_of_culprit? culprit)

/-- **Errors point at what is wrong.** An error that blames a token points at the line of the source
on which this token stands, comments aside. If a label is defined again, then what is blamed is the
second token that defines it, and the other line it comes with is that of the first. -/
theorem errors_pointed {files : FileTree} {source : Source} {e : AssemblyError} {t : Token}
    (failed : source.assemble files = .error e) (culprit : e.culprit? = some t) :
    ∃ lines, source.lines files = .ok lines ∧
      (e.line? = some t.line ∧ 1 ≤ t.line ∧ t.line ≤ lines.length ∧ t.StandsIn lines) ∧
      ∀ name line first, e = .duplicateSymbol name line first →
        first ≤ line ∧ Token.StandsIn lines ⟨name ++ ":", first⟩ ∧
          ∃ tokens, Token.TakenFrom lines tokens ∧ Token.DefinesTwice tokens name first line := by
  obtain ⟨lines, shown, assembled⟩ := exists_lines_of_culprit failed culprit
  have taken := Token.takenFrom_ofLines lines
  have mem := mem_of_culprit assembled culprit
  obtain ⟨first, last⟩ := taken.inside t mem
  have reported := AssemblyError.line?_of_culprit? culprit
  refine ⟨lines, shown, ⟨reported, first, last, taken.standsIn mem⟩, ?_⟩
  rintro name line first rfl
  have twice : Token.DefinesTwice (Token.ofLines 1 lines) name first line := by
    rcases spoiled_of_ofTokens assembled with spoiled | malformed | none
    · exact Token.definesTwice_of_spoiled spoiled
    · obtain ⟨-, -, -, kind⟩ := Statement.exists_spoiler_of_mem_parse malformed
      cases kind
    · cases none
  refine ⟨?_, ?_, _, taken, twice⟩
  · obtain ⟨before, between, after, split, -⟩ := twice
    have ordered := taken.ascending
    rw [split] at ordered
    have behind : ⟨name ++ ":", line⟩ ∈ between ++ ⟨name ++ ":", line⟩ :: after :=
      List.mem_append_right _ List.mem_cons_self
    exact List.rel_of_pairwise_cons (List.pairwise_append.mp ordered).2.1 behind
  · obtain ⟨before, between, after, split, -⟩ := twice
    exact taken.standsIn (split ▸ List.mem_append_right _ List.mem_cons_self)

/-- A source that defines a label twice, and names it in between. -/
def doubled : String := "go: push\r\n\tgo ; go:\n\nhalt go:"

theorem errors_pointed_doubled :
    (Source.text doubled).assemble ⟨[], []⟩ = .error (.duplicateSymbol "go" 4 1) ∧
      (Source.text doubled).lines ⟨[], []⟩ = .ok ["go: push", "\tgo ; go:", "", "halt go:"] ∧
      Token.StandsIn ["go: push", "\tgo ; go:", "", "halt go:"] ⟨"go:", 4⟩ ∧
      Token.StandsIn ["go: push", "\tgo ; go:", "", "halt go:"] ⟨"go:", 1⟩ := by
  have failed : (Source.text doubled).assemble ⟨[], []⟩ = .error (.duplicateSymbol "go" 4 1) := by
    decide +kernel
  have cut : Text.lines doubled = ["go: push", "\tgo ; go:", "", "halt go:"] := by decide +kernel
  obtain ⟨lines, shown, ⟨-, -, -, second⟩, again⟩ := errors_pointed failed rfl
  obtain rfl := (Except.ok.inj shown).symm.trans cut
  exact ⟨failed, shown, second, (again "go" 4 1 rfl).2.1⟩

end Stackwright
