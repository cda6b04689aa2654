import Mathlib.Data.List.Induction
import Stackwright.Proofs.Diagnosis
import Stackwright.Proofs.Passes

/-!
# When assembling fails

Both passes parse the source, and each could fail for many reasons. But the first pass meets all
that spoils the source and stops there, so the second is left with the labels that dangle; and
addresses do not run out before tokens do, as no statement has more words than tokens. So a source
assembles just if it is sound, and otherwise what is wrong with it is the error
(`ofTokens_outcome`).
-/

namespace Stackwright

/-! ## Words and tokens -/

/-- The number of words of a statement; a malformed one has none. -/
def Parsed.width : Parsed → Nat
  | .ok s => s.statement.width
  | .error _ => 0

/-- The number of words of all statements together. -/
def extent : List Parsed → Nat
  | [] => 0
  | item :: rest => item.width + extent rest

theorem extent_cons (item : Parsed) (items : List Parsed) :
    extent (item :: items) = item.width + extent items := rfl

theorem extent_singleton (item : Parsed) : extent [item] = item.width := rfl

theorem extent_append (before after : List Parsed) :
    extent (before ++ after) = extent before + extent after := by
  induction before with
  | nil => exact (Nat.zero_add _).symm
  | cons item before ih => rw [List.cons_append, extent, extent, ih, Nat.add_assoc]

/-- The number of tokens that went into a statement which still waits for operands. -/
def Pending.tokens (pending : Option Pending) : Nat :=
  pending.elim 0 fun p => 1 + p.taken.length

/-- A statement that waits has taken its first token. -/
theorem tokens_of_start_inl {head : Token} {p : Pending}
    (h : Statement.start head = .inl p) : Pending.tokens (some p) = 1 := by
  have view := Statement.started head
  rw [h] at view
  cases view with
  | data => rfl
  | waiting _ => rfl

/-- A statement of one token has one word at most. -/
theorem width_of_start_inr {head : Token} {item : Parsed}
    (h : Statement.start head = .inr item) : item.width ≤ 1 := by
  have view := Statement.started head
  rw [h] at view
  cases view with
  | label _ => exact Nat.zero_le 1
  | @complete op takesNone =>
    have one : op.width = 1 := congrArg (1 + ·.length) takesNone
    exact Nat.le_of_eq one
  | malformed _ => exact Nat.zero_le 1

/-- A token more is taken with an operand. -/
theorem tokens_of_supply_inl {p q : Pending} {operand : Operand}
    (h : p.supply operand = .inl q) : Pending.tokens (some q) = Pending.tokens (some p) + 1 := by
  have view := Pending.supplied p operand
  rw [h] at view
  cases view with
  | waiting _ _ => simp [Pending.tokens, Nat.add_assoc]

/-- A finished statement has no more words than tokens. -/
theorem width_of_supply_inr {p : Pending} {s : Statement} {operand : Operand}
    (h : p.supply operand = .inr s) : s.width ≤ Pending.tokens (some p) + 1 := by
  have view := Pending.supplied p operand
  rw [h] at view
  cases view with
  | data _ => exact Nat.le_add_left 1 _
  | complete _ last =>
    simp only [Statement.width, Opcode.width, Pending.tokens, Option.elim_some]
    omega

/-- A source has no more words than tokens, those of an unfinished statement included, which are
counted before its words are. -/
theorem extent_parseFrom_le (pending : Option Pending) (tokens : List Token) :
    extent (Statement.parseFrom pending tokens) ≤ Pending.tokens pending + tokens.length := by
  fun_induction Statement.parseFrom pending tokens with
  | case1 => exact Nat.le_refl 0
  | case2 p => exact Nat.zero_le _
  | case3 t ts p begun ih =>
    rw [tokens_of_start_inl begun] at ih
    simp only [List.length_cons]
    omega
  | case4 t ts item done ih =>
    have one := width_of_start_inr done
    simp only [extent_cons, List.length_cons] at ih ⊢
    omega
  | case5 p t ts e bad ih =>
    have none : Parsed.width (.error e) = 0 := rfl
    have first : Pending.tokens Option.none = 0 := rfl
    simp only [extent_cons, List.length_cons]
    omega
  | case6 p t ts operand good q unfinished ih =>
    rw [tokens_of_supply_inl unfinished] at ih
    simp only [List.length_cons]
    omega
  | case7 p t ts operand good s finished ih =>
    have words := width_of_supply_inr finished
    have width : Parsed.width (.ok ⟨s, p.head.line⟩) = s.width := rfl
    have first : Pending.tokens Option.none = 0 := rfl
    simp only [extent_cons, List.length_cons]
    omega

theorem extent_parse_le (tokens : List Token) :
    extent (Statement.parse tokens) ≤ tokens.length :=
  Nat.le_trans (extent_parseFrom_le none tokens) (Nat.le_of_eq (Nat.zero_add _))

/-! ## The first pass -/

namespace SymbolTable

variable {table : SymbolTable}

/-- The labels of a table, each with the line of its definition, in order. -/
def definitions (table : SymbolTable) : Bindings String Nat :=
  table.entries.map fun entry => (entry.1, entry.2.line)

theorem lookup_definitions (table : SymbolTable) (name : String) :
    table.definitions.lookup name = (table.find? name).map Symbol.line :=
  Bindings.lookup_map Symbol.line table.entries name

/-- The first pass goes on after a statement that defines no label again, and if the statement
is a label then the pass remembers it. -/
theorem collectFrom_good {address : Nat} {s : SourceStatement}
    (new : ∀ name line, s = ⟨.label name, line⟩ → table.definitions.lookup name = none)
    (fits : address + s.statement.width ≤ Word.greatest) :
    ∃ table' : SymbolTable,
      table'.definitions = table.definitions ++ Stackwright.definitions [s] ∧
        ∀ rest, collectFrom address table (.ok s :: rest) =
          collectFrom (address + s.statement.width) table' rest := by
  obtain ⟨statement, line⟩ := s
  cases statement with
  | label name =>
    have unbound : table.find? name = none := by
      have absent := new name line rfl
      rwa [lookup_definitions, Option.map_eq_none_iff] at absent
    refine ⟨⟨table.entries ++ [(name, ⟨Word.ofNat address, line⟩)]⟩, ?_, fun rest => ?_⟩
    · simp only [definitions, List.map_append]
      rfl
    · rw [collectFrom, insert_of_free unbound]
      rfl
  | instruction op operands =>
    refine ⟨table, (List.append_nil _).symm, fun rest => ?_⟩
    simp only [collectFrom]
    exact if_neg (Nat.not_lt.mpr fits)
  | data operand =>
    refine ⟨table, (List.append_nil _).symm, fun rest => ?_⟩
    simp only [collectFrom]
    exact if_neg (Nat.not_lt.mpr fits)

/-- The first pass goes on after good statements without a label twice, and it remembers their
labels. By induction on the last statement, since the labels in front of it decide about it. -/
theorem collectFrom_append {statements : List SourceStatement}
    (distinct : (Stackwright.definitions statements).keys.Nodup)
    (fits : extent (statements.map .ok) ≤ Word.greatest) :
    ∃ table : SymbolTable, table.definitions = Stackwright.definitions statements ∧
      ∀ rest, collectFrom 0 empty (statements.map .ok ++ rest) =
        collectFrom (extent (statements.map .ok)) table rest := by
  induction statements using List.reverseRecOn with
  | nil => exact ⟨empty, rfl, fun rest => rfl⟩
  | append_singleton before s ih =>
    obtain ⟨distinct, new⟩ := nodup_keys_definitions_append_iff.mp distinct
    simp only [List.map_append, List.map_singleton, extent_append, extent_singleton] at fits ⊢
    obtain ⟨table, same, goesOn⟩ := ih distinct (by omega)
    rw [← same] at new
    obtain ⟨table', more, next⟩ := collectFrom_good new fits
    refine ⟨table', ?_, fun rest => ?_⟩
    · rw [more, same, definitions_append]
    · rw [List.append_assoc, goesOn, List.singleton_append, next]
      rfl

variable {tokens : List Token}

/-- What spoils a source is the error of the first pass, which gets as far as the first bad
statement. -/
theorem collect_of_spoiled {e : AssemblyError}
    (fits : extent (Statement.parse tokens) ≤ Word.greatest)
    (spoiled : Spoiled (Statement.parse tokens) e) : collect tokens = .error e := by
  cases spoiled with
  | malformed split distinct =>
    simp only [split, extent_append] at fits
    obtain ⟨table, -, goesOn⟩ := collectFrom_append distinct (by omega)
    rw [collect, split, goesOn]
    rfl
  | redefined split distinct defined =>
    simp only [split, extent_append] at fits
    obtain ⟨table, same, goesOn⟩ := collectFrom_append distinct (by omega)
    rw [← same, lookup_definitions] at defined
    obtain ⟨previous, bound, rfl⟩ := Option.map_eq_some_iff.mp defined
    rw [collect, split, goesOn, collectFrom, insert_of_bound bound]

variable (short : tokens.length ≤ Word.greatest)

include short

/-- Good statements without a label twice get through the first pass. -/
theorem collect_good {statements : List SourceStatement}
    (good : Statement.parse tokens = statements.map .ok)
    (distinct : (Stackwright.definitions statements).keys.Nodup) :
    ∃ symbols, collect tokens = .ok symbols ∧
      symbols.definitions = Stackwright.definitions statements := by
  have fits := extent_parse_le tokens
  rw [good] at fits
  obtain ⟨symbols, same, goesOn⟩ := collectFrom_append distinct (Nat.le_trans fits short)
  refine ⟨symbols, ?_, same⟩
  have atEnd := goesOn []
  rw [List.append_nil] at atEnd
  rw [collect, good, atEnd]
  rfl

theorem collect_spoiled {e : AssemblyError} (spoiled : Spoiled (Statement.parse tokens) e) :
    collect tokens = .error e :=
  collect_of_spoiled (Nat.le_trans (extent_parse_le tokens) short) spoiled

end SymbolTable

/-! ## The second pass -/

variable {symbols : SymbolTable}

theorem SymbolTable.address?_eq_none_iff {name : String} :
    symbols.address? name = none ↔ name ∉ symbols.definitions.keys := by
  rw [← Bindings.lookup_eq_none_iff, lookup_definitions, address?, Option.map_eq_none_iff,
    Option.map_eq_none_iff]

/-- A label that is not in the table is the one thing that has no word. -/
theorem Operand.resolve_of_missing {name : String} (missing : name ∉ symbols.definitions.keys)
    (line : Nat) :
    (Operand.label name).resolve symbols line = .error (.undefinedSymbol name line) := by
  simp only [Operand.resolve, SymbolTable.address?_eq_none_iff.mpr missing]

theorem Operand.failure?_resolve_of_isBound {operand : Operand}
    (bound : operand.IsBound symbols.definitions.keys) (line : Nat) :
    failure? (operand.resolve symbols line) = none := by
  cases operand with
  | literal w => rfl
  | label name =>
    have some : symbols.address? name ≠ none :=
      fun missing => SymbolTable.address?_eq_none_iff.mp missing bound
    obtain ⟨address, found⟩ := Option.ne_none_iff_exists'.mp some
    simp only [Operand.resolve, found]
    rfl

/-- A statement fails as the first of its operands that does. -/
theorem Statement.failure?_words (symbols : SymbolTable) (s : Statement) (line : Nat) :
    failure? (s.words symbols line) =
      s.operands.findSome? fun operand => failure? (operand.resolve symbols line) := by
  cases s with
  | label name => rfl
  | instruction op operands =>
    rw [Statement.operands, ← failure?_mapM]
    exact failure?_bind_pure _ _
  | data operand =>
    rw [Statement.operands, List.findSome?_singleton]
    exact failure?_bind_pure _ _

/-- The second pass fails as the words of a statement do, or else as the rest does. -/
theorem failure?_emitFrom_cons {address : Nat} (fits : address ≤ Word.greatest)
    (s : SourceStatement) (rest : List Parsed) :
    failure? (emitFrom symbols address (.ok s :: rest)) =
      failure? (s.statement.words symbols s.line >>= fun words =>
        emitFrom symbols (address + words.length) rest) := by
  obtain ⟨statement, line⟩ := s
  simp only [emitFrom, if_neg (Nat.not_lt.mpr fits)]
  cases statement with
  | label name => rfl
  | instruction op operands =>
    cases Statement.words symbols line (.instruction op operands) with
    | error e => rfl
    | ok words => exact failure?_bind_pure _ _
  | data operand =>
    cases Statement.words symbols line (.data operand) with
    | error e => rfl
    | ok words => exact failure?_bind_pure _ _

theorem uses_cons (s : SourceStatement) (rest : List SourceStatement) :
    uses (s :: rest) = s.statement.operands.map (·, s.line) ++ uses rest :=
  List.flatMap_cons

/-- The second pass fails as the first operand that does. The check of the address never fires, as
the words up to it fit. -/
theorem failure?_emitFrom {statements : List SourceStatement} {address : Nat}
    (wf : ∀ s ∈ statements, s.statement.WellFormed)
    (fits : address + extent (statements.map .ok) ≤ Word.greatest) :
    failure? (emitFrom symbols address (statements.map .ok)) =
      (uses statements).findSome? fun use => failure? (use.1.resolve symbols use.2) := by
  induction statements generalizing address with
  | nil => rfl
  | cons s rest ih =>
    obtain ⟨here, later⟩ := List.forall_mem_cons.mp wf
    simp only [List.map_cons, extent_cons, Parsed.width] at fits ⊢
    have first : failure? (s.statement.words symbols s.line) =
        (s.statement.operands.map (·, s.line)).findSome? fun use =>
          failure? (use.1.resolve symbols use.2) := by
      rw [List.findSome?_map]
      exact s.statement.failure?_words symbols s.line
    rw [failure?_emitFrom_cons (by omega), uses_cons, List.findSome?_append, ← first]
    cases written : s.statement.words symbols s.line with
    | error e => rfl
    | ok words =>
      rw [← length_words here written] at fits
      exact ih later (by omega)

/-! ## Both passes -/

section Passes

variable {tokens : List Token} {e : AssemblyError}

/-- What the second pass makes of good statements. -/
theorem failure?_emit {statements : List SourceStatement} (short : tokens.length ≤ Word.greatest)
    (good : Statement.parse tokens = statements.map .ok) :
    failure? (emit tokens symbols) =
      (uses statements).findSome? fun use => failure? (use.1.resolve symbols use.2) := by
  have wf : ∀ s ∈ statements, s.statement.WellFormed := by
    intro s mem
    have yielded : .ok s ∈ Statement.parse tokens := by
      rw [good]
      exact List.mem_map_of_mem mem
    exact Statement.wellFormed_of_mem_parse yielded
  have fits : 0 + extent (statements.map .ok) ≤ Word.greatest := by
    rw [Nat.zero_add, ← good]
    exact Nat.le_trans (extent_parse_le tokens) short
  rw [emit, good, ← failure?_emitFrom wf fits]
  exact failure?_bind_pure _ _

/-- Assembling is the first pass and then the second one. -/
theorem ofTokens_of_collect (first : SymbolTable.collect tokens = .ok symbols) :
    failure? (Assembly.ofTokens tokens) = failure? (emit tokens symbols) := by
  rw [Assembly.ofTokens, first]
  exact failure?_bind_pure _ _

/-- A sound source assembles. -/
theorem ofTokens_of_sound (short : tokens.length ≤ Word.greatest)
    (sound : Sound (Statement.parse tokens)) :
    failure? (Assembly.ofTokens tokens) = none := by
  obtain ⟨statements, good, distinct, bound⟩ := sound
  obtain ⟨symbols, first, same⟩ := SymbolTable.collect_good short good distinct
  rw [ofTokens_of_collect first, failure?_emit short good, List.findSome?_eq_none_iff]
  intro use mem
  exact Operand.failure?_resolve_of_isBound (same ▸ bound use mem) use.2

/-- A source that is spoiled or dangles does not assemble. -/
theorem ofTokens_of_error (short : tokens.length ≤ Word.greatest)
    (bad : Spoiled (Statement.parse tokens) e ∨ Dangling (Statement.parse tokens) e) :
    failure? (Assembly.ofTokens tokens) = some e := by
  rcases bad with spoiled | ⟨good, distinct, split, earlier, missing⟩
  · rw [Assembly.ofTokens, SymbolTable.collect_spoiled short spoiled]
    rfl
  · obtain ⟨symbols, first, same⟩ := SymbolTable.collect_good short good distinct
    rw [ofTokens_of_collect first, failure?_emit short good, List.findSome?_eq_some_iff]
    refine ⟨_, _, _, split, ?_, fun use mem => ?_⟩
    · rw [← same] at missing
      exact failure?_eq_some_iff.mpr (Operand.resolve_of_missing missing _)
    · exact Operand.failure?_resolve_of_isBound (same ▸ earlier use mem) use.2

theorem ofTokens_eq_ok_iff_sound (short : tokens.length ≤ Word.greatest) :
    (∃ assembly, Assembly.ofTokens tokens = .ok assembly) ↔ Sound (Statement.parse tokens) := by
  rw [← failure?_eq_none_iff]
  refine ⟨fun succeeded => ?_, ofTokens_of_sound short⟩
  rcases sound_or_error (Statement.parse tokens) with sound | ⟨e, bad⟩
  · exact sound
  · rw [ofTokens_of_error short bad] at succeeded
    cases succeeded

theorem ofTokens_eq_error_iff (short : tokens.length ≤ Word.greatest) :
    Assembly.ofTokens tokens = .error e ↔
      Spoiled (Statement.parse tokens) e ∨ Dangling (Statement.parse tokens) e := by
  rw [← failure?_eq_some_iff]
  refine ⟨fun failed => ?_, ofTokens_of_error short⟩
  rcases sound_or_error (Statement.parse tokens) with sound | ⟨e', bad⟩
  · rw [ofTokens_of_sound short sound] at failed
    cases failed
  · rw [ofTokens_of_error short bad] at failed
    cases failed
    exact bad

end Passes

/-- **When assembling fails, and how.** If there are addresses for all tokens, then a source
assembles just if it is sound. Otherwise the error is that of the first statement that is malformed
or defines a label again, and if there is none, that of the first operand whose label is not
defined, which is all that the second pass can find wrong after the first. -/
theorem ofTokens_outcome {tokens : List Token} (short : tokens.length ≤ Word.greatest) :
    ((∃ assembly, Assembly.ofTokens tokens = .ok assembly) ↔ Sound (Statement.parse tokens)) ∧
      (∀ e, Assembly.ofTokens tokens = .error e ↔
        Spoiled (Statement.parse tokens) e ∨ Dangling (Statement.parse tokens) e) ∧
      ∀ symbols e, SymbolTable.collect tokens = .ok symbols → emit tokens symbols = .error e →
        ∃ name line, e = .undefinedSymbol name line := by
  refine ⟨ofTokens_eq_ok_iff_sound short, fun e => ofTokens_eq_error_iff short, ?_⟩
  intro symbols e first second
  have failed : failure? (Assembly.ofTokens tokens) = some e := by
    rw [ofTokens_of_collect first, second]
    rfl
  rcases (ofTokens_eq_error_iff short).mp (failure?_eq_some_iff.mp failed) with spoiled | dangling
  · rw [SymbolTable.collect_spoiled short spoiled] at first
    cases first
  · cases dangling
    exact ⟨_, _, rfl⟩

/-- A source with a label that is used and not defined, one that is defined twice, and a bad
literal, one after the other. -/
def threefold : List Token :=
  Token.ofLines 1 ["here: jmp there", "here: halt", "push 1x"]

theorem ofTokens_outcome_threefold :
    threefold.length ≤ Word.greatest ∧
      Spoiled (Statement.parse threefold) (.duplicateSymbol "here" 2 1) ∧
      Assembly.ofTokens threefold = .error (.duplicateSymbol "here" 2 1) ∧
      ¬ Sound (Statement.parse threefold) := by
  have short : threefold.length ≤ Word.greatest := by decide +kernel
  have split : Statement.parse threefold =
      List.map .ok [⟨.label "here", 1⟩, ⟨.instruction .jmp [.label "there"], 1⟩] ++
        .ok ⟨.label "here", 2⟩ ::
          [.ok ⟨.instruction .halt [], 2⟩, .error (.invalidOperand "1x" 3)] := by
    decide +kernel
  have spoiled : Spoiled (Statement.parse threefold) (.duplicateSymbol "here" 2 1) :=
    .redefined split (by decide +kernel) (by decide +kernel)
  obtain ⟨succeeds, fails, -⟩ := ofTokens_outcome short
  have failed := (fails _).mpr (.inl spoiled)
  refine ⟨short, spoiled, failed, fun sound => ?_⟩
  obtain ⟨assembly, assembled⟩ := succeeds.mpr sound
  rw [failed] at assembled
  cases assembled

end Stackwright
