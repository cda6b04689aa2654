import Mathlib.Data.Set.Function
import Stackwright.Proofs.Labels
import Stackwright.Proofs.Outcome
import Stackwright.Proofs.Parsing
import Stackwright.Proofs.RoundTrip

/-!
# Renaming labels

Labels may have any names. If those that a source defines are given other ones throughout, and no
two the same, then the program and the line map stay as they are, and so does the symbol table but
for the names. If two get the same name, then the second of them is reported (`ofTokens_rename`).

What this rests on is that the parser knows the names of labels from all else that a token can be,
before and after they are exchanged. So renaming tokens is renaming statements, good and bad ones
(`Renames.translates`), and the words of a statement do not depend on the names in it
(`Piece.Written.rename`).
-/

namespace Stackwright

open Layout

/-! ## Other names -/

/-- Names of labels become names of labels again, and nothing else is exchanged. -/
structure Renames (g : String → String) : Prop where
  /-- the name of a label becomes the name of a label -/
  isLabelName_map : ∀ {name}, isLabelName name → isLabelName (g name)
  /-- what is not the name of a label stays -/
  eq_self : ∀ {name}, ¬ isLabelName name → g name = name

/-- The text of a token with another name in it, whether it defines a label or names it. -/
def Token.renameText (g : String → String) (text : String) : String :=
  match Statement.labelDefinition? text with
  | some name => g name ++ ":"
  | none => g text

/-- The token with another name in it. -/
def Token.rename (g : String → String) (t : Token) : Token :=
  { t with text := renameText g t.text }

/-- The operand with another name in it. -/
def Operand.rename (g : String → String) : Operand → Operand
  | literal value => literal value
  | label name => label (g name)

/-- The statement with other names in it. -/
def Statement.rename (g : String → String) : Statement → Statement
  | label name => label (g name)
  | instruction op operands => instruction op (operands.map (Operand.rename g))
  | data operand => data (operand.rename g)

/-- The statement with other names in it, on its line. -/
def SourceStatement.rename (g : String → String) (s : SourceStatement) : SourceStatement :=
  { s with statement := s.statement.rename g }

/-- The unfinished statement with other names in it. -/
def Pending.rename (g : String → String) (p : Pending) : Pending :=
  { p with taken := p.taken.map (Operand.rename g) }

/-- The error of the parser, if it blames a token that has another name in it now. -/
def AssemblyError.rename (g : String → String) : AssemblyError → AssemblyError
  | unknownMnemonic name line => unknownMnemonic (Token.renameText g name) line
  | invalidOperand text line => invalidOperand (Token.renameText g text) line
  | e => e

/-- The table with its labels under other names. -/
def SymbolTable.rename (g : String → String) (table : SymbolTable) : SymbolTable :=
  ⟨table.entries.map fun entry => (g entry.1, entry.2)⟩

/-- The new name of a label that the table has. Any other name stays. -/
def SymbolTable.relabel (table : SymbolTable) (f : String → String) (name : String) : String :=
  if name ∈ table.entries.keys then f name else name

/-! ## Parsing -/

namespace Token

theorem colon_not_mem {name : String} (h : isLabelName name) : ':' ∉ name.toList := by
  obtain ⟨c, cs, shape, first, others⟩ := exists_of_isLabelName h
  rw [shape, List.mem_cons, not_or]
  constructor
  · rintro rfl
    revert first
    decide
  · intro mem
    have bad := others ':' mem
    revert bad
    decide

end Token

namespace Statement

variable {text name : String}

theorem labelDefinition?_eq_some_iff : labelDefinition? text = some name ↔ text = name ++ ":" := by
  constructor
  · intro h
    unfold labelDefinition? at h
    dsimp only at h
    split at h
    · next last =>
      obtain ⟨cs, shape⟩ := List.getLast?_eq_some_iff.mp last
      cases h
      rw [← String.toList_inj, String.toList_append, String.toList_ofList, shape,
        List.dropLast_concat]
      rfl
    · cases h
  · rintro rfl
    exact labelDefinition?_append_colon name

/-- The name of a label does not define one. -/
theorem labelDefinition?_of_isLabelName (h : isLabelName name) : labelDefinition? name = none := by
  rw [Option.eq_none_iff_forall_ne_some]
  intro inner definition
  apply Token.colon_not_mem h
  rw [labelDefinition?_eq_some_iff.mp definition, String.toList_append]
  exact List.mem_append_right _ (List.mem_singleton.mpr rfl)

end Statement

/-- What a token has to do with labels. -/
inductive Token.Kind : String → Prop where
  /-- it names one -/
  | name {text : String} (isName : isLabelName text) : Kind text
  /-- it defines one -/
  | definition {name : String} (isName : isLabelName name) : Kind (name ++ ":")
  /-- nothing -/
  | other {text : String} (noName : ¬ isLabelName text)
    (noDefinition : ∀ name, Statement.labelDefinition? text = some name → ¬ isLabelName name) :
    Kind text

theorem Token.kind (text : String) : Kind text := by
  by_cases isName : isLabelName text
  · exact .name isName
  · cases definition : Statement.labelDefinition? text with
    | none => exact .other isName (by simp [definition])
    | some name =>
      by_cases isName' : isLabelName name
      · rw [Statement.labelDefinition?_eq_some_iff.mp definition]
        exact .definition isName'
      · exact .other isName (by simpa [definition] using isName')

/-- A definition is no operand. -/
theorem Operand.parse_definition {name : String} (isName : isLabelName name) (line : Nat) :
    Operand.parse (name ++ ":") line = .error (.invalidOperand (name ++ ":") line) := by
  have noLiteral : Literal.isMeant (name ++ ":").toList = false := by
    rw [String.toList_append]
    exact Literal.isMeant_append_of_isLabelName isName _
  have noName : ¬ isLabelName (name ++ ":") := by
    intro isName'
    apply Token.colon_not_mem isName'
    simp
  rw [Operand.parse, if_neg (Bool.eq_false_iff.mp noLiteral), if_neg noName]

/-- The name of a label begins no statement. -/
theorem Statement.start_name {t : Token} (isName : isLabelName t.text) :
    start t = .inr (.error (.unknownMnemonic t.text t.line)) := by
  have noDirective : t.text ≠ wordDirective := by
    intro directive
    rw [directive] at isName
    revert isName
    decide +kernel
  have noMnemonic : Opcode.ofName? t.text = none := by
    unfold isLabelName at isName
    split at isName
    · cases isName
    · simpa using (Bool.and_eq_true_iff.mp isName).2
  simp [start, labelDefinition?_of_isLabelName isName, noDirective, noMnemonic]

namespace Renames

variable {g : String → String} {text name : String}

theorem renameText_name (isName : isLabelName text) : Token.renameText g text = g text := by
  rw [Token.renameText, Statement.labelDefinition?_of_isLabelName isName]

theorem renameText_definition (g : String → String) (name : String) :
    Token.renameText g (name ++ ":") = g name ++ ":" := by
  rw [Token.renameText, Statement.labelDefinition?_append_colon]

variable (h : Renames g)

include h

theorem renameText_other (noName : ¬ isLabelName text)
    (noDefinition : ∀ name, Statement.labelDefinition? text = some name → ¬ isLabelName name) :
    Token.renameText g text = text := by
  unfold Token.renameText
  split
  · next name definition =>
    rw [h.eq_self (noDefinition name definition)]
    exact (Statement.labelDefinition?_eq_some_iff.mp definition).symm
  · exact h.eq_self noName

/-- Operands are read with their new names. -/
theorem parse_renameText (text : String) (line : Nat) :
    Operand.parse (Token.renameText g text) line =
      recast (AssemblyError.rename g) (Operand.rename g) (Operand.parse text line) := by
  cases Token.kind text with
  | name isName =>
    have before : Operand.parse text line = .ok (.label text) :=
      @Operand.parse_text (.label text) isName line
    have after : Operand.parse (g text) line = .ok (.label (g text)) :=
      @Operand.parse_text (.label (g text)) (h.isLabelName_map isName) line
    rw [renameText_name isName, before, after]
    rfl
  | @definition name isName =>
    rw [renameText_definition, Operand.parse_definition isName,
      Operand.parse_definition (h.isLabelName_map isName)]
    simp [recast, AssemblyError.rename, renameText_definition]
  | other noName noDefinition =>
    have same := h.renameText_other noName noDefinition
    rw [same]
    unfold Operand.parse
    split
    · split
      · simp [recast, AssemblyError.rename, same]
      · rfl
      · split <;> rfl
    · simp [recast, AssemblyError.rename, same]

/-- **Renaming tokens is renaming statements.** -/
theorem translates :
    Statement.Translates (Token.rename g) (Pending.rename g)
      (recast (AssemblyError.rename g) (SourceStatement.rename g)) where
  start_map t := by
    obtain ⟨text, line⟩ := t
    unfold Token.rename
    dsimp only
    cases Token.kind text with
    | name isName =>
      have before := @Statement.start_name ⟨text, line⟩ isName
      have after := @Statement.start_name ⟨g text, line⟩ (h.isLabelName_map isName)
      rw [renameText_name isName, before, after]
      simp [recast, AssemblyError.rename, renameText_name isName]
    | @definition name isName =>
      rw [renameText_definition, Statement.start_label isName,
        Statement.start_label (h.isLabelName_map isName)]
      rfl
    | other noName noDefinition =>
      have same := h.renameText_other noName noDefinition
      rw [same]
      unfold Statement.start
      dsimp only
      split
      · next name definition =>
        rw [if_neg (noDefinition name definition)]
        rfl
      · split
        · rfl
        · split
          · simp [recast, AssemblyError.rename, same]
          · split <;> rfl
  take_map p t := by
    simp only [Pending.take, Token.rename, h.parse_renameText]
    cases Operand.parse t.text t.line with
    | error e => rfl
    | ok operand =>
      simp only [recast, Pending.supply, Pending.rename]
      cases p.op? with
      | none => rfl
      | some op =>
        by_cases more : p.taken.length + 1 < op.operands.length
        · simp [more, Pending.rename]
        · simp [more, recast, SourceStatement.rename, Statement.rename]
  missing_map p := rfl

end Renames

/-! ## The labels of a table -/

section Tables

variable {symbols : SymbolTable} {f g : String → String}

theorem SymbolTable.keys_rename (g : String → String) (table : SymbolTable) :
    (table.rename g).entries.keys = table.entries.keys.map g := by
  simp [rename, Bindings.keys, Function.comp_def]

theorem SymbolTable.relabel_of_mem {name : String} (mem : name ∈ symbols.entries.keys) :
    symbols.relabel f name = f name :=
  if_pos mem

theorem SymbolTable.rename_relabel (f : String → String) (symbols : SymbolTable) :
    symbols.rename (symbols.relabel f) = symbols.rename f := by
  refine congrArg SymbolTable.mk (List.map_congr_left fun entry mem => ?_)
  rw [relabel_of_mem (List.mem_map_of_mem mem)]

/-- If labels have names of labels and get such names, then nothing else is exchanged. -/
theorem SymbolTable.renames_relabel (old : ∀ name ∈ symbols.entries.keys, isLabelName name)
    (new : ∀ name ∈ symbols.entries.keys, isLabelName (f name)) : Renames (symbols.relabel f) where
  isLabelName_map := by
    intro name isName
    unfold relabel
    split
    · next mem => exact new name mem
    · exact isName
  eq_self := by
    intro name noName
    exact if_neg fun mem => noName (old name mem)

/-- As long as the new names are apart, each label has the address that it had. -/
theorem SymbolTable.address?_rename {name : String} {address : Word}
    (distinct : (symbols.rename g).entries.keys.Nodup)
    (found : symbols.address? name = some address) :
    (symbols.rename g).address? (g name) = some address := by
  obtain ⟨symbol, bound, rfl⟩ := Option.map_eq_some_iff.mp found
  have mem : (g name, symbol) ∈ (symbols.rename g).entries :=
    List.mem_map.mpr ⟨_, Bindings.mem_of_lookup bound, rfl⟩
  rw [address?, find?, Bindings.lookup_of_mem distinct mem, Option.map_some]

theorem Operand.resolve_rename {operand : Operand} {line : Nat} {w : Word}
    (distinct : (symbols.rename g).entries.keys.Nodup)
    (resolved : operand.resolve symbols line = .ok w) :
    (operand.rename g).resolve (symbols.rename g) line = .ok w := by
  cases operand with
  | literal value => exact resolved
  | label name =>
    rw [resolve_label_eq_ok_iff] at resolved
    exact resolve_label_eq_ok_iff.mpr (SymbolTable.address?_rename distinct resolved)

end Tables

/-! ## Pieces -/

/-- The piece with other names in its statement, and with the same words. -/
def Piece.rename (g : String → String) (p : Piece) : Piece :=
  { p with toSourceStatement := p.toSourceStatement.rename g }

/-- The words of a piece do not depend on names. -/
theorem Piece.Written.rename {symbols : SymbolTable} {g : String → String} {p : Piece}
    (distinct : (symbols.rename g).entries.keys.Nodup) (written : p.Written symbols) :
    (p.rename g).Written (symbols.rename g) := by
  obtain ⟨⟨statement, line⟩, words⟩ := p
  cases statement with
  | label name => exact written
  | instruction op operands =>
    obtain ⟨arguments, resolved, rest⟩ := except_bind_eq_ok_iff.mp written
    have renamed : (operands.map (Operand.rename g)).mapM
        (Operand.resolve (symbols.rename g) line) = .ok arguments := by
      rw [mapM_eq_ok_iff, List.forall₂_map_left_iff]
      exact (mapM_eq_ok_iff.mp resolved).imp fun _ _ => Operand.resolve_rename distinct
    exact except_bind_eq_ok_iff.mpr ⟨arguments, renamed, rest⟩
  | data operand =>
    obtain ⟨w, resolved, rest⟩ := except_bind_eq_ok_iff.mp written
    exact except_bind_eq_ok_iff.mpr ⟨w, Operand.resolve_rename distinct resolved, rest⟩

namespace Layout

variable {g : String → String} {pieces : List Piece}

theorem program_rename (g : String → String) (pieces : List Piece) :
    program (pieces.map (Piece.rename g)) = program pieces :=
  List.flatMap_map ..

theorem placedFrom_rename (g : String → String) (address : Nat) (pieces : List Piece) :
    placedFrom address (pieces.map (Piece.rename g)) =
      (placedFrom address pieces).map fun placed => (placed.1, placed.2.rename g) := by
  induction pieces generalizing address with
  | nil => rfl
  | cons p rest ih =>
    rw [List.map_cons, placedFrom, placedFrom, List.map_cons, ← ih]
    rfl

theorem bindings_rename (g : String → String) (address : Nat) (pieces : List Piece) :
    (placedFrom address (pieces.map (Piece.rename g))).filterMap binding? =
      ((placedFrom address pieces).filterMap binding?).map fun entry => (g entry.1, entry.2) := by
  rw [placedFrom_rename, List.filterMap_map, List.map_filterMap]
  congr 1
  funext ⟨place, p⟩
  obtain ⟨⟨statement, line⟩, words⟩ := p
  cases statement <;> rfl

theorem emitted_rename (g : String → String) (address : Nat) (pieces : List Piece) :
    (placedFrom address (pieces.map (Piece.rename g))).filterMap emitted? =
      (placedFrom address pieces).filterMap emitted? := by
  rw [placedFrom_rename, List.filterMap_map]
  congr 1
  funext ⟨place, p⟩
  obtain ⟨⟨statement, line⟩, words⟩ := p
  cases statement <;> rfl

end Layout

/-! ## Sources -/

section Sources

variable {tokens : List Token} {assembly : Assembly} {pieces : List Piece} {g : String → String}

theorem IsLayout.parse_rename (layout : IsLayout tokens assembly pieces) (renames : Renames g) :
    Statement.parse (tokens.map (Token.rename g)) =
      (pieces.map (Piece.rename g)).map Piece.parsed := by
  rw [renames.translates.parse_map, layout.parse_eq, List.map_map, List.map_map]
  rfl

/-- With other names the source is laid out as before. -/
theorem IsLayout.rename (layout : IsLayout tokens assembly pieces) (renames : Renames g)
    (distinct : (assembly.symbols.rename g).entries.keys.Nodup) :
    IsLayout (tokens.map (Token.rename g)) { assembly with symbols := assembly.symbols.rename g }
      (pieces.map (Piece.rename g)) where
  parse_eq := layout.parse_rename renames
  written := List.forall_mem_map.mpr fun p mem => (layout.written p mem).rename distinct
  program_eq := by rw [program_rename, layout.program_eq]
  symbols_eq := by
    rw [bindings_rename, ← layout.symbols_eq]
    rfl
  lineMap_eq := by rw [emitted_rename, layout.lineMap_eq]
  distinct := distinct
  fits := by
    rw [program_rename]
    exact layout.fits

/-- The labels of the table are those that the statements define. -/
theorem IsLayout.definitions_eq (layout : IsLayout tokens assembly pieces) :
    assembly.symbols.definitions = definitions (pieces.map Piece.toSourceStatement) := by
  rw [SymbolTable.definitions, layout.symbols_eq, definitions_bindings, definitions,
    List.filterMap_map]
  rfl

/-- Labels have names of labels. -/
theorem IsLayout.isLabelName_of_mem (layout : IsLayout tokens assembly pieces) :
    ∀ name ∈ assembly.symbols.entries.keys, isLabelName name := by
  intro name mem
  obtain ⟨⟨_, symbol⟩, bound, rfl⟩ := List.mem_map.mp mem
  obtain ⟨before, p, after, split, isLabel⟩ := layout.exists_label bound
  have wf := wellFormed_of_parse layout.parse_eq p (by simp [split])
  rw [isLabel] at wf
  exact wf

/-- The program has as many words as the statements are declared to have. -/
theorem IsLayout.extent_eq (layout : IsLayout tokens assembly pieces) :
    extent (Statement.parse tokens) = (program pieces).length := by
  have widths := length_words_of_parse layout.parse_eq layout.written
  rw [layout.parse_eq]
  clear layout
  induction pieces with
  | nil => rfl
  | cons p rest ih =>
    obtain ⟨here, later⟩ := List.forall_mem_cons.mp widths
    rw [List.map_cons, extent_cons, length_program_cons, ih later, here]
    rfl

theorem definitions_rename (g : String → String) (statements : List SourceStatement) :
    definitions (statements.map (SourceStatement.rename g)) =
      (definitions statements).map fun entry => (g entry.1, entry.2) := by
  rw [definitions, definitions, List.filterMap_map, List.map_filterMap]
  congr 1
  funext ⟨statement, line⟩
  cases statement <;> rfl

theorem extent_rename (g : String → String) (items : List Parsed) :
    extent (items.map (recast (AssemblyError.rename g) (SourceStatement.rename g))) =
      extent items := by
  induction items with
  | nil => rfl
  | cons item rest ih =>
    rw [List.map_cons, extent_cons, extent_cons, ih]
    rcases item with e | ⟨statement, line⟩
    · rfl
    · cases statement <;> rfl

/-- Good statements are spoiled only by a label that is defined again. -/
theorem Spoiled.exists_redefined {statements : List SourceStatement} {e : AssemblyError}
    (spoiled : Spoiled (statements.map .ok) e) :
    ∃ before name line after first,
      statements = before ++ ⟨.label name, line⟩ :: after ∧
        (definitions before).lookup name = some first ∧ e = .duplicateSymbol name line first := by
  cases spoiled with
  | malformed split _ =>
    have mem : (.error e : Parsed) ∈ statements.map .ok := by
      rw [split]
      simp
    obtain ⟨s, -, bad⟩ := List.mem_map.mp mem
    cases bad
  | @redefined before name line first after split _ defined =>
    obtain ⟨earlier, later, rfl, upTo, rest⟩ := List.map_eq_append_iff.mp split
    obtain ⟨s, behind, rfl, here, -⟩ := List.map_eq_cons_iff.mp rest
    cases here
    obtain rfl := List.map_injective_iff.mpr (fun _ _ => Except.ok.inj) upTo
    exact ⟨earlier, name, line, behind, first, rfl, defined, rfl⟩

/-- Where two labels get the same name, the source is spoiled by the first that has the new name
of an earlier one. -/
theorem spoiled_of_clash {statements : List SourceStatement}
    (distinct : (definitions statements).keys.Nodup)
    (clash : ¬ ((definitions statements).keys.map g).Nodup) :
    ∃ first ∈ definitions statements, ∃ again ∈ definitions statements,
      first.1 ≠ again.1 ∧ g first.1 = g again.1 ∧
        Spoiled ((statements.map (SourceStatement.rename g)).map .ok)
          (.duplicateSymbol (g again.1) again.2 first.2) := by
  rcases spoiled_or_good [] .nil ((statements.map (SourceStatement.rename g)).map .ok) with
    ⟨e, spoiled⟩ | ⟨others, good, distinct'⟩
  · obtain ⟨before, name', line, after, first, split, defined, rfl⟩ :=
      Spoiled.exists_redefined spoiled
    obtain ⟨earlier, later, rfl, rfl, rest⟩ := List.map_eq_append_iff.mp split
    obtain ⟨⟨statement, line'⟩, behind, rfl, here, -⟩ := List.map_eq_cons_iff.mp rest
    cases statement with
    | instruction op operands => cases here
    | data operand => cases here
    | label again =>
      cases here
      have mem := Bindings.mem_of_lookup defined
      rw [definitions_rename] at mem
      obtain ⟨⟨name, first'⟩, earlierMem, same⟩ := List.mem_map.mp mem
      obtain ⟨sameName, rfl⟩ := Prod.mk.inj same
      have labels : definitions (earlier ++ ⟨.label again, line'⟩ :: behind) =
          definitions earlier ++ (again, line') :: definitions behind := definitions_append ..
      rw [labels] at distinct ⊢
      have apart : name ≠ again := by
        rintro rfl
        rw [Bindings.keys_append] at distinct
        exact List.disjoint_of_nodup_append distinct (List.mem_map_of_mem earlierMem)
          List.mem_cons_self
      exact ⟨(name, first'), List.mem_append_left _ earlierMem, (again, line'),
        List.mem_append_right _ List.mem_cons_self, apart, sameName, spoiled⟩
  · have same := List.map_injective_iff.mpr (fun _ _ => Except.ok.inj) good
    refine absurd ?_ clash
    rw [← same, definitions_rename] at distinct'
    simpa [Bindings.keys, Function.comp_def] using distinct'

/-- If two labels get the same name, then the first pass reports the second of them. -/
theorem IsLayout.collect_clash (layout : IsLayout tokens assembly pieces) (renames : Renames g)
    (clash : ¬ (assembly.symbols.rename g).entries.keys.Nodup) :
    ∃ first ∈ assembly.symbols.entries, ∃ again ∈ assembly.symbols.entries,
      first.1 ≠ again.1 ∧ g first.1 = g again.1 ∧
        SymbolTable.collect (tokens.map (Token.rename g)) =
          .error (.duplicateSymbol (g again.1) again.2.line first.2.line) := by
  have parsed : Statement.parse (tokens.map (Token.rename g)) =
      ((pieces.map Piece.toSourceStatement).map (SourceStatement.rename g)).map .ok := by
    rw [layout.parse_rename renames]
    simp only [List.map_map]
    rfl
  have fits : extent (Statement.parse (tokens.map (Token.rename g))) ≤ Word.greatest := by
    rw [renames.translates.parse_map, extent_rename, layout.extent_eq]
    exact layout.fits
  have labels := layout.definitions_eq
  generalize pieces.map Piece.toSourceStatement = statements at parsed labels
  have keys : (definitions statements).keys = assembly.symbols.entries.keys := by
    rw [← labels]
    simp [SymbolTable.definitions, Bindings.keys, Function.comp_def]
  rw [SymbolTable.keys_rename, ← keys] at clash
  have distinct := layout.distinct
  rw [← keys] at distinct
  obtain ⟨_, firstMem, _, againMem, apart, same, spoiled⟩ := spoiled_of_clash distinct clash
  rw [← labels] at firstMem againMem
  obtain ⟨first, firstIn, rfl⟩ := List.mem_map.mp firstMem
  obtain ⟨again, againIn, rfl⟩ := List.mem_map.mp againMem
  rw [← parsed] at spoiled
  exact ⟨first, firstIn, again, againIn, apart, same, SymbolTable.collect_of_spoiled fits spoiled⟩

end Sources

/-- **Names do not matter.** If the labels of a source that assembles get other names of labels,
each wherever it is defined or used, then as long as these are apart the renamed source assembles
too, to the same program and line map, and to the same table with the new names. If two labels get
the same name, then this is reported. -/
theorem ofTokens_rename {tokens : List Token} {assembly : Assembly} {f : String → String}
    (assembled : Assembly.ofTokens tokens = .ok assembly)
    (valid : ∀ name ∈ assembly.symbols.entries.keys, isLabelName (f name)) :
    let renamed := tokens.map (Token.rename (assembly.symbols.relabel f))
    (Set.InjOn f {name | name ∈ assembly.symbols.entries.keys} →
      Assembly.ofTokens renamed = .ok { assembly with symbols := assembly.symbols.rename f }) ∧
    (¬ Set.InjOn f {name | name ∈ assembly.symbols.entries.keys} →
      ∃ first ∈ assembly.symbols.entries, ∃ again ∈ assembly.symbols.entries,
        first.1 ≠ again.1 ∧ f first.1 = f again.1 ∧
          Assembly.ofTokens renamed =
            .error (.duplicateSymbol (f again.1) again.2.line first.2.line)) := by
  intro renamed
  obtain ⟨pieces, layout⟩ := exists_layout assembled
  have renames := assembly.symbols.renames_relabel layout.isLabelName_of_mem valid
  have table := assembly.symbols.rename_relabel f
  constructor
  · intro injective
    have distinct : (assembly.symbols.rename f).entries.keys.Nodup := by
      rw [SymbolTable.keys_rename]
      exact layout.distinct.map_on injective
    rw [← table] at distinct ⊢
    exact ofTokens_of_layout (layout.rename renames distinct)
  · intro clash
    have repeats : ¬ (assembly.symbols.rename f).entries.keys.Nodup := by
      rw [SymbolTable.keys_rename]
      exact fun distinct => clash (List.inj_on_of_nodup_map distinct)
    rw [← table] at repeats
    obtain ⟨first, firstMem, again, againMem, apart, same, reported⟩ :=
      layout.collect_clash renames repeats
    have relabeled : ∀ entry ∈ assembly.symbols.entries,
        assembly.symbols.relabel f entry.1 = f entry.1 := fun entry mem =>
      SymbolTable.relabel_of_mem (List.mem_map_of_mem mem)
    rw [relabeled again againMem] at same reported
    rw [relabeled first firstMem] at same
    refine ⟨first, firstMem, again, againMem, apart, same, ?_⟩
    rw [Assembly.ofTokens, reported]
    rfl

/-- A source with labels that differ only in case, and one that is nearly a mnemonic. -/
def alike : List Token :=
  Token.ofLines 1 ["Halts: jmp x", "X: x: push Halts", ".word X"]

/-- What it assembles to. -/
def alikeAssembly : Assembly :=
  ⟨[14, 2, 1, 0, 2], ⟨[("Halts", ⟨0, 1⟩), ("X", ⟨2, 2⟩), ("x", ⟨2, 2⟩)]⟩,
    ⟨[(0, 1), (2, 2), (4, 3)]⟩⟩

/-- The names of two labels are exchanged, and that of the third is nearly a directive. -/
def exchanged : String → String
  | "X" => "x"
  | "x" => "X"
  | _ => "_.word"

theorem ofTokens_rename_alike :
    Assembly.ofTokens alike = .ok alikeAssembly ∧
      (alike.map (Token.rename (alikeAssembly.symbols.relabel exchanged))).map Token.text =
        ["_.word:", "jmp", "X", "x:", "X:", "push", "_.word", ".word", "x"] ∧
      Assembly.ofTokens (alike.map (Token.rename (alikeAssembly.symbols.relabel exchanged))) =
        .ok { alikeAssembly with
          symbols := ⟨[("_.word", ⟨0, 1⟩), ("x", ⟨2, 2⟩), ("X", ⟨2, 2⟩)]⟩ } ∧
      ∃ name line first,
        Assembly.ofTokens (alike.map (Token.rename (alikeAssembly.symbols.relabel fun _ => "y"))) =
          .error (.duplicateSymbol name line first) := by
  have assembled : Assembly.ofTokens alike = .ok alikeAssembly := by decide +kernel
  have injective : Set.InjOn exchanged {name | name ∈ alikeAssembly.symbols.entries.keys} := by
    have distinct : (alikeAssembly.symbols.entries.keys.map exchanged).Nodup := by decide +kernel
    exact List.inj_on_of_nodup_map distinct
  have clash : ¬ Set.InjOn (fun _ => "y") {name | name ∈ alikeAssembly.symbols.entries.keys} := by
    intro injective
    have same : "X" = "x" := injective (by decide) (by decide) rfl
    revert same
    decide
  have valid : ∀ name ∈ alikeAssembly.symbols.entries.keys, isLabelName (exchanged name) := by
    decide +kernel
  have valid' : ∀ name ∈ alikeAssembly.symbols.entries.keys, isLabelName ((fun _ => "y") name) := by
    decide +kernel
  obtain ⟨same, -⟩ := ofTokens_rename assembled valid
  obtain ⟨-, reported⟩ := ofTokens_rename assembled valid'
  obtain ⟨_, -, _, -, -, -, failed⟩ := reported clash
  exact ⟨assembled, by decide +kernel, same injective, _, _, _, failed⟩

end Stackwright
