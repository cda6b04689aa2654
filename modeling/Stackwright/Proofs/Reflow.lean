import Stackwright.Assembly
import Stackwright.Proofs.Parsing
import Stackwright.Proofs.Sequencing

/-!
# Breaking lines elsewhere

Where a source breaks its lines, and what stands between its tokens, is nobody's business but its
reader's. Sources with the same tokens in the same order assemble to the same words at the same
addresses, or they fail alike, and all that may differ are line numbers (`ofText_reflow`).

To see this, all line numbers are put to zero. This can be done to the tokens before assembling or
to the results after it, and both come to the same (`ofTokens_unplaced`), as no step on the way
looks at a line number.
-/

namespace Stackwright

/-! ## Without line numbers -/

/-- The token on line zero. -/
def Token.unplaced (t : Token) : Token := { t with line := 0 }

/-- The unfinished statement on line zero. -/
def Pending.unplaced (p : Pending) : Pending := { p with head := p.head.unplaced }

/-- The error with all its lines put to zero. -/
def AssemblyError.unplaced : AssemblyError → AssemblyError
  | unknownMnemonic name _ => unknownMnemonic name 0
  | missingOperand name expected _ => missingOperand name expected 0
  | invalidLabel name _ => invalidLabel name 0
  | invalidOperand text _ => invalidOperand text 0
  | literalOutOfRange text _ => literalOutOfRange text 0
  | addressOverflow _ => addressOverflow 0
  | duplicateSymbol name _ _ => duplicateSymbol name 0 0
  | undefinedSymbol name _ => undefinedSymbol name 0
  | e => e

/-- The statement on line zero. -/
def SourceStatement.unplaced (s : SourceStatement) : SourceStatement := { s with line := 0 }

/-- The symbol of a label that is defined on line zero. -/
def Symbol.unplaced (symbol : Symbol) : Symbol := { symbol with line := 0 }

/-- The table with all labels defined on line zero. -/
def SymbolTable.unplaced (table : SymbolTable) : SymbolTable :=
  ⟨table.entries.map fun entry => (entry.1, entry.2.unplaced)⟩

/-- What a statement puts into memory, if it stands on line zero. -/
def Emitted.unplaced (e : Emitted) : Emitted := { e with line := 0 }

/-- The map that sends each address to line zero. -/
def LineMap.unplaced (map : LineMap) : LineMap := ⟨map.entries.map fun entry => (entry.1, 0)⟩

/-- What a source on line zero assembles to. -/
def Assembly.unplaced (assembly : Assembly) : Assembly :=
  ⟨assembly.program, assembly.symbols.unplaced, assembly.lineMap.unplaced⟩

/-- The result or the error with all lines put to zero. -/
abbrev unplacedBy {α : Type} (f : α → α) : Except AssemblyError α → Except AssemblyError α :=
  recast AssemblyError.unplaced f

/-! ## Parsing -/

theorem Operand.parse_unplaced (text : String) (line : Nat) :
    Operand.parse text 0 = unplacedBy id (Operand.parse text line) := by
  unfold Operand.parse
  split
  · split
    · rfl
    · rfl
    · split <;> rfl
  · split <;> rfl

/-- The parser hands lines on, and looks at none. -/
theorem Statement.translates_unplaced :
    Translates Token.unplaced Pending.unplaced (unplacedBy SourceStatement.unplaced) where
  start_map t := by
    simp only [start, Token.unplaced]
    cases labelDefinition? t.text with
    | some name =>
      by_cases isName : isLabelName name
      · simp [isName, recast, SourceStatement.unplaced]
      · simp [isName, recast, AssemblyError.unplaced]
    | none =>
      by_cases directive : t.text = wordDirective
      · simp [directive, Pending.unplaced, Token.unplaced]
      · cases Opcode.ofName? t.text with
        | none => simp [directive, recast, AssemblyError.unplaced]
        | some op =>
          by_cases takesNone : op.operands.isEmpty
          · simp [directive, takesNone, recast, SourceStatement.unplaced]
          · simp [directive, takesNone, Pending.unplaced, Token.unplaced]
  take_map p t := by
    simp only [Pending.take, Token.unplaced, Operand.parse_unplaced t.text t.line]
    cases Operand.parse t.text t.line with
    | error e => rfl
    | ok operand =>
      simp only [recast, Pending.supply, Pending.unplaced, Token.unplaced, id]
      cases p.op? with
      | none => rfl
      | some op =>
        by_cases more : p.taken.length + 1 < op.operands.length
        · simp [more, Pending.unplaced, Token.unplaced]
        · simp [more, recast, SourceStatement.unplaced]
  missing_map p := rfl

/-! ## The two passes -/

namespace SymbolTable

theorem find?_unplaced (table : SymbolTable) (name : String) :
    table.unplaced.find? name = (table.find? name).map Symbol.unplaced :=
  Bindings.lookup_map Symbol.unplaced table.entries name

theorem address?_unplaced (table : SymbolTable) (name : String) :
    table.unplaced.address? name = table.address? name := by
  rw [address?, find?_unplaced, Option.map_map, address?]
  rfl

theorem insert_unplaced (table : SymbolTable) (name : String) (address : Word) (line : Nat) :
    insert name address 0 table.unplaced =
      match insert name address line table with
      | .error e table' => .error e.unplaced table'.unplaced
      | .ok () table' => .ok () table'.unplaced := by
  cases found : table.find? name with
  | some previous =>
    have bound : table.unplaced.find? name = some previous.unplaced := by
      rw [find?_unplaced, found, Option.map_some]
    rw [insert_of_bound bound, insert_of_bound found]
    rfl
  | none =>
    have free : table.unplaced.find? name = none := by
      rw [find?_unplaced, found, Option.map_none]
    rw [insert_of_free free, insert_of_free found]
    simp [unplaced, Symbol.unplaced]

theorem collectFrom_unplaced (address : Nat) (table : SymbolTable) (items : List Parsed) :
    collectFrom address table.unplaced (items.map (unplacedBy SourceStatement.unplaced)) =
      unplacedBy unplaced (collectFrom address table items) := by
  induction items generalizing address table with
  | nil => rfl
  | cons item rest ih =>
    rcases item with e | ⟨statement, line⟩
    · rfl
    · rw [List.map_cons]
      cases statement with
      | label name =>
        simp only [recast, SourceStatement.unplaced, collectFrom, insert_unplaced table name _ line]
        cases insert name (Word.ofNat address) line table with
        | error e table' => rfl
        | ok _ table' => exact ih address table'
      | instruction op operands =>
        simp only [recast, SourceStatement.unplaced, collectFrom]
        split
        · rfl
        · exact ih _ table
      | data operand =>
        simp only [recast, SourceStatement.unplaced, collectFrom]
        split
        · rfl
        · exact ih _ table

end SymbolTable

theorem Operand.resolve_unplaced (symbols : SymbolTable) (line : Nat) (operand : Operand) :
    operand.resolve symbols.unplaced 0 = unplacedBy id (operand.resolve symbols line) := by
  cases operand with
  | literal value => rfl
  | label name =>
    simp only [resolve, SymbolTable.address?_unplaced]
    split <;> rfl

theorem Statement.words_unplaced (symbols : SymbolTable) (line : Nat) (s : Statement) :
    s.words symbols.unplaced 0 = unplacedBy id (s.words symbols line) := by
  cases s with
  | label name => rfl
  | instruction op operands =>
    rw [words, recast_mapM (Operand.resolve_unplaced symbols line), List.map_id_fun]
    refine recast_bind (fun arguments => ?_) _
    rfl
  | data operand =>
    rw [words, Operand.resolve_unplaced symbols line]
    refine recast_bind (fun word => ?_) _
    rfl

theorem emitFrom_unplaced (symbols : SymbolTable) (address : Nat) (items : List Parsed) :
    emitFrom symbols.unplaced address (items.map (unplacedBy SourceStatement.unplaced)) =
      unplacedBy (List.map Emitted.unplaced) (emitFrom symbols address items) := by
  induction items generalizing address with
  | nil => rfl
  | cons item rest ih =>
    rcases item with e | ⟨statement, line⟩
    · rfl
    · rw [List.map_cons]
      have next : ∀ s : Statement,
          (do
            let words ← s.words symbols.unplaced 0
            let emitted ← emitFrom symbols.unplaced (address + words.length)
              (rest.map (unplacedBy SourceStatement.unplaced))
            return (⟨address, 0, words⟩ : Emitted) :: emitted) =
          unplacedBy (List.map Emitted.unplaced) (do
            let words ← s.words symbols line
            let emitted ← emitFrom symbols (address + words.length) rest
            return ⟨address, line, words⟩ :: emitted) := by
        intro s
        rw [Statement.words_unplaced symbols line]
        refine recast_bind (fun words => ?_) _
        rw [id, ih]
        refine recast_bind (fun emitted => ?_) _
        rfl
      simp only [recast, SourceStatement.unplaced, emitFrom]
      split
      · rfl
      · cases statement with
        | label name => exact ih address
        | instruction op operands => exact next _
        | data operand => exact next _

/-! ## Sources -/

theorem Emitted.program_unplaced (emitted : List Emitted) :
    program (emitted.map Emitted.unplaced) = program emitted :=
  List.flatMap_map ..

theorem LineMap.insert_unplaced (map : LineMap) (address : Word) (line : Nat) :
    (map.insert address line).unplaced = map.unplaced.insert address 0 :=
  congrArg mk (Bindings.map_put (fun _ => 0) map.entries address line)

theorem Emitted.lineMap_unplaced (emitted : List Emitted) :
    lineMap (emitted.map Emitted.unplaced) = (lineMap emitted).unplaced := by
  rw [lineMap, List.foldl_map, lineMap]
  change List.foldl _ LineMap.empty.unplaced emitted = _
  refine List.foldl_hom LineMap.unplaced fun map e => ?_
  exact (map.insert_unplaced (Word.ofNat e.address) e.line).symm

/-- **It makes no difference when the lines are put to zero**, before assembling or after it. -/
theorem ofTokens_unplaced (tokens : List Token) :
    Assembly.ofTokens (tokens.map Token.unplaced) =
      unplacedBy Assembly.unplaced (Assembly.ofTokens tokens) := by
  have items := Statement.translates_unplaced.parse_map tokens
  have first : SymbolTable.collect (tokens.map Token.unplaced) =
      unplacedBy SymbolTable.unplaced (SymbolTable.collect tokens) := by
    rw [SymbolTable.collect, items]
    exact SymbolTable.collectFrom_unplaced 0 .empty _
  unfold Assembly.ofTokens
  rw [first]
  refine recast_bind (fun symbols => ?_) _
  have second : emit (tokens.map Token.unplaced) symbols.unplaced =
      unplacedBy (fun result => (result.1, result.2.unplaced)) (emit tokens symbols) := by
    rw [emit, items, emitFrom_unplaced]
    refine recast_bind (fun emitted => ?_) _
    rw [Emitted.program_unplaced, Emitted.lineMap_unplaced]
    rfl
  rw [second]
  refine recast_bind (fun result => ?_) _
  rfl

/-- What two sources assemble to, or why they do not, differs in nothing but line numbers. -/
inductive AlikeButLines :
    Except AssemblyError Assembly → Except AssemblyError Assembly → Prop where
  /-- both assemble: to the same program, with the same labels and entries of the line map at the
  same addresses, in the same order -/
  | assembled {a b : Assembly} (program : a.program = b.program)
    (symbols : a.symbols.entries.map (fun entry => (entry.1, entry.2.address)) =
      b.symbols.entries.map fun entry => (entry.1, entry.2.address))
    (lineMap : a.lineMap.entries.keys = b.lineMap.entries.keys) : AlikeButLines (.ok a) (.ok b)
  /-- both fail for the same reason, which blames the same word -/
  | failed {e e' : AssemblyError} (same : e.unplaced = e'.unplaced) :
    AlikeButLines (.error e) (.error e')

theorem AlikeButLines.of_unplaced {x y : Except AssemblyError Assembly}
    (h : unplacedBy Assembly.unplaced x = unplacedBy Assembly.unplaced y) : AlikeButLines x y := by
  cases x with
  | error e =>
    cases y with
    | error e' => exact .failed (Except.error.inj h)
    | ok b => cases h
  | ok a =>
    cases y with
    | error e' => cases h
    | ok b =>
      have same : a.unplaced = b.unplaced := Except.ok.inj h
      have program := congrArg Assembly.program same
      have symbols := congrArg (·.symbols.entries.map fun entry => (entry.1, entry.2.address)) same
      have lineMap := congrArg (·.lineMap.entries.keys) same
      refine .assembled program ?_ ?_
      · simpa [Assembly.unplaced, SymbolTable.unplaced, Symbol.unplaced, Function.comp_def]
          using symbols
      · simpa [Assembly.unplaced, LineMap.unplaced, Bindings.keys, Function.comp_def] using lineMap

/-- **Where lines are broken makes no difference.** If two texts have the same tokens in the same
order, on whatever lines, then both assemble or both fail, and what comes of it differs in nothing
but line numbers. -/
theorem ofText_reflow {text text' : String} {tokens tokens' : List Token}
    (first : tokenize (.ofText text) = .ok tokens) (second : tokenize (.ofText text') = .ok tokens')
    (same : tokens.map Token.text = tokens'.map Token.text) :
    AlikeButLines (Assembly.ofText text) (Assembly.ofText text') := by
  have unplaced : tokens.map Token.unplaced = tokens'.map Token.unplaced := by
    have onLineZero := congrArg (List.map fun text => Token.mk text 0) same
    rwa [List.map_map, List.map_map] at onLineZero
  have reads : ∀ {text : String} {tokens : List Token}, tokenize (.ofText text) = .ok tokens →
      Assembly.ofText text = Assembly.ofTokens tokens := by
    intro text tokens h
    rw [Assembly.ofText, Assembly.ofFeed, h]
    rfl
  rw [reads first, reads second]
  apply AlikeButLines.of_unplaced
  rw [← ofTokens_unplaced, ← ofTokens_unplaced, unplaced]

/-- A source that defines a label twice, written on as few lines as it can be. -/
def packed : String := "a: jmp b b: a: halt"

/-- The same source with a remark, empty lines, and operands that stand apart. -/
def spread : String := "a: ; c\r\n\tjmp\n\nb\u00a0b: ;\na: halt;\n"

theorem ofText_reflow_spread :
    ∃ tokens tokens', tokenize (.ofText packed) = .ok tokens ∧
      tokenize (.ofText spread) = .ok tokens' ∧
      tokens.map Token.text = tokens'.map Token.text ∧
      Assembly.ofText packed = .error (.duplicateSymbol "a" 1 1) ∧
      Assembly.ofText spread = .error (.duplicateSymbol "a" 5 1) ∧
      AlikeButLines (Assembly.ofText packed) (Assembly.ofText spread) := by
  have same : (Token.ofLines 1 (Text.lines packed)).map Token.text =
      (Token.ofLines 1 (Text.lines spread)).map Token.text := by
    decide +kernel
  exact ⟨_, _, rfl, rfl, same, by decide +kernel, by decide +kernel, ofText_reflow rfl rfl same⟩

end Stackwright
