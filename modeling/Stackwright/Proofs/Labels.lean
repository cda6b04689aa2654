import Stackwright.Proofs.Passes

/-!
# Where labels point

A label names what comes after it. In the program it has the index of the first word of
the statement that follows, where other labels do not count as statements, and if no
statement follows it has the length of the program. This is what the symbol table says
(`Locates.address`), and it is what stands in the program wherever the label is used as an
operand (`Locates.reference`), be it before or after its definition.
-/

namespace Stackwright

open Layout

/-- The name that a piece defines, with the line of the definition. -/
def Piece.definition? (p : Piece) : Option (String × Nat) :=
  match p.statement with
  | .label name => some (name, p.line)
  | _ => none

/-- What it means for labels to point into the program that pieces make up. -/
structure SymbolTable.Locates (symbols : SymbolTable) (pieces : List Piece) : Prop where
  /-- the labels are those that the pieces define, in the same order -/
  definitions : symbols.entries.map (fun entry => (entry.1, entry.2.line)) =
    pieces.filterMap Piece.definition?
  /-- a label has the index of the first word after its definition -/
  address : ∀ before p after name, pieces = before ++ p :: after →
    p.statement = .label name →
    ∃ symbol, symbols.find? name = some symbol ∧ symbol.line = p.line ∧
      symbol.address.toInt = startAfter (before ++ [p]) after
  /-- each operand that names a label has become this index -/
  reference : ∀ before p after name, pieces = before ++ p :: after →
    p.statement = .label name →
    ∀ before' q after' k, pieces = before' ++ q :: after' →
      q.statement.operands[k]? = some (.label name) →
      ∃ w, (program pieces)[(program before').length + q.statement.lead + k]? = some w ∧
        w.toInt = startAfter (before ++ [p]) after
  /-- a label that is defined later has no smaller address -/
  ascending : symbols.entries.Pairwise fun a b => a.2.address ≤ b.2.address
  /-- no label points beyond the end of the program -/
  inside : ∀ entry ∈ symbols.entries,
    0 ≤ entry.2.address.toInt ∧ entry.2.address.toInt ≤ (program pieces).length

/-! ## The bindings of a row of pieces -/

/-- The bindings are those of the definitions. -/
theorem definitions_bindings (address : Nat) (pieces : List Piece) :
    ((placedFrom address pieces).filterMap binding?).map
        (fun entry => (entry.1, entry.2.line)) =
      pieces.filterMap Piece.definition? := by
  induction pieces generalizing address with
  | nil => rfl
  | cons p rest ih =>
    rw [filterMap_placedFrom_cons, List.map_append, ih, List.filterMap_cons]
    unfold binding? Piece.definition?
    cases p.statement <;> rfl

/-- A label is bound to its place. -/
theorem address_of_binding? {n : Nat} {p : Piece} {entry : String × Symbol}
    (h : binding? (n, p) = some entry) : entry.2.address = Word.ofNat n := by
  unfold binding? at h
  split at h
  · cases h
    rfl
  · cases h

/-- Labels are bound to places among the pieces. -/
theorem exists_place_of_mem_bindings {address : Nat} {pieces : List Piece}
    {entry : String × Symbol} (mem : entry ∈ (placedFrom address pieces).filterMap binding?) :
    ∃ n, entry.2.address = Word.ofNat n ∧ address ≤ n ∧
      n ≤ address + (program pieces).length := by
  obtain ⟨⟨n, p⟩, placed, bound⟩ := List.mem_filterMap.mp mem
  obtain ⟨before, after, rfl, rfl⟩ := mem_placedFrom_iff.mp placed
  refine ⟨address + (program before).length, address_of_binding? bound, ?_, ?_⟩
  · omega
  · rw [program_append, List.length_append]
    omega

/-- Places come in ascending order. -/
theorem pairwise_bindings {address : Nat} {pieces : List Piece}
    (fits : address + (program pieces).length ≤ Word.greatest) :
    ((placedFrom address pieces).filterMap binding?).Pairwise
      fun a b => a.2.address ≤ b.2.address := by
  induction pieces generalizing address with
  | nil => exact .nil
  | cons p rest ih =>
    rw [length_program_cons, ← Nat.add_assoc] at fits
    rw [filterMap_placedFrom_cons]
    refine List.pairwise_append.mpr ⟨?_, ih fits, ?_⟩
    · cases binding? (address, p) with
      | none => exact .nil
      | some entry => exact List.pairwise_singleton ..
    · intro a first b later
      obtain ⟨n, hn, above, below⟩ := exists_place_of_mem_bindings later
      have here : a.2.address = Word.ofNat address :=
        address_of_binding? (Option.mem_toList.mp first)
      rw [here, hn, Int32.le_iff_toInt_le, Word.toInt_ofNat (by omega),
        Word.toInt_ofNat (by omega)]
      omega

/-! ## Labels in a layout -/

namespace IsLayout

variable {tokens : List Token} {assembly : Assembly} {pieces : List Piece}

/-- A label is found at its place. -/
theorem find?_label (layout : IsLayout tokens assembly pieces) {before after : List Piece}
    {p : Piece} {name : String} (split : pieces = before ++ p :: after)
    (isLabel : p.statement = .label name) :
    assembly.symbols.find? name = some ⟨Word.ofNat (program before).length, p.line⟩ := by
  refine Bindings.lookup_of_mem layout.distinct ?_
  rw [layout.symbols_eq]
  refine List.mem_filterMap.mpr ⟨(_, p), mem_placedFrom_iff.mpr ⟨before, after, split, rfl⟩, ?_⟩
  unfold binding?
  rw [isLabel, Nat.zero_add]

/-- What is in the table is defined by one of the pieces. -/
theorem exists_label (layout : IsLayout tokens assembly pieces) {name : String} {symbol : Symbol}
    (mem : (name, symbol) ∈ assembly.symbols.entries) :
    ∃ before p after, pieces = before ++ p :: after ∧ p.statement = .label name := by
  rw [layout.symbols_eq] at mem
  obtain ⟨⟨n, p⟩, placed, bound⟩ := List.mem_filterMap.mp mem
  obtain ⟨before, after, split, -⟩ := mem_placedFrom_iff.mp placed
  unfold binding? at bound
  split at bound
  · next isLabel =>
    cases bound
    exact ⟨before, p, after, split, isLabel⟩
  · cases bound

/-- The place of a label is where the next statement starts. -/
theorem startAfter_label (layout : IsLayout tokens assembly pieces)
    {before after : List Piece} {p : Piece} {name : String}
    (split : pieces = before ++ p :: after) (isLabel : p.statement = .label name) :
    startAfter (before ++ [p]) after = (program before).length := by
  have written := layout.written
  rw [split, List.forall_mem_append, List.forall_mem_cons] at written
  obtain ⟨-, here, later⟩ := written
  rw [startAfter_eq later, program_append, program_cons,
    words_eq_nil here (by rw [isLabel]; rfl)]
  exact congrArg List.length (List.append_nil _)

/-- The place of a piece has an address. -/
theorem toInt_place (layout : IsLayout tokens assembly pieces) {before after : List Piece}
    (split : pieces = before ++ after) :
    (Word.ofNat (program before).length).toInt = (program before).length := by
  have fits := layout.fits
  rw [split, program_append, List.length_append] at fits
  exact Word.toInt_ofNat (by omega)

/-- The word of an operand stands in the program after the words in front of it. -/
theorem getElem?_operand (layout : IsLayout tokens assembly pieces)
    {before after : List Piece} {q : Piece} (split : pieces = before ++ q :: after)
    {k : Nat} {operand : Operand} (isOperand : q.statement.operands[k]? = some operand) :
    ∃ w, (program pieces)[(program before).length + q.statement.lead + k]? = some w ∧
      operand.resolve assembly.symbols q.line = .ok w := by
  have written := layout.written q (by rw [split]; exact List.mem_append_right _ List.mem_cons_self)
  obtain ⟨arguments, resolved, rest, -⟩ := exists_arguments_of_words written
  obtain ⟨w, there, resolves⟩ :=
    exists_getElem?_of_forall₂ (mapM_eq_ok_iff.mp resolved) isOperand
  refine ⟨w, ?_, resolves⟩
  rw [← rest, List.getElem?_drop] at there
  rw [split, program_append, program_cons, Nat.add_assoc,
    List.getElem?_append_right (Nat.le_add_right ..), Nat.add_sub_cancel_left]
  exact List.getElem?_append_left (List.getElem?_eq_some_iff.mp there).1 ▸ there

/-- The labels of a layout point into it. -/
theorem locates (layout : IsLayout tokens assembly pieces) :
    assembly.symbols.Locates pieces where
  definitions := by rw [layout.symbols_eq, definitions_bindings]
  address before p after name split isLabel := by
    refine ⟨_, layout.find?_label split isLabel, rfl, ?_⟩
    rw [layout.startAfter_label split isLabel, layout.toInt_place split]
  reference before p after name split isLabel before' q after' k split' isOperand := by
    obtain ⟨w, there, resolves⟩ := layout.getElem?_operand split' isOperand
    refine ⟨w, there, ?_⟩
    have found := layout.find?_label split isLabel
    rw [Operand.resolve, SymbolTable.address?, found] at resolves
    cases resolves
    rw [layout.startAfter_label split isLabel, layout.toInt_place split]
  ascending := by
    rw [layout.symbols_eq]
    exact pairwise_bindings (by simpa using layout.fits)
  inside entry mem := by
    rw [layout.symbols_eq] at mem
    obtain ⟨n, hn, -, below⟩ := exists_place_of_mem_bindings mem
    have fits := layout.fits
    rw [hn, Word.toInt_ofNat (by omega)]
    omega

end IsLayout

/-- **The passes agree.** The addresses that the first pass gives to the labels are those of
the words that the second pass puts into the program after them. -/
theorem passes_agree {tokens : List Token} {symbols : SymbolTable} {words : List Word}
    {lineMap : LineMap} (first : SymbolTable.collect tokens = .ok symbols)
    (second : emit tokens symbols = .ok (words, lineMap)) :
    ∃ pieces : List Piece, Statement.parse tokens = pieces.map Piece.parsed ∧
      (∀ p ∈ pieces, p.Written symbols) ∧ words = program pieces ∧
      symbols.Locates pieces := by
  have assembled : Assembly.ofTokens tokens = .ok ⟨words, symbols, lineMap⟩ :=
    ofTokens_eq_ok_iff.mpr ⟨first, second⟩
  obtain ⟨pieces, layout⟩ := exists_layout assembled
  exact ⟨pieces, layout.parse_eq, layout.written, layout.program_eq, layout.locates⟩

/-- A source in which labels are used before and after their definition, two of them stand
at one address, and one at the end. -/
def crossReferences : List Token :=
  Token.ofLines 1 ["jmp there", "here: again: push again", ".word end", "there: jnz here", "end:"]

/-- Where its labels are. -/
def crossReferenceSymbols : SymbolTable :=
  ⟨[("here", ⟨2, 2⟩), ("again", ⟨2, 2⟩), ("there", ⟨5, 4⟩), ("end", ⟨7, 5⟩)]⟩

theorem passes_agree_crossReferences :
    SymbolTable.collect crossReferences = .ok crossReferenceSymbols ∧
      emit crossReferences crossReferenceSymbols =
        .ok ([14, 5, 1, 2, 7, 16, 2], ⟨[(0, 1), (2, 2), (4, 3), (5, 4)]⟩) ∧
      ∃ pieces : List Piece, Statement.parse crossReferences = pieces.map Piece.parsed ∧
        (∀ p ∈ pieces, p.Written crossReferenceSymbols) ∧
        [14, 5, 1, 2, 7, 16, 2] = program pieces ∧ crossReferenceSymbols.Locates pieces := by
  have first : SymbolTable.collect crossReferences = .ok crossReferenceSymbols := by
    decide +kernel
  have second : emit crossReferences crossReferenceSymbols =
      .ok ([14, 5, 1, 2, 7, 16, 2], ⟨[(0, 1), (2, 2), (4, 3), (5, 4)]⟩) := by
    decide +kernel
  exact ⟨first, second, passes_agree first second⟩

end Stackwright
