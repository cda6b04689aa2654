import Mathlib.Data.List.Nodup
import Stackwright.Proofs.Layout

/-!
# The two passes

Both passes of the assembler go over the same statements, and each keeps count of the
words in its own way. Here it is shown that they count alike: where the first pass says
that a label is, there the second puts the words of the statement that follows it.

What both give together is the layout of the source (`exists_layout`), and whatever is a layout of
the source is what they give (`ofTokens_of_layout`).
-/

namespace Stackwright

open Layout

/-! ## What the second pass gives -/

/-- One step of the second pass. -/
theorem emitFrom_cons_eq_ok {symbols : SymbolTable} {address : Nat} {item : Parsed}
    {rest : List Parsed} {emitted : List Emitted}
    (h : emitFrom symbols address (item :: rest) = .ok emitted) :
    ∃ p emitted', item = Piece.parsed p ∧ p.Written symbols ∧
      emitFrom symbols (address + p.words.length) rest = .ok emitted' ∧
      emitted = (emitted? (address, p)).toList ++ emitted' := by
  rcases item with e | ⟨statement, line⟩
  · cases h
  · unfold emitFrom at h
    split at h
    · cases h
    · cases statement with
      | label name => exact ⟨⟨⟨.label name, line⟩, []⟩, emitted, rfl, rfl, h, rfl⟩
      | instruction op operands =>
        obtain ⟨words, written, h⟩ := except_bind_eq_ok_iff.mp h
        obtain ⟨emitted', later, last⟩ := except_bind_eq_ok_iff.mp h
        cases last
        exact ⟨⟨⟨.instruction op operands, line⟩, words⟩, emitted', rfl, written, later, rfl⟩
      | data operand =>
        obtain ⟨words, written, h⟩ := except_bind_eq_ok_iff.mp h
        obtain ⟨emitted', later, last⟩ := except_bind_eq_ok_iff.mp h
        cases last
        exact ⟨⟨⟨.data operand, line⟩, words⟩, emitted', rfl, written, later, rfl⟩

/-- The second pass gives the pieces of the source, less the labels, each at its place. By induction
on the source, for any address, which counts the words of the pieces before. -/
theorem exists_pieces_of_emitFrom {symbols : SymbolTable} {address : Nat}
    {items : List Parsed} {emitted : List Emitted}
    (h : emitFrom symbols address items = .ok emitted) :
    ∃ pieces : List Piece, items = pieces.map Piece.parsed ∧
      (∀ p ∈ pieces, p.Written symbols) ∧
      emitted = (placedFrom address pieces).filterMap emitted? := by
  induction items generalizing address emitted with
  | nil =>
    cases h
    refine ⟨[], rfl, ?_, rfl⟩
    rintro _ ⟨⟩
  | cons item rest ih =>
    obtain ⟨p, emitted', rfl, written, later, rfl⟩ := emitFrom_cons_eq_ok h
    obtain ⟨pieces, rfl, allWritten, rfl⟩ := ih later
    refine ⟨p :: pieces, rfl, List.forall_mem_cons.mpr ⟨written, allWritten⟩, ?_⟩
    rw [filterMap_placedFrom_cons]

/-- Labels have no words, so nothing is lost with them. -/
theorem program_emitted {symbols : SymbolTable} {address : Nat} {pieces : List Piece}
    (written : ∀ p ∈ pieces, p.Written symbols) :
    Emitted.program ((placedFrom address pieces).filterMap emitted?) = program pieces := by
  induction pieces generalizing address with
  | nil => rfl
  | cons p rest ih =>
    obtain ⟨here, later⟩ := List.forall_mem_cons.mp written
    rw [filterMap_placedFrom_cons, Emitted.program, List.flatMap_append, ← Emitted.program,
      ← Emitted.program, ih later, program_cons]
    congr 1
    unfold emitted?
    split
    · exact List.append_nil _
    · next silent => exact (words_eq_nil here (by simpa using silent)).symm

/-! ## The line map -/

/-- What pieces put into memory is placed where their words are. -/
theorem place_emitted {address : Nat} {pieces : List Piece} {e : Emitted}
    (mem : e ∈ (placedFrom address pieces).filterMap emitted?) :
    address ≤ e.address ∧ e.address ≤ address + (program pieces).length := by
  obtain ⟨⟨n, p⟩, placed, here⟩ := List.mem_filterMap.mp mem
  obtain ⟨before, after, rfl, rfl⟩ := mem_placedFrom_iff.mp placed
  unfold emitted? at here
  split at here
  · cases here
    dsimp only
    rw [program_append, List.length_append]
    omega
  · cases here

/-- Each statement that puts words into memory has a place behind the one before. -/
theorem ascending_emitted {symbols : SymbolTable} {address : Nat} {pieces : List Piece}
    (written : ∀ p ∈ pieces, p.Written symbols) :
    ((placedFrom address pieces).filterMap emitted?).Pairwise fun a b => a.address < b.address := by
  induction pieces generalizing address with
  | nil => exact .nil
  | cons p rest ih =>
    obtain ⟨here, later⟩ := List.forall_mem_cons.mp written
    rw [filterMap_placedFrom_cons]
    cases emits : p.statement.emits with
    | false =>
      rw [emitted?, if_neg (by simp [emits])]
      exact ih later
    | true =>
      rw [emitted?, if_pos emits]
      refine List.pairwise_cons.mpr ⟨fun e mem => ?_, ih later⟩
      have wide := List.length_pos_iff.mpr (words_ne_nil here emits)
      have behind := (place_emitted mem).1
      dsimp only
      omega

/-- As long as no address comes twice, what is entered comes last. -/
theorem entries_foldl_insert {map : LineMap} {emitted : List Emitted}
    (distinct : (map.entries ++ emitted.map Emitted.entry).keys.Nodup) :
    (emitted.foldl (fun map e => map.insert (Word.ofNat e.address) e.line) map).entries =
      map.entries ++ emitted.map Emitted.entry := by
  induction emitted generalizing map with
  | nil => exact (List.append_nil _).symm
  | cons e rest ih =>
    rw [List.map_cons, List.append_cons] at distinct ⊢
    have new : Word.ofNat e.address ∉ map.entries.keys := by
      rw [Bindings.keys_append] at distinct
      exact (Bindings.nodup_keys_append_iff.mp (List.nodup_append.mp distinct).1).2
    have entered := LineMap.entries_insert new e.line
    rw [List.foldl_cons, ih (by rwa [entered]), entered]
    rfl

/-- The second pass enters no address twice, so the line map has an entry for each statement that
puts words into memory. -/
theorem entries_lineMap {symbols : SymbolTable} {pieces : List Piece}
    (written : ∀ p ∈ pieces, p.Written symbols)
    (fits : (program pieces).length ≤ Word.greatest) :
    (Emitted.lineMap ((placedFrom 0 pieces).filterMap emitted?)).entries =
      ((placedFrom 0 pieces).filterMap emitted?).map Emitted.entry := by
  refine entries_foldl_insert ?_
  change (List.map Prod.fst (List.map Emitted.entry _)).Nodup
  rw [List.map_map]
  refine List.pairwise_map.mpr ((ascending_emitted written).imp_of_mem ?_)
  intro a b memA memB before same
  have boundA := (place_emitted memA).2
  have boundB := (place_emitted memB).2
  have places := congrArg Int32.toInt same
  simp only [Function.comp_apply, Emitted.entry] at places
  rw [Word.toInt_ofNat (by omega), Word.toInt_ofNat (by omega)] at places
  omega

/-! ## What the first pass gives -/

/-- One step of the first pass. -/
theorem collectFrom_cons_eq_ok {address : Nat} {table symbols : SymbolTable} {p : Piece}
    {rest : List Parsed} (width : p.words.length = p.statement.width)
    (h : SymbolTable.collectFrom address table (p.parsed :: rest) = .ok symbols) :
    ∃ table', SymbolTable.collectFrom (address + p.words.length) table' rest = .ok symbols ∧
      table'.entries = table.entries ++ (binding? (address, p)).toList ∧
      (table.entries.keys.Nodup → table'.entries.keys.Nodup) ∧
      (address ≤ Word.greatest → address + p.words.length ≤ Word.greatest) := by
  obtain ⟨⟨statement, line⟩, words⟩ := p
  unfold Piece.parsed SymbolTable.collectFrom at h
  cases statement with
  | label name =>
    have none : words.length = 0 := width
    rw [none]
    dsimp only at h
    split at h
    · cases h
    · next _ table' inserted =>
      obtain ⟨new, entries⟩ := SymbolTable.entries_of_insert_eq_ok inserted
      refine ⟨table', h, entries, ?_, id⟩
      intro distinct
      rw [entries]
      exact Bindings.nodup_keys_append_iff.mpr ⟨distinct, Bindings.lookup_eq_none_iff.mp new⟩
  | instruction op operands =>
    dsimp only at h
    split at h
    · cases h
    · next fits =>
      rw [← width] at h fits
      exact ⟨table, h, (List.append_nil _).symm, id, fun _ => Nat.le_of_not_lt fits⟩
  | data operand =>
    dsimp only at h
    split at h
    · cases h
    · next fits =>
      rw [← width] at h fits
      exact ⟨table, h, (List.append_nil _).symm, id, fun _ => Nat.le_of_not_lt fits⟩

/-- The first pass binds the labels among the pieces, each to its place. -/
theorem entries_of_collectFrom {address : Nat} {table symbols : SymbolTable}
    {pieces : List Piece} (widths : ∀ p ∈ pieces, p.words.length = p.statement.width)
    (h : SymbolTable.collectFrom address table (pieces.map Piece.parsed) = .ok symbols) :
    symbols.entries = table.entries ++ (placedFrom address pieces).filterMap binding? ∧
      (table.entries.keys.Nodup → symbols.entries.keys.Nodup) ∧
      (address ≤ Word.greatest → address + (program pieces).length ≤ Word.greatest) := by
  induction pieces generalizing address table with
  | nil =>
    cases h
    exact ⟨(List.append_nil _).symm, id, id⟩
  | cons p rest ih =>
    obtain ⟨here, later⟩ := List.forall_mem_cons.mp widths
    obtain ⟨table', h, entries, distinct, fits⟩ := collectFrom_cons_eq_ok here h
    obtain ⟨entries', distinct', fits'⟩ := ih later h
    refine ⟨?_, distinct' ∘ distinct, fun small => ?_⟩
    · rw [entries', entries, filterMap_placedFrom_cons, List.append_assoc]
    · rw [length_program_cons, ← Nat.add_assoc]
      exact fits' (fits small)

/-! ## Both passes together -/

/-- The pieces of a source that assembles, as the results of both passes show them. -/
structure IsLayout (tokens : List Token) (assembly : Assembly) (pieces : List Piece) :
    Prop where
  /-- the pieces are the statements of the source -/
  parse_eq : Statement.parse tokens = pieces.map Piece.parsed
  /-- the words of a piece are those of its statement -/
  written : ∀ p ∈ pieces, p.Written assembly.symbols
  /-- the words of all pieces make up the program -/
  program_eq : assembly.program = program pieces
  /-- the labels stand at their places -/
  symbols_eq : assembly.symbols.entries = (placedFrom 0 pieces).filterMap binding?
  /-- the line map has the places of the other pieces -/
  lineMap_eq : assembly.lineMap.entries =
    ((placedFrom 0 pieces).filterMap emitted?).map Emitted.entry
  /-- no label is bound twice -/
  distinct : assembly.symbols.entries.keys.Nodup
  /-- each place has an address -/
  fits : (program pieces).length ≤ Word.greatest

theorem ofTokens_eq_ok_iff {tokens : List Token} {assembly : Assembly} :
    Assembly.ofTokens tokens = .ok assembly ↔
      SymbolTable.collect tokens = .ok assembly.symbols ∧
        emit tokens assembly.symbols = .ok (assembly.program, assembly.lineMap) := by
  unfold Assembly.ofTokens
  rw [except_bind_eq_ok_iff]
  constructor
  · rintro ⟨symbols, first, h⟩
    obtain ⟨⟨program, lineMap⟩, second, last⟩ := except_bind_eq_ok_iff.mp h
    cases last
    exact ⟨first, second⟩
  · rintro ⟨first, second⟩
    exact ⟨_, first, except_bind_eq_ok_iff.mpr ⟨_, second, rfl⟩⟩

/-- Pieces are made of well-formed statements. -/
theorem wellFormed_of_parse {tokens : List Token} {pieces : List Piece}
    (parsed : Statement.parse tokens = pieces.map Piece.parsed) :
    ∀ p ∈ pieces, p.statement.WellFormed := by
  intro p mem
  have yielded : .ok p.toSourceStatement ∈ Statement.parse tokens := by
    rw [parsed]
    exact List.mem_map_of_mem mem
  exact Statement.wellFormed_of_mem_parse yielded

/-- The words of a piece are as many as its statement is declared to have. -/
theorem length_words_of_parse {tokens : List Token} {symbols : SymbolTable} {pieces : List Piece}
    (parsed : Statement.parse tokens = pieces.map Piece.parsed)
    (written : ∀ p ∈ pieces, p.Written symbols) :
    ∀ p ∈ pieces, p.words.length = p.statement.width := by
  intro p mem
  exact length_words (wellFormed_of_parse parsed p mem) (written p mem)

/-- A source that assembles has a layout. -/
theorem exists_layout {tokens : List Token} {assembly : Assembly}
    (h : Assembly.ofTokens tokens = .ok assembly) :
    ∃ pieces, IsLayout tokens assembly pieces := by
  obtain ⟨first, second⟩ := ofTokens_eq_ok_iff.mp h
  obtain ⟨emitted, emitting, results⟩ := except_bind_eq_ok_iff.mp second
  obtain ⟨pieces, parsed, written, rfl⟩ := exists_pieces_of_emitFrom emitting
  have widths := length_words_of_parse parsed written
  rw [SymbolTable.collect, parsed] at first
  obtain ⟨entries, distinct, fits⟩ := entries_of_collectFrom widths first
  obtain ⟨programs, lineMaps⟩ := Prod.mk.inj (Except.ok.inj results)
  have short : (program pieces).length ≤ Word.greatest := by
    simpa using fits (Nat.zero_le _)
  refine ⟨pieces, parsed, written, ?_, entries, ?_, distinct .nil, short⟩
  · rw [← programs, program_emitted written]
  · rw [← lineMaps, entries_lineMap written short]

/-! ## From a layout back to the passes -/

/-- The first pass gets through pieces that define no label twice and have addresses. -/
theorem collectFrom_of_pieces {address : Nat} {table : SymbolTable} {pieces : List Piece}
    (widths : ∀ p ∈ pieces, p.words.length = p.statement.width)
    (distinct : (table.entries ++ (placedFrom address pieces).filterMap binding?).keys.Nodup)
    (fits : address + (program pieces).length ≤ Word.greatest) :
    SymbolTable.collectFrom address table (pieces.map Piece.parsed) =
      .ok ⟨table.entries ++ (placedFrom address pieces).filterMap binding?⟩ := by
  induction pieces generalizing address table with
  | nil =>
    simp only [placedFrom, List.filterMap_nil, List.append_nil]
    rfl
  | cons p rest ih =>
    obtain ⟨here, later⟩ := List.forall_mem_cons.mp widths
    obtain ⟨⟨statement, line⟩, words⟩ := p
    simp only [length_program_cons] at fits
    rw [filterMap_placedFrom_cons] at distinct ⊢
    rw [← List.append_assoc] at distinct ⊢
    replace ih := @ih (address + words.length) ⟨table.entries ++ _⟩ later distinct (by omega)
    rw [List.map_cons, Piece.parsed]
    cases statement with
    | label name =>
      obtain rfl : words = [] := List.eq_nil_of_length_eq_zero here
      rw [Bindings.keys_append] at distinct
      have apart : (table.entries ++ [(name, Symbol.mk (Word.ofNat address) line)]).keys.Nodup :=
        (List.nodup_append.mp distinct).1
      have new : table.find? name = none :=
        Bindings.lookup_eq_none_iff.mpr (Bindings.nodup_keys_append_iff.mp apart).2
      rw [SymbolTable.collectFrom, SymbolTable.insert_of_free new]
      exact ih
    | instruction op operands =>
      simp only [SymbolTable.collectFrom, ← here]
      rw [if_neg (by omega)]
      simpa [binding?] using ih
    | data operand =>
      simp only [SymbolTable.collectFrom, ← here]
      rw [if_neg (by omega)]
      simpa [binding?] using ih

/-- The second pass gets through pieces that have their words and have addresses. -/
theorem emitFrom_of_pieces {symbols : SymbolTable} {address : Nat} {pieces : List Piece}
    (written : ∀ p ∈ pieces, p.Written symbols)
    (fits : address + (program pieces).length ≤ Word.greatest) :
    emitFrom symbols address (pieces.map Piece.parsed) =
      .ok ((placedFrom address pieces).filterMap emitted?) := by
  induction pieces generalizing address with
  | nil => rfl
  | cons p rest ih =>
    obtain ⟨here, later⟩ := List.forall_mem_cons.mp written
    obtain ⟨⟨statement, line⟩, words⟩ := p
    simp only [length_program_cons] at fits
    replace ih := @ih (address + words.length) later (by omega)
    rw [List.map_cons, Piece.parsed, filterMap_placedFrom_cons]
    cases statement with
    | label name =>
      obtain rfl : words = [] := words_eq_nil here rfl
      rw [emitFrom, if_neg (by omega)]
      exact ih
    | instruction op operands =>
      simp only [emitFrom]
      rw [if_neg (by omega)]
      exact except_bind_eq_ok_iff.mpr ⟨words, here, except_bind_eq_ok_iff.mpr ⟨_, ih, rfl⟩⟩
    | data operand =>
      simp only [emitFrom]
      rw [if_neg (by omega)]
      exact except_bind_eq_ok_iff.mpr ⟨words, here, except_bind_eq_ok_iff.mpr ⟨_, ih, rfl⟩⟩

/-- A source with a layout assembles, and what it assembles to is what its layout shows. -/
theorem ofTokens_of_layout {tokens : List Token} {assembly : Assembly} {pieces : List Piece}
    (layout : IsLayout tokens assembly pieces) :
    Assembly.ofTokens tokens = .ok assembly := by
  have fits : 0 + (program pieces).length ≤ Word.greatest := by
    rw [Nat.zero_add]
    exact layout.fits
  refine ofTokens_eq_ok_iff.mpr ⟨?_, ?_⟩
  · have distinct := layout.distinct
    rw [layout.symbols_eq] at distinct
    have widths := length_words_of_parse layout.parse_eq layout.written
    rw [SymbolTable.collect, layout.parse_eq,
      @collectFrom_of_pieces 0 .empty _ widths distinct fits]
    exact congrArg (fun entries => Except.ok (SymbolTable.mk entries)) layout.symbols_eq.symm
  · have lineMap : assembly.lineMap = Emitted.lineMap ((placedFrom 0 pieces).filterMap emitted?) :=
      congrArg LineMap.mk
        (layout.lineMap_eq.trans (entries_lineMap layout.written layout.fits).symm)
    rw [emit, layout.parse_eq, emitFrom_of_pieces layout.written fits, layout.program_eq,
      lineMap, ← program_emitted layout.written]
    rfl

end Stackwright
