import Stackwright.Proofs.Labels
import Stackwright.Proofs.Parsing

/-!
# Relocation

When one source is written behind another, its program comes to stand behind the program of the
other. Nothing in it changes but the addresses that its labels stand for, and these move up by as
many words as there are in front (`ofTokens_append`). A literal does not move, even if it happens
to be the address of a label.
-/

namespace Stackwright

open Layout

/-! ## Parsing at the seam -/

/-- Statements that come to their end do not depend on what comes behind them. -/
theorem Statement.parseFrom_append {pending : Option Pending} {tokens : List Token}
    (good : ∀ item ∈ parseFrom pending tokens, ∃ s, item = .ok s) (more : List Token) :
    parseFrom pending (tokens ++ more) = parseFrom pending tokens ++ parse more := by
  induction tokens generalizing pending with
  | nil =>
    cases pending with
    | none => rfl
    | some p =>
      obtain ⟨s, bad⟩ := good _ List.mem_cons_self
      cases bad
  | cons t ts ih =>
    rw [parseFrom_cons] at good
    rw [List.cons_append, parseFrom_cons, parseFrom_cons]
    cases step : advance pending t with
    | inl p =>
      rw [step] at good
      exact ih good
    | inr item =>
      rw [step] at good
      exact congrArg (item :: ·) (ih (List.forall_mem_cons.mp good).2)

/-! ## Moving up -/

/-- The address so many words further up. -/
def Word.up (n : Nat) (address : Word) : Word := address + Word.ofNat n

/-- The symbol with its address so many words further up. -/
def Symbol.up (n : Nat) (symbol : Symbol) : Symbol := ⟨Word.up n symbol.address, symbol.line⟩

/-- The table with all labels so many words further up. -/
def SymbolTable.up (n : Nat) (table : SymbolTable) : SymbolTable :=
  ⟨table.entries.map fun entry => (entry.1, entry.2.up n)⟩

/-- The map with all addresses so many words further up. -/
def LineMap.up (n : Nat) (map : LineMap) : LineMap :=
  ⟨map.entries.map fun entry => (Word.up n entry.1, entry.2)⟩

instance : Append SymbolTable where
  append first second := ⟨first.entries ++ second.entries⟩

instance : Append LineMap where
  append first second := ⟨first.entries ++ second.entries⟩

/-- The addresses in both tables. -/
def Assembly.addresses (assembly : Assembly) : List Word :=
  assembly.symbols.entries.map (·.2.address) ++ assembly.lineMap.entries.keys

/-- The word of an operand once all labels are so many words further up. A literal stays as it
is. -/
def Operand.up (n : Nat) (operand : Operand) (w : Word) : Word :=
  match operand with
  | .literal _ => w
  | .label _ => Word.up n w

/-- The piece once all labels are so many words further up. The words in front of the operands
stay as they are. -/
def Piece.up (n : Nat) (p : Piece) : Piece :=
  { p with
    words := p.words.take p.statement.lead ++
      List.zipWith (Operand.up n) p.statement.operands (p.words.drop p.statement.lead) }

theorem Word.up_ofNat (n address : Nat) :
    Word.up n (Word.ofNat address) = Word.ofNat (n + address) := by
  rw [Word.up, Word.ofNat, Word.ofNat, Word.ofNat, ← Int32.ofInt_add, Nat.add_comm,
    Int.natCast_add]

/-- An address that moves up to another one does not wrap around. -/
theorem Word.toInt_up {n address : Nat} (fits : n + address ≤ Word.greatest) :
    (Word.up n (Word.ofNat address)).toInt = (Word.ofNat address).toInt + n := by
  rw [Word.up_ofNat, Word.toInt_ofNat fits, Word.toInt_ofNat (by omega)]
  omega

/-! ## Words -/

section Words

variable {symbols first second : SymbolTable} {n : Nat} {operand : Operand} {line : Nat} {w : Word}

theorem SymbolTable.address?_append (name : String) :
    (first ++ second).address? name = (first.address? name).or (second.address? name) := by
  change ((first.entries ++ second.entries).lookup name).map _ = _
  rw [List.lookup_append, Option.map_or]
  rfl

theorem SymbolTable.address?_up (name : String) :
    (symbols.up n).address? name = (symbols.address? name).map (Word.up n) := by
  change ((symbols.entries.map _).lookup name).map _ = _
  rw [Bindings.lookup_map, Option.map_map, address?, Option.map_map]
  rfl

/-- More labels behind the others change no operand that has a word. -/
theorem Operand.resolve_append (h : operand.resolve first line = .ok w) :
    operand.resolve (first ++ second) line = .ok w := by
  cases operand with
  | literal value => exact h
  | label name =>
    rw [resolve_label_eq_ok_iff] at h ⊢
    rw [SymbolTable.address?_append, h, Option.some_or]

/-- If all labels move up, and others come in front that have other names, then the words of
operands move with their labels. -/
theorem Operand.resolve_append_up
    (apart : List.Disjoint first.entries.keys second.entries.keys)
    (h : operand.resolve second line = .ok w) :
    operand.resolve (first ++ second.up n) line = .ok (operand.up n w) := by
  cases operand with
  | literal value => exact h
  | label name =>
    rw [resolve_label_eq_ok_iff] at h ⊢
    have absent : first.address? name = none := by
      have bound : second.entries.lookup name ≠ none := by
        intro none
        rw [SymbolTable.address?, SymbolTable.find?, none] at h
        cases h
      rw [Ne, Bindings.lookup_eq_none_iff, not_not] at bound
      have other : name ∉ first.entries.keys := fun mem => apart mem bound
      rw [SymbolTable.address?, SymbolTable.find?, Bindings.lookup_eq_none_iff.mpr other,
        Option.map_none]
    rw [SymbolTable.address?_append, absent, Option.none_or, SymbolTable.address?_up, h]
    rfl

/-- The operands of a statement move one by one. -/
theorem Operand.mapM_resolve_append_up
    (apart : List.Disjoint first.entries.keys second.entries.keys) {operands : List Operand}
    {ws : List Word} (h : operands.mapM (resolve second line) = .ok ws) :
    operands.mapM (resolve (first ++ second.up n) line) =
      .ok (List.zipWith (Operand.up n) operands ws) := by
  rw [mapM_eq_ok_iff] at h ⊢
  induction h with
  | nil => exact .nil
  | cons here _ ih => exact .cons (resolve_append_up apart here) ih

/-- With other words for its operands, a statement has the same words in front of them. -/
theorem words_of_arguments {s : Statement} {words arguments : List Word}
    (h : s.words first line = .ok words)
    (resolved : s.operands.mapM (Operand.resolve second line) = .ok arguments) :
    s.words second line = .ok (words.take s.lead ++ arguments) := by
  cases s with
  | label name =>
    cases h
    cases resolved
    rfl
  | instruction op operands =>
    obtain ⟨_, _, rest⟩ := except_bind_eq_ok_iff.mp h
    cases rest
    exact except_bind_eq_ok_iff.mpr ⟨arguments, resolved, rfl⟩
  | data operand =>
    obtain ⟨_, _, rest⟩ := except_bind_eq_ok_iff.mp h
    cases rest
    obtain ⟨w, _, hw, none, rfl⟩ := List.forall₂_cons_left_iff.mp (mapM_eq_ok_iff.mp resolved)
    cases none
    exact except_bind_eq_ok_iff.mpr ⟨w, hw, rfl⟩

end Words

/-! ## Pieces -/

namespace Piece

variable {symbols first second : SymbolTable} {n : Nat} {p : Piece}

/-- More labels behind the others change no piece. -/
theorem Written.append (written : p.Written first) : p.Written (first ++ second) := by
  obtain ⟨arguments, resolved, after, -⟩ := exists_arguments_of_words written
  have still : p.statement.operands.mapM (Operand.resolve (first ++ second) p.line) =
      .ok arguments :=
    mapM_eq_ok_iff.mpr ((mapM_eq_ok_iff.mp resolved).imp fun _ _ => Operand.resolve_append)
  have words := words_of_arguments written still
  rwa [← after, List.take_append_drop] at words

/-- If all labels move up, and others come in front that have other names, then the piece moves
with its labels. -/
theorem Written.up (apart : List.Disjoint first.entries.keys second.entries.keys)
    (written : p.Written second) : (p.up n).Written (first ++ second.up n) := by
  obtain ⟨arguments, resolved, after, -⟩ := exists_arguments_of_words written
  have moved := Operand.mapM_resolve_append_up (n := n) apart resolved
  have words := words_of_arguments written moved
  rwa [← after] at words

/-- A piece that moves up keeps its length. -/
theorem Written.length_up (written : p.Written symbols) :
    (p.up n).words.length = p.words.length := by
  obtain ⟨arguments, resolved, after, length⟩ := exists_arguments_of_words written
  have arity := (mapM_eq_ok_iff.mp resolved).length_eq
  simp only [Piece.up, List.length_append, List.length_take, List.length_zipWith, after, arity,
    Nat.min_self]
  omega

end Piece

namespace Layout

variable {symbols : SymbolTable} {n : Nat} {pieces : List Piece}

theorem length_program_up (written : ∀ p ∈ pieces, p.Written symbols) :
    (program (pieces.map (Piece.up n))).length = (program pieces).length := by
  induction pieces with
  | nil => rfl
  | cons p rest ih =>
    obtain ⟨here, later⟩ := List.forall_mem_cons.mp written
    rw [List.map_cons, length_program_cons, length_program_cons, here.length_up, ih later]

/-- Pieces that move up stand at places further up. -/
theorem placedFrom_up (written : ∀ p ∈ pieces, p.Written symbols) (address : Nat) :
    placedFrom (n + address) (pieces.map (Piece.up n)) =
      (placedFrom address pieces).map fun placed => (n + placed.1, placed.2.up n) := by
  induction pieces generalizing address with
  | nil => rfl
  | cons p rest ih =>
    obtain ⟨here, later⟩ := List.forall_mem_cons.mp written
    rw [List.map_cons, placedFrom, here.length_up, Nat.add_assoc, ih later]
    rfl

/-- The labels of pieces that move up. -/
theorem bindings_up (written : ∀ p ∈ pieces, p.Written symbols) (address : Nat) :
    (placedFrom (n + address) (pieces.map (Piece.up n))).filterMap binding? =
      ((placedFrom address pieces).filterMap binding?).map fun entry =>
        (entry.1, entry.2.up n) := by
  rw [placedFrom_up written, List.filterMap_map, List.map_filterMap]
  congr 1
  funext ⟨place, p⟩
  unfold binding? Piece.up
  dsimp only [Function.comp_apply]
  cases p.statement with
  | label name =>
    rw [← Word.up_ofNat]
    rfl
  | instruction op operands => rfl
  | data operand => rfl

/-- The entries in a line map for pieces that move up. -/
theorem entries_up (written : ∀ p ∈ pieces, p.Written symbols) (address : Nat) :
    ((placedFrom (n + address) (pieces.map (Piece.up n))).filterMap emitted?).map Emitted.entry =
      (((placedFrom address pieces).filterMap emitted?).map Emitted.entry).map fun entry =>
        (entry.1.up n, entry.2) := by
  rw [placedFrom_up written, List.filterMap_map, List.map_filterMap, List.map_map,
    List.map_filterMap]
  congr 1
  funext ⟨place, p⟩
  unfold emitted? Piece.up
  dsimp only [Function.comp_apply]
  split
  · simp only [Option.map_some, Function.comp_apply, Emitted.entry, Word.up_ofNat]
  · rfl

end Layout

/-! ## Sources -/

theorem SymbolTable.keys_up (n : Nat) (table : SymbolTable) :
    (table.up n).entries.keys = table.entries.keys :=
  List.map_map

section Sources

variable {a b : List Token} {x y : Assembly} {pieces later : List Piece}

/-- A source behind another is laid out behind it. -/
theorem IsLayout.append (first : IsLayout a x pieces) (second : IsLayout b y later)
    (apart : List.Disjoint x.symbols.entries.keys y.symbols.entries.keys)
    (fits : x.program.length + y.program.length ≤ Word.greatest) :
    IsLayout (a ++ b)
      ⟨x.program ++ program (later.map (Piece.up x.program.length)),
        x.symbols ++ y.symbols.up x.program.length, x.lineMap ++ y.lineMap.up x.program.length⟩
      (pieces ++ later.map (Piece.up x.program.length)) := by
  rw [first.program_eq, second.program_eq] at fits
  rw [first.program_eq]
  have behind : 0 + (program pieces).length = (program pieces).length + 0 := Nat.add_comm ..
  refine ⟨?_, ?_, ?_, ?_, ?_, ?_, ?_⟩
  · have good : ∀ item ∈ Statement.parse a, ∃ s, item = .ok s := by
      rw [first.parse_eq]
      intro item mem
      obtain ⟨p, -, rfl⟩ := List.mem_map.mp mem
      exact ⟨_, rfl⟩
    have seam : Statement.parse (a ++ b) = Statement.parse a ++ Statement.parse b :=
      Statement.parseFrom_append good b
    rw [seam, first.parse_eq, second.parse_eq, List.map_append, List.map_map]
    rfl
  · refine List.forall_mem_append.mpr ⟨fun p mem => (first.written p mem).append, ?_⟩
    exact List.forall_mem_map.mpr fun p mem => (second.written p mem).up apart
  · exact (program_append _ _).symm
  · rw [placedFrom_append, List.filterMap_append, behind, bindings_up second.written,
      ← first.symbols_eq, ← second.symbols_eq]
    rfl
  · rw [placedFrom_append, List.filterMap_append, List.map_append, behind,
      entries_up second.written, ← first.lineMap_eq, ← second.lineMap_eq]
    rfl
  · change (x.symbols.entries ++ (y.symbols.up _).entries).keys.Nodup
    rw [Bindings.keys_append, SymbolTable.keys_up]
    exact List.nodup_append'.mpr ⟨first.distinct, second.distinct, apart⟩
  · rw [program_append, List.length_append, length_program_up second.written]
    exact fits

/-- The addresses in both tables are those of places in the program. -/
theorem IsLayout.exists_place (layout : IsLayout b y later) {address : Word}
    (mem : address ∈ y.addresses) : ∃ n, address = Word.ofNat n ∧ n ≤ y.program.length := by
  rw [layout.program_eq]
  rcases List.mem_append.mp mem with ofLabel | ofLine
  · obtain ⟨entry, bound, rfl⟩ := List.mem_map.mp ofLabel
    rw [layout.symbols_eq] at bound
    obtain ⟨n, place, -, inside⟩ := exists_place_of_mem_bindings bound
    exact ⟨n, place, by omega⟩
  · rw [layout.lineMap_eq, Bindings.keys, List.map_map] at ofLine
    obtain ⟨emitted, kept, rfl⟩ := List.mem_map.mp ofLine
    have place := (place_emitted kept).2
    rw [Nat.zero_add] at place
    exact ⟨emitted.address, rfl, place⟩

/-- **Assembling one source behind another is relocation.** If two sources assemble, have no label
in common, and there are addresses for the words of both, then one behind the other they assemble
as well. The program, the labels and the line map are those of the first, followed by those of the
second with all addresses moved up by the length of the first program. In the program this
concerns the words of operands that name a label, and no other words. -/
theorem ofTokens_append (first : Assembly.ofTokens a = .ok x) (second : Assembly.ofTokens b = .ok y)
    (apart : List.Disjoint x.symbols.entries.keys y.symbols.entries.keys)
    (fits : x.program.length + y.program.length ≤ Word.greatest) :
    ∃ pieces : List Piece,
      Statement.parse b = pieces.map Piece.parsed ∧ (∀ p ∈ pieces, p.Written y.symbols) ∧
      y.program = program pieces ∧
      Assembly.ofTokens (a ++ b) =
        .ok ⟨x.program ++ program (pieces.map (Piece.up x.program.length)),
          x.symbols ++ y.symbols.up x.program.length,
          x.lineMap ++ y.lineMap.up x.program.length⟩ ∧
      ∀ address ∈ y.addresses,
        (Word.up x.program.length address).toInt = address.toInt + x.program.length := by
  obtain ⟨earlier, before⟩ := exists_layout first
  obtain ⟨pieces, after⟩ := exists_layout second
  refine ⟨pieces, after.parse_eq, after.written, after.program_eq,
    ofTokens_of_layout (before.append after apart fits), fun address mem => ?_⟩
  obtain ⟨n, rfl, inside⟩ := after.exists_place mem
  exact Word.toInt_up (by omega)

end Sources

/-- A source that ends with a label. -/
def leading : List Token := Token.ofLines 1 ["jmp end", "end:"]

/-- A source that starts with a label, and has a literal that is the address of another. -/
def trailing : List Token := Token.ofLines 1 ["start: push 2", "here: jmp here", ".word start"]

/-- What the first assembles to. -/
def leadingAssembly : Assembly := ⟨[14, 2], ⟨[("end", ⟨2, 2⟩)]⟩, ⟨[(0, 1)]⟩⟩

/-- What the second assembles to. -/
def trailingAssembly : Assembly :=
  ⟨[1, 2, 14, 2, 0], ⟨[("start", ⟨0, 1⟩), ("here", ⟨2, 2⟩)]⟩, ⟨[(0, 1), (2, 2), (4, 3)]⟩⟩

theorem ofTokens_append_trailing :
    Assembly.ofTokens leading = .ok leadingAssembly ∧
      Assembly.ofTokens trailing = .ok trailingAssembly ∧
      (∃ pieces : List Piece, Statement.parse trailing = pieces.map Piece.parsed ∧
        program pieces = [1, 2, 14, 2, 0] ∧
        program (pieces.map (Piece.up 2)) = [1, 2, 14, 4, 2]) ∧
      Assembly.ofTokens (leading ++ trailing) =
        .ok ⟨[14, 2, 1, 2, 14, 4, 2],
          ⟨[("end", ⟨2, 2⟩), ("start", ⟨2, 1⟩), ("here", ⟨4, 2⟩)]⟩,
          ⟨[(0, 1), (2, 1), (4, 2), (6, 3)]⟩⟩ := by
  have first : Assembly.ofTokens leading = .ok leadingAssembly := by decide +kernel
  have second : Assembly.ofTokens trailing = .ok trailingAssembly := by decide +kernel
  have apart : List.Disjoint leadingAssembly.symbols.entries.keys
      trailingAssembly.symbols.entries.keys :=
    List.disjoint_left.mpr (by decide)
  have both : Assembly.ofTokens (leading ++ trailing) =
      .ok ⟨[14, 2, 1, 2, 14, 4, 2],
        ⟨[("end", ⟨2, 2⟩), ("start", ⟨2, 1⟩), ("here", ⟨4, 2⟩)]⟩,
        ⟨[(0, 1), (2, 1), (4, 2), (6, 3)]⟩⟩ := by
    decide +kernel
  obtain ⟨pieces, parsed, -, program, assembled, -⟩ :=
    ofTokens_append first second apart (by decide)
  rw [both] at assembled
  have programs : [14, 2] ++ [1, 2, 14, 4, 2] =
      [14, 2] ++ Layout.program (pieces.map (Piece.up 2)) :=
    congrArg Assembly.program (Except.ok.inj assembled)
  exact ⟨first, second, ⟨pieces, parsed, program.symm, (List.append_cancel_left programs).symm⟩,
    both⟩

end Stackwright
