import Mathlib.Data.Nat.Order.Lemmas
import Stackwright.Proofs.Boundaries
import Stackwright.Proofs.Parsing

/-!
# The line map parts the program

The line map knows where statements start, and nothing about where they end. It is enough: the
statements that put words into memory follow each other without a gap, so that each address in
the program belongs to one of them, and this is the one whose line is found for the address
(`lineMap_partitions`). The search for it relies on the order of the entries.

The line of a statement is that of its first token, though its operands may stand on later lines.
So that this can be said, the tokens of a source are parted as well (`exists_groups`).
-/

namespace Stackwright

open Layout

/-! ## The tokens of a statement -/

/-- Some tokens are those of a statement: they are nothing but this statement, and the first of
them stands on its line. -/
structure SourceStatement.ComesFrom (s : SourceStatement) (tokens : List Token) : Prop where
  parse_eq : Statement.parse tokens = [.ok s]
  line_eq : tokens.head?.map (·.line) = some s.line

namespace Statement

/-- What a token leaves behind or yields goes back to the first token of the statement. -/
def GoesBackTo (head : Token) : Pending ⊕ Parsed → Prop
  | .inl p => p.head = head
  | .inr (.ok s) => s.line = head.line
  | .inr (.error _) => True

theorem goesBackTo_start (t : Token) : GoesBackTo t (start t) := by
  have view := started t
  generalize start t = made at view ⊢
  cases view with
  | label _ => rfl
  | data => rfl
  | complete _ => rfl
  | waiting _ => rfl
  | malformed _ => trivial

/-- An operand does not change where the statement began. -/
theorem goesBackTo_take (p : Pending) (t : Token) : GoesBackTo p.head (p.take t) := by
  rw [Pending.take]
  cases Operand.parse t.text t.line with
  | error e => trivial
  | ok operand =>
    have view := Pending.supplied p operand
    dsimp only
    generalize p.supply operand = made at view ⊢
    cases view with
    | data _ => rfl
    | waiting _ _ => rfl
    | complete _ _ => rfl

theorem goesBackTo_advance (before : Option Pending) (t : Token) :
    GoesBackTo ((before.map (·.head)).getD t) (advance before t) := by
  cases before with
  | none => exact goesBackTo_start t
  | some p => exact goesBackTo_take p t

/-- The tokens of a source fall apart, where some of them, `begun`, are those of the statement that
waits for operands. -/
theorem exists_groups_parseFrom (tokens : List Token) (before : Option Pending)
    (begun : List Token) (waits : ∀ ts, parse (begun ++ ts) = parseFrom before ts)
    (fresh : before = none → begun = []) :
    ∃ groups : List (List Token), groups.flatten = begun ++ tokens ∧
      List.Forall₂ (fun item group => parse group = [item]) (parseFrom before tokens) groups := by
  induction tokens generalizing before begun with
  | nil =>
    cases before with
    | none =>
      obtain rfl := fresh rfl
      exact ⟨[], rfl, .nil⟩
    | some p =>
      -- the source ends in front of an operand
      have ends := waits []
      rw [List.append_nil] at ends
      exact ⟨[begun], by simp, .cons ends .nil⟩
  | cons t ts ih =>
    have more : ∀ ts, parse (begun ++ [t] ++ ts) = parseFrom before (t :: ts) := by
      intro ts
      rw [List.append_assoc]
      exact waits _
    simp only [parseFrom_cons] at more ⊢
    generalize advance before t = made at more ⊢
    cases made with
    | inl p =>
      obtain ⟨groups, flat, related⟩ := ih (some p) (begun ++ [t]) more (by rintro ⟨⟩)
      exact ⟨groups, by simp [flat], related⟩
    | inr item =>
      obtain ⟨groups, flat, related⟩ := ih none [] (fun _ => rfl) (fun _ => rfl)
      have alone := more []
      rw [List.append_nil] at alone
      exact ⟨(begun ++ [t]) :: groups, by simp [flat], .cons alone related⟩

/-- **The tokens of a source fall apart into those of its items.** -/
theorem exists_groups (tokens : List Token) :
    ∃ groups : List (List Token), groups.flatten = tokens ∧
      List.Forall₂ (fun item group => parse group = [item]) (parse tokens) groups :=
  exists_groups_parseFrom tokens none [] (fun _ => rfl) (fun _ => rfl)

/-- What becomes of a statement that waits, if each operand keeps what is known of it. -/
theorem yields_of_parseFrom {Waits : Pending → Prop} {Yields : Parsed → Prop} {item : Parsed}
    (take : ∀ p t, Waits p → (p.take t).elim Waits Yields)
    (missing : ∀ p, Waits p → Yields (.error p.missing)) {p : Pending} (waits : Waits p)
    {tokens : List Token} {items : List Parsed}
    (parsed : parseFrom (some p) tokens = item :: items) : Yields item := by
  induction tokens generalizing p with
  | nil =>
    cases parsed
    exact missing p waits
  | cons t ts ih =>
    have follows := take p t waits
    rw [parseFrom_cons, advance] at parsed
    generalize p.take t = made at parsed follows
    cases made with
    | inl q => exact ih follows parsed
    | inr item =>
      cases parsed
      exact follows

/-- What becomes of a statement, if its first token makes something known of it and each operand
keeps it. -/
theorem yields_of_parse (Waits : Pending → Prop) (Yields : Parsed → Prop) {head : Token}
    (starts : (start head).elim Waits Yields)
    (take : ∀ p t, Waits p → (p.take t).elim Waits Yields)
    (missing : ∀ p, Waits p → Yields (.error p.missing)) {rest : List Token} {item : Parsed}
    (parsed : parse (head :: rest) = [item]) : Yields item := by
  rw [parse, parseFrom_cons, advance] at parsed
  generalize start head = made at parsed starts
  cases made with
  | inl p => exact yields_of_parseFrom take missing starts parsed
  | inr item =>
    obtain ⟨rfl, -⟩ := List.cons.inj parsed
    exact starts

/-- The line of a statement is that of its first token. -/
theorem comesFrom_of_parse {s : SourceStatement} {tokens : List Token}
    (parsed : parse tokens = [.ok s]) : s.ComesFrom tokens := by
  refine ⟨parsed, ?_⟩
  cases tokens with
  | nil => cases parsed
  | cons head rest =>
    have goesBack (made : Pending ⊕ Parsed) (back : GoesBackTo head made) :
        made.elim (·.head = head) (fun item => GoesBackTo head (.inr item)) := by
      cases made <;> exact back
    have line : s.line = head.line := by
      refine yields_of_parse (·.head = head) (fun item => GoesBackTo head (.inr item))
        ?_ ?_ ?_ parsed
      · exact goesBack _ (goesBackTo_start head)
      · rintro p t rfl
        exact goesBack _ (goesBackTo_take p t)
      · intro p _
        trivial
    exact congrArg some line.symm

/-- **The tokens of a source without errors fall apart into those of its statements.** -/
theorem exists_groups_of_parse {tokens : List Token} {statements : List SourceStatement}
    (parsed : parse tokens = statements.map .ok) :
    ∃ groups : List (List Token), groups.flatten = tokens ∧
      List.Forall₂ SourceStatement.ComesFrom statements groups := by
  obtain ⟨groups, flat, related⟩ := exists_groups tokens
  rw [parsed, List.forall₂_map_left_iff] at related
  exact ⟨groups, flat, related.imp fun _ _ alone => comesFrom_of_parse alone⟩

end Statement

/-! ## The extent of a statement -/

/-- Whether an address belongs to the statement that comes after `n` others that put words into
memory: it is not in front of this one, but in front of the next. -/
def Assembly.Covers (assembly : Assembly) (n : Nat) (address : Word) : Prop :=
  assembly.startOf n ≤ address ∧ address < assembly.startOf (n + 1)

instance (assembly : Assembly) (n : Nat) (address : Word) :
    Decidable (assembly.Covers n address) :=
  inferInstanceAs (Decidable (_ ∧ _))

/-- What it means for statements to part a program, and for the line map to know how. -/
structure Assembly.PartedInto (assembly : Assembly) (statements : List SourceStatement) :
    Prop where
  /-- the line map has an entry for each statement, in their order, with its line -/
  lines : assembly.lineMap.entries.map (·.2) = statements.map (·.line)
  /-- each entry has a greater address than those before it -/
  ascending : assembly.lineMap.entries.Pairwise fun a b => a.1 < b.1
  /-- the first statement starts at zero -/
  startOf_zero : assembly.startOf 0 = 0
  /-- a statement has as many addresses as words, and then the next one starts -/
  startOf_succ : ∀ i s, statements[i]? = some s →
    (assembly.startOf (i + 1)).toInt = (assembly.startOf i).toInt + s.statement.width
  /-- after the last statement the program ends -/
  startOf_length : (assembly.startOf statements.length).toInt = assembly.program.length
  /-- the words at its addresses are those of the statement -/
  words : ∀ i s, statements[i]? = some s →
    ∃ words, s.statement.words assembly.symbols s.line = .ok words ∧
      words.length = s.statement.width ∧
      words <+: assembly.program.drop (assembly.startOf i).toInt.toNat
  /-- each address in the program belongs to a single statement -/
  covered : ∀ address : Word, 0 ≤ address → address.toInt < assembly.program.length →
    ∃! i, i < statements.length ∧ assembly.Covers i address
  /-- the line that is found for an address is that of the statement that it belongs to -/
  lineOf?_eq : ∀ i s address, statements[i]? = some s → assembly.Covers i address →
    assembly.lineMap.lineOf? address = some s.line
  /-- no line is found for what is no address -/
  lineOf?_negative : ∀ address < 0, assembly.lineMap.lineOf? address = none

theorem Statement.width_pos {s : Statement} (emits : s.emits = true) : 0 < s.width := by
  cases s with
  | label name => cases emits
  | instruction op operands => exact Nat.lt_of_lt_of_le Nat.one_pos (Nat.le_add_right ..)
  | data operand => exact Nat.one_pos

/-- What is found at an index has as many before it. -/
theorem exists_split_of_getElem? {α : Type} {as : List α} {i : Nat} {a : α}
    (here : as[i]? = some a) : ∃ before after, as = before ++ a :: after ∧ before.length = i := by
  obtain ⟨inside, rfl⟩ := List.getElem?_eq_some_iff.mp here
  refine ⟨as.take i, as.drop (i + 1), ?_, List.length_take_of_le (Nat.le_of_lt inside)⟩
  rw [← List.drop_eq_getElem_cons inside, List.take_append_drop]

/-- In a line map with ascending entries, the line for an address is that of the entry that is
the last one not beyond it. -/
theorem LineMap.lineOf?_of_ascending {map : LineMap}
    (ascending : map.entries.Pairwise fun a b => a.1 < b.1) {i : Nat} {entry : Word × Nat}
    (here : map.entries[i]? = some entry) {address : Word} (reached : entry.1 ≤ address)
    (beyond : ∀ next, map.entries[i + 1]? = some next → address < next.1) :
    map.lineOf? address = some entry.2 := by
  obtain ⟨before, after, split, rfl⟩ := exists_split_of_getElem? here
  rw [split] at ascending beyond
  have smaller : ∀ other ∈ before, decide (other.1 ≤ address) = true := by
    intro other mem
    have less := (List.pairwise_append.mp ascending).2.2 other mem entry List.mem_cons_self
    exact decide_eq_true (Int32.le_trans (Int32.le_of_lt less) reached)
  have stop : after.takeWhile (fun other => decide (other.1 ≤ address)) = [] := by
    cases after with
    | nil => rfl
    | cons next rest =>
      have greater : address < next.1 := beyond next (by simp)
      exact List.takeWhile_cons_of_neg (by simpa using Int32.not_le.mpr greater)
  rw [lineOf?, split, List.takeWhile_append_of_pos smaller,
    List.takeWhile_cons_of_pos (by simpa using reached), stop, List.getLast?_concat]
  rfl

namespace Assembly

variable {assembly : Assembly}

theorem startOf_of_getElem? {i : Nat} {entry : Word × Nat}
    (here : assembly.lineMap.entries[i]? = some entry) : assembly.startOf i = entry.1 := by
  simp [startOf, here]

theorem startOf_of_length_le {n : Nat} (behind : assembly.lineMap.entries.length ≤ n) :
    assembly.startOf n = Word.ofNat assembly.program.length := by
  simp [startOf, List.getElem?_eq_none behind]

end Assembly

namespace IsLayout

variable {feed : Feed} {tokens : List Token} {assembly : Assembly} {pieces : List Piece}

/-- The statements that put words into memory are among the pieces, each after as many others
that do so as in the source. -/
theorem exists_emitting (layout : IsLayout tokens assembly pieces)
    (tokenized : tokenize feed = .ok tokens) {i : Nat} {s : SourceStatement}
    (here : (feed.statements.filter (·.statement.emits))[i]? = some s) :
    ∃ before p after, pieces = before ++ p :: after ∧
      emitting (before.map Piece.toSourceStatement) = i ∧ p.toSourceStatement = s ∧
      s.statement.emits = true := by
  obtain ⟨front, back, filtered, rfl⟩ := exists_split_of_getElem? here
  obtain ⟨front', rest, split, rfl, later⟩ := List.filter_eq_append_iff.mp filtered
  obtain ⟨labels, after, rfl, silent, emits, -⟩ := List.filter_eq_cons_iff.mp later
  rw [← List.append_assoc] at split
  obtain ⟨before, p, after', isSplit, names, isHere⟩ := layout.exists_split tokenized split
  refine ⟨before, p, after', isSplit, ?_, isHere, emits⟩
  rw [names, emitting, List.countP_append, List.countP_eq_zero.mpr silent,
    List.countP_eq_length_filter]
  rfl

/-- A statement that puts words into memory has as many addresses as its width says. -/
theorem startOf_add_width (layout : IsLayout tokens assembly pieces)
    (tokenized : tokenize feed = .ok tokens) {i : Nat} {s : SourceStatement}
    (here : (feed.statements.filter (·.statement.emits))[i]? = some s) :
    (assembly.startOf (i + 1)).toInt = (assembly.startOf i).toInt + s.statement.width := by
  obtain ⟨before, p, after, split, rfl, rfl, emits⟩ := layout.exists_emitting tokenized here
  have mem : p ∈ pieces := split ▸ List.mem_append_right _ List.mem_cons_self
  have width := length_words_of_parse layout.parse_eq layout.written p mem
  have fits := layout.fits
  rw [split, program_append, program_cons, List.length_append, List.length_append] at fits
  have behind : (Word.ofNat ((program before).length + p.words.length)).toInt =
      ((program before).length + p.words.length : Nat) := Word.toInt_ofNat (by omega)
  rw [← layout.startOf_next split emits behind, behind, layout.startOf_emitting split,
    layout.toInt_place split, ← width, Int.natCast_add]

/-- What is at these addresses are the words of the statement. -/
theorem exists_words (layout : IsLayout tokens assembly pieces)
    (tokenized : tokenize feed = .ok tokens) {i : Nat} {s : SourceStatement}
    (here : (feed.statements.filter (·.statement.emits))[i]? = some s) :
    ∃ words, s.statement.words assembly.symbols s.line = .ok words ∧
      words.length = s.statement.width ∧
      words <+: assembly.program.drop (assembly.startOf i).toInt.toNat := by
  obtain ⟨before, p, after, split, rfl, rfl, -⟩ := layout.exists_emitting tokenized here
  have mem : p ∈ pieces := split ▸ List.mem_append_right _ List.mem_cons_self
  refine ⟨p.words, layout.written p mem,
    length_words_of_parse layout.parse_eq layout.written p mem, ?_⟩
  rw [layout.startOf_emitting split, layout.toInt_place split]
  exact layout.words_prefix List.take_length split

/-- The line map has as many entries as there are statements that put words into memory. -/
theorem length_lineMap (layout : IsLayout tokens assembly pieces)
    (tokenized : tokenize feed = .ok tokens) :
    assembly.lineMap.entries.length = (feed.statements.filter (·.statement.emits)).length := by
  simpa using congrArg List.length (layout.lines_lineMap tokenized)

theorem startOf_zero (layout : IsLayout tokens assembly pieces) : assembly.startOf 0 = 0 := by
  have nothing : pieces = [] ++ pieces := rfl
  exact layout.startOf_emitting nothing

/-- Behind the last statement there is the end of the program. -/
theorem toInt_startOf_of_length_le (layout : IsLayout tokens assembly pieces) {n : Nat}
    (behind : assembly.lineMap.entries.length ≤ n) :
    (assembly.startOf n).toInt = assembly.program.length := by
  have fits := layout.fits
  rw [← layout.program_eq] at fits
  rw [Assembly.startOf_of_length_le behind, Word.toInt_ofNat fits]

/-- A statement that puts words into memory does not start where the next one does. -/
theorem startOf_lt (layout : IsLayout tokens assembly pieces)
    (tokenized : tokenize feed = .ok tokens) {i : Nat}
    (inside : i < assembly.lineMap.entries.length) :
    (assembly.startOf i).toInt < (assembly.startOf (i + 1)).toInt := by
  rw [layout.length_lineMap tokenized] at inside
  have here := List.getElem?_eq_getElem inside
  obtain ⟨-, -, -, -, -, -, emits⟩ := layout.exists_emitting tokenized here
  have follows := layout.startOf_add_width tokenized here
  have wide := Statement.width_pos emits
  omega

/-- No start is beyond a later one. -/
theorem startOf_le (layout : IsLayout tokens assembly pieces)
    (tokenized : tokenize feed = .ok tokens) {i j : Nat} (ordered : i ≤ j) :
    (assembly.startOf i).toInt ≤ (assembly.startOf j).toInt := by
  induction ordered with
  | refl => exact Int.le_refl _
  | @step j _ ih =>
    refine Int.le_trans ih ?_
    rcases Nat.lt_or_ge j assembly.lineMap.entries.length with inside | behind
    · exact Int.le_of_lt (layout.startOf_lt tokenized inside)
    · rw [layout.toInt_startOf_of_length_le behind,
        layout.toInt_startOf_of_length_le (Nat.le_succ_of_le behind)]

/-- The entries of the line map ascend. -/
theorem ascending_lineMap (layout : IsLayout tokens assembly pieces)
    (tokenized : tokenize feed = .ok tokens) :
    assembly.lineMap.entries.Pairwise fun a b => a.1 < b.1 := by
  refine List.pairwise_iff_getElem.mpr fun i j hi hj before => ?_
  have start := Assembly.startOf_of_getElem? (List.getElem?_eq_getElem hi)
  have later := Assembly.startOf_of_getElem? (List.getElem?_eq_getElem hj)
  rw [← start, ← later, Int32.lt_iff_toInt_lt]
  calc (assembly.startOf i).toInt
      < (assembly.startOf (i + 1)).toInt := layout.startOf_lt tokenized hi
    _ ≤ (assembly.startOf j).toInt := layout.startOf_le tokenized before

/-- An address in the program belongs to one statement. -/
theorem existsUnique_covers (layout : IsLayout tokens assembly pieces)
    (tokenized : tokenize feed = .ok tokens) {address : Word} (above : 0 ≤ address)
    (below : address.toInt < assembly.program.length) :
    ∃! i, i < assembly.lineMap.entries.length ∧ assembly.Covers i address := by
  have first : ¬address < assembly.startOf 0 := by
    rw [layout.startOf_zero]
    exact Int32.not_lt.mpr above
  have last : address < assembly.startOf assembly.lineMap.entries.length := by
    rw [Int32.lt_iff_toInt_lt, layout.toInt_startOf_of_length_le (Nat.le_refl _)]
    exact below
  obtain ⟨i, reached, beyond⟩ := @Nat.exists_not_and_succ_of_not_zero_of_exists
    (fun n => address < assembly.startOf n) first ⟨_, last⟩
  refine ⟨i, ⟨?_, Int32.not_lt.mp reached, beyond⟩, ?_⟩
  · refine Nat.lt_of_not_le fun behind => reached ?_
    rw [Int32.lt_iff_toInt_lt, layout.toInt_startOf_of_length_le behind]
    exact below
  · rintro j ⟨-, reached', beyond'⟩
    rw [Int32.not_lt, Int32.le_iff_toInt_le] at reached
    rw [Int32.le_iff_toInt_le] at reached'
    rw [Int32.lt_iff_toInt_lt] at beyond beyond'
    rcases Nat.lt_trichotomy i j with less | same | greater
    · have next : (assembly.startOf (i + 1)).toInt ≤ (assembly.startOf j).toInt :=
        layout.startOf_le tokenized less
      omega
    · exact same.symm
    · have next : (assembly.startOf (j + 1)).toInt ≤ (assembly.startOf i).toInt :=
        layout.startOf_le tokenized greater
      omega

/-- The line for an address is that of the statement to which it belongs. -/
theorem lineOf?_of_covers (layout : IsLayout tokens assembly pieces)
    (tokenized : tokenize feed = .ok tokens) {i : Nat} {s : SourceStatement} {address : Word}
    (here : (feed.statements.filter (·.statement.emits))[i]? = some s)
    (covers : assembly.Covers i address) : assembly.lineMap.lineOf? address = some s.line := by
  have lines := congrArg (·[i]?) (layout.lines_lineMap tokenized)
  simp only [List.getElem?_map, here, Option.map_some] at lines
  obtain ⟨entry, found, line⟩ := Option.map_eq_some_iff.mp lines
  obtain ⟨reached, beyond⟩ := covers
  rw [Assembly.startOf_of_getElem? found] at reached
  rw [← line]
  refine LineMap.lineOf?_of_ascending (layout.ascending_lineMap tokenized) found reached ?_
  intro next follows
  rwa [Assembly.startOf_of_getElem? follows] at beyond

/-- There is no line for what is in front of the first statement. -/
theorem lineOf?_of_neg (layout : IsLayout tokens assembly pieces) {address : Word}
    (negative : address < 0) : assembly.lineMap.lineOf? address = none := by
  cases entries : assembly.lineMap.entries with
  | nil => simp [LineMap.lineOf?, entries]
  | cons first rest =>
    have found : assembly.lineMap.entries[0]? = some first := by simp [entries]
    have start := Assembly.startOf_of_getElem? found
    rw [layout.startOf_zero] at start
    have beyond : ¬first.1 ≤ address := start ▸ Int32.not_le.mpr negative
    simp [LineMap.lineOf?, entries, beyond]

end IsLayout

/-- **The line map parts the program.** The statements that put words into memory part the
program that a source assembles to, each from its entry in the line map to the next entry. The
statements come from tokens that are those of the source, one after the other, and the line of
each is the line of the first of its tokens. -/
theorem Assembly.lineMap_partitions {feed : Feed} {assembly : Assembly}
    (assembled : Assembly.ofFeed feed = .ok assembly) :
    assembly.PartedInto (feed.statements.filter (·.statement.emits)) ∧
      ∃ tokens groups, tokenize feed = .ok tokens ∧ groups.flatten = tokens ∧
        List.Forall₂ SourceStatement.ComesFrom feed.statements groups := by
  obtain ⟨tokens, tokenized, assembled⟩ := except_bind_eq_ok_iff.mp assembled
  obtain ⟨pieces, layout⟩ := exists_layout assembled
  have count := layout.length_lineMap tokenized
  constructor
  · exact {
      lines := layout.lines_lineMap tokenized
      ascending := layout.ascending_lineMap tokenized
      startOf_zero := layout.startOf_zero
      startOf_succ := fun i s here => layout.startOf_add_width tokenized here
      startOf_length := layout.toInt_startOf_of_length_le (Nat.le_of_eq count)
      words := fun i s here => layout.exists_words tokenized here
      covered := fun address above below =>
        count ▸ layout.existsUnique_covers tokenized above below
      lineOf?_eq := fun i s address here covers => layout.lineOf?_of_covers tokenized here covers
      lineOf?_negative := fun address negative => layout.lineOf?_of_neg negative }
  · obtain ⟨groups, flat, related⟩ : ∃ groups : List (List Token), groups.flatten = tokens ∧
        List.Forall₂ SourceStatement.ComesFrom feed.statements groups := by
      refine Statement.exists_groups_of_parse ?_
      rw [layout.statements_eq tokenized, layout.parse_eq, List.map_map]
      rfl
    exact ⟨tokens, groups, tokenized, flat, related⟩

/-- A source with operands on the line after their mnemonic. -/
def scattered : Feed := ⟨["push", "7 out jmp", "there .word 5", "there: halt"], none⟩

/-- What it assembles to. -/
def scatteredAssembly : Assembly where
  program := [1, 7, 21, 14, 6, 5, 0]
  symbols := ⟨[("there", ⟨6, 4⟩)]⟩
  lineMap := ⟨[(0, 1), (2, 2), (3, 2), (5, 3), (6, 4)]⟩

/-- The operand of the jump stands on line 3, and its address belongs to line 2. -/
theorem Assembly.lineMap_partitions_scattered :
    Assembly.ofFeed scattered = .ok scatteredAssembly ∧
      (scattered.statements.filter (·.statement.emits))[2]? =
        some ⟨.instruction .jmp [.label "there"], 2⟩ ∧
      scatteredAssembly.Covers 2 4 ∧ scatteredAssembly.lineMap.lineOf? 4 = some 2 := by
  have assembled : Assembly.ofFeed scattered = .ok scatteredAssembly := by decide +kernel
  have jump : (scattered.statements.filter (·.statement.emits))[2]? =
      some ⟨.instruction .jmp [.label "there"], 2⟩ := by decide +kernel
  have covers : scatteredAssembly.Covers 2 4 := by decide +kernel
  exact ⟨assembled, jump, covers,
    (lineMap_partitions assembled).1.lineOf?_eq 2 _ 4 jump covers⟩

end Stackwright
