import Stackwright.Proofs.Partition
import Stackwright.Proofs.Reading
import Stackwright.Proofs.Sides

/-!
# Listings are complete

A listing is made in three turns. The program is cut into rows at the addresses of the line map;
the rows are gathered by the lines they come from; and these lines are looked up while the lines of
the source are written, one after the other. Each turn could lose something: a cut might be out of
range, rows of one line might be torn apart by those of another, and rows of a line that is not
among those of the source would never be asked for.

Nothing of this happens (`Assembly.listed`). Addresses ascend in the line map, and so do lines, as
statements begin with tokens of the source and tokens come line by line.
-/

namespace Stackwright

open Layout

/-! ## Cutting the program -/

namespace Assembly

variable {program : List Word} {entries : List (Word × Nat)}

/-- No row is cut out of range: each begins in the program, no later than it ends. -/
def CutsInRange (program : List Word) (entries : List (Word × Nat)) : Prop :=
  ∀ before start line rest, entries = before ++ (start, line) :: rest →
    0 ≤ start ∧ start.toInt.toNat ≤ stop program rest ∧ stop program rest ≤ program.length

theorem CutsInRange.tail {entry : Word × Nat} (h : CutsInRange program (entry :: entries)) :
    CutsInRange program entries :=
  fun before start line rest split => h (entry :: before) start line rest (congrArg _ split)

/-- Rows are the entries of the line map again. -/
theorem map_cutRows (program : List Word) (entries : List (Word × Nat)) :
    (cutRows program entries).map (fun entry => (entry.2.address, entry.1)) = entries := by
  induction entries with
  | nil => rfl
  | cons entry rest ih => rw [cutRows, List.map_cons, ih]

/-- Each entry is cut where it starts and where the next one starts. -/
theorem getElem?_cutRows (program : List Word) (before : List (Word × Nat)) (start : Word)
    (line : Nat) (rest : List (Word × Nat)) :
    (cutRows program (before ++ (start, line) :: rest))[before.length]? =
      some (line, ⟨start, slice program start.toInt.toNat (stop program rest)⟩) := by
  induction before with
  | nil => rfl
  | cons entry before ih => exact ih

/-- What is cut off and what is left make up what was there. -/
theorem slice_append_drop {first last : Nat} (ordered : first ≤ last) :
    slice program first last ++ program.drop last = program.drop first := by
  have left : program.drop last = (program.drop first).drop (last - first) := by
    rw [List.drop_drop, Nat.add_sub_cancel' ordered]
  rw [slice, left, List.take_append_drop]

/-- All rows together are the program from the first of them on. -/
theorem flatMap_cutRows (ordered : CutsInRange program entries) :
    (cutRows program entries).flatMap (·.2.words) = program.drop (stop program entries) := by
  induction entries with
  | nil => exact (List.drop_length).symm
  | cons entry rest ih =>
    obtain ⟨start, line⟩ := entry
    obtain ⟨-, forwards, -⟩ := ordered [] start line rest rfl
    rw [cutRows, List.flatMap_cons, ih ordered.tail]
    exact slice_append_drop forwards

/-! ## Gathering rows -/

/-- The rows by line are some rows: line by line, with none left out or taken twice. -/
structure Gathers (groups : Bindings Nat (List Row)) (rows : List (Nat × Row)) : Prop where
  /-- no line comes twice, and lines come in order -/
  ascending : groups.keys.Pairwise (· < ·)
  /-- a line that has no rows is not there -/
  nonempty : ∀ group ∈ groups, group.2 ≠ []
  /-- one after the other, they are the rows in order -/
  rows_eq : groups.flatMap (fun group => group.2.map (group.1, ·)) = rows

namespace Gathers

variable {groups : Bindings Nat (List Row)} {rows : List (Nat × Row)} {line : Nat} {row : Row}

/-- A line is there if it has a row. -/
theorem exists_row_of_mem_keys (h : Gathers groups rows) (mem : line ∈ groups.keys) :
    ∃ row, (line, row) ∈ rows := by
  obtain ⟨group, inside, rfl⟩ := List.mem_map.mp mem
  obtain ⟨row, rest, some⟩ := List.exists_cons_of_ne_nil (h.nonempty group inside)
  refine ⟨row, h.rows_eq ▸ List.mem_flatMap.mpr ⟨group, inside, ?_⟩⟩
  rw [some]
  exact List.mem_cons_self

/-- If no line beyond this one is there, then a row for it goes behind those that it has, which are
the last ones, or behind all others. -/
theorem exists_front (h : Gathers groups rows) (bound : ∀ key ∈ groups.keys, key ≤ line) :
    ∃ (front : Bindings Nat (List Row)) (earlier : List (Nat × Row)) (old : List Row),
      Gathers front earlier ∧ (∀ key ∈ front.keys, key < line) ∧
        rows = earlier ++ old.map (line, ·) ∧
        ∀ row, Assembly.addRow groups (line, row) = front ++ [(line, old ++ [row])] := by
  by_cases present : line ∈ groups.keys
  · obtain ⟨⟨last, old⟩, inside, rfl⟩ := List.mem_map.mp present
    obtain ⟨front, back, rfl⟩ := List.append_of_mem inside
    obtain ⟨ascending, nonempty, flat⟩ := h
    rw [Bindings.keys_append, List.pairwise_append] at ascending
    obtain ⟨frontAscends, later, apart⟩ := ascending
    have smaller : ∀ key ∈ Bindings.keys front, key < last :=
      fun key mem => apart key mem last List.mem_cons_self
    have absent : last ∉ Bindings.keys front := fun mem => Nat.lt_irrefl last (smaller last mem)
    obtain rfl : back = [] := by
      cases back with
      | nil => rfl
      | cons next back =>
        have beyond := List.rel_of_pairwise_cons later (List.mem_cons_self (a := next.1))
        have within := bound next.1 (List.mem_map_of_mem (by simp))
        omega
    refine ⟨front, _, old, ⟨frontAscends, ?_, rfl⟩, smaller, ?_, fun row => ?_⟩
    · exact fun group mem => nonempty group (List.mem_append_left _ mem)
    · rw [← flat, List.flatMap_append, List.flatMap_singleton]
    · rw [Assembly.addRow, Bindings.lookup_append_of_not_mem absent,
        Bindings.put_append_of_not_mem absent]
      simp [Bindings.put]
  · refine ⟨groups, rows, [], h, fun key mem => Nat.lt_of_le_of_ne (bound key mem) ?_,
      (List.append_nil rows).symm, fun row => ?_⟩
    · rintro rfl
      exact present mem
    · rw [Assembly.addRow, Bindings.lookup_eq_none_iff.mpr present]
      exact Bindings.put_of_not_mem present [row]

/-- A row that comes after those that are gathered is gathered with them. -/
theorem addRow (h : Gathers groups rows) (last : ∀ entry ∈ rows, entry.1 ≤ line) :
    Gathers (Assembly.addRow groups (line, row)) (rows ++ [(line, row)]) := by
  have bound : ∀ key ∈ groups.keys, key ≤ line := by
    intro key mem
    obtain ⟨row, inside⟩ := h.exists_row_of_mem_keys mem
    exact last _ inside
  obtain ⟨front, earlier, old, gathers, smaller, rfl, added⟩ := h.exists_front bound
  rw [added]
  constructor
  · rw [Bindings.keys_append, List.pairwise_append]
    refine ⟨gathers.ascending, List.pairwise_singleton _ _, fun key mem other single => ?_⟩
    obtain rfl := List.mem_singleton.mp single
    exact smaller key mem
  · intro group mem
    rcases List.mem_append.mp mem with before | new
    · exact gathers.nonempty group before
    · obtain rfl := List.mem_singleton.mp new
      exact List.append_ne_nil_of_right_ne_nil _ (List.cons_ne_nil row [])
  · rw [List.flatMap_append, gathers.rows_eq, List.flatMap_singleton, List.map_append,
      List.append_assoc]
    rfl

/-- Rows with ascending lines are gathered line by line. -/
theorem foldl_addRow {rest : List (Nat × Row)} (h : Gathers groups rows)
    (ascending : (rows ++ rest).Pairwise fun a b => a.1 ≤ b.1) :
    Gathers (rest.foldl Assembly.addRow groups) (rows ++ rest) := by
  induction rest generalizing groups rows with
  | nil =>
    rw [List.append_nil]
    exact h
  | cons entry rest ih =>
    have last : ∀ other ∈ rows, other.1 ≤ entry.1 := fun other mem =>
      (List.pairwise_append.mp ascending).2.2 other mem entry List.mem_cons_self
    have split : rows ++ entry :: rest = rows ++ [entry] ++ rest := by simp
    rw [split] at ascending ⊢
    exact ih (h.addRow last) ascending

/-- All rows, without their lines. -/
theorem flatMap_snd (h : Gathers groups rows) : groups.flatMap (·.2) = rows.map (·.2) := by
  rw [← h.rows_eq, List.map_flatMap]
  refine List.flatMap_congr fun group _ => ?_
  rw [List.map_map]
  exact (List.map_id group.2).symm

end Gathers

end Assembly

/-! ## Writing lines -/

namespace Listing

/-- A row of a listing. -/
inductive Entry where
  /-- a source line without words -/
  | source (n : Nat) (line : String)
  /-- a source line beside the first words that come from it -/
  | beside (row : Row) (n : Nat) (line : String)
  /-- further words from the same source line -/
  | further (row : Row)

namespace Entry

/-- How it is written. -/
def text : Entry → String
  | source n line =>
    let margin := Text.repeated 27 ' '
    s!"{margin}| {sourceSide n line}"
  | beside row n line => s!"{machineSide row} | {sourceSide n line}"
  | further row => s!"{machineSide row} |"

/-- What is printed shows the words, if there are any, and the source line, if it is shown: the
words on the left of the rule, and the source line on the right. -/
def IsShown : Entry → String → Prop
  | source n line, text =>
    ∃ right, LineIsShown n line right ∧ text = "".pushn ' ' 27 ++ "| " ++ right
  | beside row n line, text =>
    ∃ left right, row.IsShown left ∧ LineIsShown n line right ∧ text = left ++ " | " ++ right
  | further row, text => ∃ left, row.IsShown left ∧ text = left ++ " |"

theorem isShown_text (entry : Entry) : entry.IsShown entry.text := by
  cases entry with
  | source n line =>
    refine ⟨_, lineIsShown_sourceSide n line, ?_⟩
    simp only [text, pushn_eq, toString_eq, String.empty_append]
  | beside row n line =>
    refine ⟨_, _, isShown_machineSide row, lineIsShown_sourceSide n line, ?_⟩
    simp only [text, toString_eq]
  | further row =>
    refine ⟨_, isShown_machineSide row, ?_⟩
    simp only [text, toString_eq]

/-- The words that are shown. -/
def row? : Entry → Option Row
  | source _ _ => none
  | beside row _ _ | further row => some row

/-- The source line that is shown, with its number. -/
def source? : Entry → Option (String × Nat)
  | source n line | beside _ n line => some (line, n)
  | further _ => none

end Entry

/-- What is written for a source line. -/
def lineEntries (n : Nat) (line : String) : Option (List Row) → List Entry
  | none => [.source n line]
  | some [] => []
  | some (row :: more) => .beside row n line :: more.map .further

/-- What is written for the lines of a source. -/
def entries (groups : Bindings Nat (List Row)) (lines : List String) : List Entry :=
  (lines.zipIdx 1).flatMap fun (line, n) => lineEntries n line (groups.lookup n)

/-- What is written shows the entries one by one. -/
theorem forall₂_isShown (entries : List Entry) :
    List.Forall₂ Entry.IsShown entries (entries.map Entry.text) :=
  List.forall₂_map_right_iff.mpr (List.forall₂_same.mpr fun entry _ => entry.isShown_text)

theorem lineRows_eq (n : Nat) (line : String) (rows : Option (List Row)) :
    lineRows n line rows = (lineEntries n line rows).map Entry.text := by
  match rows with
  | none => rfl
  | some [] => rfl
  | some (row :: more) =>
    rw [lineRows, lineEntries, List.map_cons, List.map_map]
    rfl

variable {groups : Bindings Nat (List Row)}

theorem body_eq (groups : Bindings Nat (List Row)) (n : Nat) (lines : List String) :
    body groups n lines = ((lines.zipIdx n).flatMap fun (line, n) =>
      lineEntries n line (groups.lookup n)).map Entry.text := by
  induction lines generalizing n with
  | nil => rfl
  | cons line rest ih =>
    rw [body, ih, lineRows_eq, List.zipIdx_cons, List.flatMap_cons, List.map_append]

theorem filterMap_row?_lineEntries (n : Nat) (line : String) (rows : Option (List Row)) :
    (lineEntries n line rows).filterMap Entry.row? = rows.getD [] := by
  match rows with
  | none => rfl
  | some [] => rfl
  | some (row :: more) =>
    simp only [lineEntries, List.filterMap_cons, Entry.row?, List.filterMap_map]
    exact congrArg (row :: ·) List.filterMap_some

theorem filterMap_source?_lineEntries (n : Nat) (line : String) {rows : Option (List Row)}
    (nonempty : rows ≠ some []) :
    (lineEntries n line rows).filterMap Entry.source? = [(line, n)] := by
  match rows with
  | none => rfl
  | some [] => exact absurd rfl nonempty
  | some (row :: more) =>
    simp only [lineEntries, List.filterMap_cons, Entry.source?, List.filterMap_map]
    exact congrArg ((line, n) :: ·) (List.filterMap_eq_nil_iff.mpr fun _ _ => rfl)

/-- Who asks for each line in turn gets all rows, if the lines that have rows are among those that
are asked for. -/
theorem flatMap_lookup (ascending : groups.keys.Pairwise (· < ·)) {n length : Nat}
    (inside : ∀ key ∈ groups.keys, n ≤ key ∧ key < n + length) :
    (List.range' n length).flatMap (fun k => (groups.lookup k).getD []) =
      groups.flatMap (·.2) := by
  induction length generalizing n groups with
  | zero =>
    cases groups with
    | nil => rfl
    | cons group groups =>
      have between := inside group.1 List.mem_cons_self
      omega
  | succ length ih =>
    rw [List.range'_succ, List.flatMap_cons]
    by_cases present : n ∈ groups.keys
    · cases groups with
      | nil => cases present
      | cons group groups =>
        obtain ⟨first, later⟩ := List.pairwise_cons.mp ascending
        obtain rfl : group.1 = n := by
          have between := (inside group.1 List.mem_cons_self).1
          rcases List.mem_cons.mp present with same | behind
          · exact same.symm
          · have less := first n behind
            omega
        have others : ∀ k ∈ List.range' (group.1 + 1) length,
            ((group :: groups).lookup k).getD [] = (groups.lookup k).getD [] := by
          intro k mem
          have beyond := (List.mem_range'_1.mp mem).1
          rw [List.lookup_cons, beq_false_of_ne (by omega)]
        rw [List.flatMap_congr others, ih later, List.lookup_cons, beq_self_eq_true]
        · rfl
        · intro key mem
          have between := inside key (List.mem_cons_of_mem _ mem)
          have less := first key mem
          omega
    · rw [Bindings.lookup_eq_none_iff.mpr present, ih ascending]
      · rfl
      · intro key mem
        have between := inside key mem
        have other : key ≠ n := fun same => present (same ▸ mem)
        omega

/-- Each source line is written once, if no line has an empty list of rows. -/
theorem filterMap_source?_entries (nonempty : ∀ group ∈ groups, group.2 ≠ [])
    (lines : List String) :
    (entries groups lines).filterMap Entry.source? = lines.zipIdx 1 := by
  have once : ∀ (line : String) (n : Nat),
      (lineEntries n line (groups.lookup n)).filterMap Entry.source? = [(line, n)] := by
    intro line n
    refine filterMap_source?_lineEntries n line fun empty => ?_
    exact nonempty _ (Bindings.mem_of_lookup empty) rfl
  rw [entries, List.filterMap_flatMap]
  simp only [once]
  exact List.flatMap_singleton' _

/-- Each row is written once, if it is one for a source line. -/
theorem filterMap_row?_entries (ascending : groups.keys.Pairwise (· < ·)) {lines : List String}
    (inside : ∀ key ∈ groups.keys, 1 ≤ key ∧ key ≤ lines.length) :
    (entries groups lines).filterMap Entry.row? = groups.flatMap (·.2) := by
  have range : ∀ key ∈ groups.keys, 1 ≤ key ∧ key < 1 + lines.length := by
    intro key mem
    have between := inside key mem
    omega
  rw [← flatMap_lookup ascending range, ← List.zipIdx_map_snd 1 lines, List.flatMap_map, entries,
    List.filterMap_flatMap]
  simp only [filterMap_row?_lineEntries]

/-- The first row of a line is written beside this line, and the others follow. -/
theorem infix_entries (distinct : groups.keys.Nodup) {n : Nat} {row : Row} {more : List Row}
    (mem : (n, row :: more) ∈ groups) {lines : List String} {line : String} (positive : 1 ≤ n)
    (here : lines[n - 1]? = some line) :
    .beside row n line :: more.map .further <:+: entries groups lines := by
  have numbered : (line, n) ∈ lines.zipIdx 1 :=
    List.mk_mem_zipIdx_iff_le_and_getElem?_sub.mpr ⟨positive, here⟩
  have written : lineEntries n line (groups.lookup n) =
      .beside row n line :: more.map .further := by
    rw [Bindings.lookup_of_mem distinct mem]
    rfl
  obtain ⟨before, after, split⟩ := List.append_of_mem numbered
  rw [entries, split, List.flatMap_append, List.flatMap_cons, ← List.append_assoc, ← written]
  exact List.infix_append _ _ _

end Listing

/-! ## Lines of statements -/

/-- Statements stand on lines of tokens, in the same order. -/
theorem sublist_lines {statements : List SourceStatement} {groups : List (List Token)}
    (related : List.Forall₂ SourceStatement.ComesFrom statements groups) :
    (statements.map (·.line)).Sublist (groups.flatten.map (·.line)) := by
  induction related with
  | nil => exact .slnil
  | @cons s group statements groups comes related ih =>
    cases group with
    | nil => cases comes.line_eq
    | cons t ts =>
      have line : t.line = s.line := Option.some.inj comes.line_eq
      rw [List.map_cons, List.flatten_cons, List.map_append, List.map_cons, line, List.cons_append]
      exact (ih.trans (List.sublist_append_right _ _)).cons_cons s.line

namespace IsLayout

variable {feed : Feed} {tokens : List Token} {assembly : Assembly} {pieces : List Piece}

/-- Rows come from lines of tokens, in the same order. -/
theorem sublist_rows (layout : IsLayout tokens assembly pieces)
    (tokenized : tokenize feed = .ok tokens) :
    (assembly.rows.map (·.1)).Sublist (tokens.map (·.line)) := by
  have parsed : Statement.parse tokens = feed.statements.map .ok := by
    rw [layout.statements_eq tokenized, layout.parse_eq, List.map_map]
    rfl
  obtain ⟨groups, rfl, related⟩ := Statement.exists_groups_of_parse parsed
  have lines : assembly.rows.map (·.1) = assembly.lineMap.entries.map (·.2) := by
    rw [← Assembly.map_cutRows assembly.program assembly.lineMap.entries, List.map_map]
    rfl
  rw [lines, layout.lines_lineMap tokenized]
  exact (List.filter_sublist.map _).trans (sublist_lines related)

theorem gathers_rowsByLine (layout : IsLayout tokens assembly pieces)
    (tokenized : tokenize feed = .ok tokens) {lines : List String}
    (taken : Token.TakenFrom lines tokens) :
    Assembly.Gathers assembly.rowsByLine assembly.rows := by
  have ascending : (assembly.rows.map (·.1)).Pairwise (· ≤ ·) :=
    (List.pairwise_map.mpr taken.ascending).sublist (layout.sublist_rows tokenized)
  have nothing : Assembly.Gathers [] [] := ⟨.nil, List.forall_mem_nil _, rfl⟩
  exact nothing.foldl_addRow (List.pairwise_map.mp ascending)

/-- A line that has rows is one of the source. -/
theorem inside_of_mem_keys (layout : IsLayout tokens assembly pieces)
    (tokenized : tokenize feed = .ok tokens) {lines : List String}
    (taken : Token.TakenFrom lines tokens) {n : Nat} (mem : n ∈ assembly.rowsByLine.keys) :
    1 ≤ n ∧ n ≤ lines.length := by
  obtain ⟨row, isRow⟩ := (layout.gathers_rowsByLine tokenized taken).exists_row_of_mem_keys mem
  have numbered : n ∈ assembly.rows.map (·.1) := List.mem_map_of_mem isRow
  obtain ⟨t, isToken, rfl⟩ := List.mem_map.mp ((layout.sublist_rows tokenized).mem numbered)
  exact taken.inside t isToken

/-- A row ends where the next statement starts. -/
theorem stop_eq (layout : IsLayout tokens assembly pieces)
    (tokenized : tokenize feed = .ok tokens) (n : Nat) :
    (Assembly.stop assembly.program (assembly.lineMap.entries.drop n) : Int) =
      (assembly.startOf n).toInt := by
  cases left : assembly.lineMap.entries.drop n with
  | nil =>
    rw [layout.toInt_startOf_of_length_le (List.drop_eq_nil_iff.mp left)]
    rfl
  | cons entry rest =>
    have here : assembly.lineMap.entries[n]? = some entry := by
      rw [← List.head?_drop, left]
      rfl
    have positive := layout.startOf_le tokenized (Nat.zero_le n)
    rw [layout.startOf_zero, Assembly.startOf_of_getElem? here] at positive
    rw [Assembly.startOf_of_getElem? here]
    exact Int.toNat_of_nonneg positive

theorem cutsInRange (layout : IsLayout tokens assembly pieces)
    (tokenized : tokenize feed = .ok tokens) :
    Assembly.CutsInRange assembly.program assembly.lineMap.entries := by
  intro before start line rest split
  have here : assembly.lineMap.entries[before.length]? = some (start, line) := by simp [split]
  have behind : assembly.lineMap.entries.drop (before.length + 1) = rest := by simp [split]
  have inside : before.length + 1 ≤ assembly.lineMap.entries.length :=
    (List.getElem?_eq_some_iff.mp here).1
  have positive : (0 : Word) ≤ start := by
    have first := layout.startOf_le tokenized (Nat.zero_le before.length)
    rw [layout.startOf_zero, Assembly.startOf_of_getElem? here] at first
    exact Int32.le_iff_toInt_le.mpr first
  have forwards : start.toInt < (assembly.startOf (before.length + 1)).toInt := by
    have less := layout.startOf_lt tokenized inside
    rwa [Assembly.startOf_of_getElem? here] at less
  have within := layout.startOf_le tokenized inside
  have ends := layout.stop_eq tokenized (before.length + 1)
  rw [layout.toInt_startOf_of_length_le (Nat.le_refl _)] at within
  rw [behind] at ends
  refine ⟨positive, ?_, ?_⟩
  · omega
  · omega

/-- The rows of a program are all of it. -/
theorem flatMap_rows (layout : IsLayout tokens assembly pieces)
    (tokenized : tokenize feed = .ok tokens) :
    assembly.rows.flatMap (·.2.words) = assembly.program := by
  have start : Assembly.stop assembly.program assembly.lineMap.entries = 0 := by
    have first := layout.stop_eq tokenized 0
    rw [layout.startOf_zero, List.drop_zero] at first
    exact Int.ofNat_eq_zero.mp first
  rw [Assembly.rows, Assembly.flatMap_cutRows (layout.cutsInRange tokenized), start, List.drop_zero]

/-- The row of a statement has the words of the statement. -/
theorem exists_row (layout : IsLayout tokens assembly pieces)
    (tokenized : tokenize feed = .ok tokens) {i : Nat} {s : SourceStatement}
    (here : (feed.statements.filter (·.statement.emits))[i]? = some s) :
    ∃ row, assembly.rows[i]? = some (s.line, row) ∧
      s.statement.words assembly.symbols s.line = .ok row.words := by
  have lines := congrArg (·[i]?) (layout.lines_lineMap tokenized)
  simp only [List.getElem?_map, here, Option.map_some] at lines
  obtain ⟨⟨start, line⟩, found, rfl⟩ := Option.map_eq_some_iff.mp lines
  obtain ⟨before, rest, split, rfl⟩ := exists_split_of_getElem? found
  have behind : assembly.lineMap.entries.drop (before.length + 1) = rest := by simp [split]
  have cut := Assembly.getElem?_cutRows assembly.program before start s.line rest
  rw [← split] at cut
  obtain ⟨words, written, wide, isPrefix⟩ := layout.exists_words tokenized here
  have next := layout.startOf_add_width tokenized here
  have ends := layout.stop_eq tokenized (before.length + 1)
  rw [Assembly.startOf_of_getElem? found] at isPrefix next
  rw [behind, next] at ends
  have size : Assembly.stop assembly.program rest - start.toInt.toNat = words.length := by
    have positive := (layout.cutsInRange tokenized before start s.line rest split).1
    have above : 0 ≤ start.toInt := Int32.le_iff_toInt_le.mp positive
    dsimp only at ends
    omega
  refine ⟨_, cut, ?_⟩
  rw [written, Assembly.slice, size, ← List.prefix_iff_eq_take.mp isPrefix]

end IsLayout

/-! ## Listings -/

/-- What it means for a listing to show what the lines of a source were assembled to, with nothing
left out and nothing twice. -/
structure Assembly.ListedWith (assembly : Assembly) (lines : List String) : Prop where
  /-- no row is cut out of range -/
  inRange : CutsInRange assembly.program assembly.lineMap.entries
  /-- rows are the entries of the line map -/
  entries : assembly.rows.map (fun entry => (entry.2.address, entry.1)) = assembly.lineMap.entries
  /-- each has the words of the statement that its entry was made for -/
  words : ∀ (i : Nat) (s : SourceStatement),
    ((Feed.mk lines none).statements.filter (·.statement.emits))[i]? = some s →
    ∃ row, assembly.rows[i]? = some (s.line, row) ∧
      s.statement.words assembly.symbols s.line = .ok row.words
  /-- all words together are the program -/
  program : assembly.rows.flatMap (·.2.words) = assembly.program
  /-- by line there are the same rows, and lines ascend -/
  gathers : Gathers assembly.rowsByLine assembly.rows
  /-- each line that has rows is one of the source -/
  inside : ∀ n ∈ assembly.rowsByLine.keys, 1 ≤ n ∧ n ≤ lines.length
  /-- between two rules, one of which has the name of the file set into it, what is printed shows
  the entries of the listing one by one -/
  write_eq : ∀ file, ∃ texts,
    Listing.write file lines assembly =
      ("".pushn '-' 27 ++ "+------[" ++ file ++ "]".pushn '-' (45 - file.utf8ByteSize)) ::
        texts ++ ["".pushn '-' 27 ++ "+".pushn '-' 53] ∧
    List.Forall₂ Listing.Entry.IsShown (Listing.entries assembly.rowsByLine lines) texts
  /-- each row is shown once, in order -/
  shows_rows : (Listing.entries assembly.rowsByLine lines).filterMap Listing.Entry.row? =
    assembly.rows.map (·.2)
  /-- each source line is shown once, in order -/
  shows_lines : (Listing.entries assembly.rowsByLine lines).filterMap Listing.Entry.source? =
    lines.zipIdx 1
  /-- the first row of a line stands beside this line, and the others follow -/
  shows_beside : ∀ n row more, (n, row :: more) ∈ assembly.rowsByLine →
    ∃ line, lines[n - 1]? = some line ∧
      .beside row n line :: more.map .further <:+: Listing.entries assembly.rowsByLine lines

/-- **Listings are complete.** What a source assembles to can be listed beside its lines, and the
listing loses nothing and shows nothing twice. -/
theorem Assembly.listed {files : FileTree} {source : Source} {assembly : Assembly}
    (assembled : source.assemble files = .ok assembly) :
    ∃ lines, source.lines files = .ok lines ∧ assembly.ListedWith lines := by
  rw [Source.assemble_eq] at assembled
  obtain ⟨tokens, read, assembled⟩ := except_bind_eq_ok_iff.mp assembled
  obtain ⟨lines, shown, rfl⟩ := Source.tokenize_eq_ok_iff.mp read
  obtain ⟨pieces, layout⟩ := exists_layout assembled
  have tokenized : tokenize ⟨lines, none⟩ = .ok (Token.ofLines 1 lines) := rfl
  have taken := Token.takenFrom_ofLines lines
  have gathers := layout.gathers_rowsByLine tokenized taken
  have inside : ∀ n ∈ assembly.rowsByLine.keys, 1 ≤ n ∧ n ≤ lines.length :=
    fun n mem => layout.inside_of_mem_keys tokenized taken mem
  refine ⟨lines, shown, ?_⟩
  exact {
    inRange := layout.cutsInRange tokenized
    entries := Assembly.map_cutRows _ _
    words := fun i s here => layout.exists_row tokenized here
    program := layout.flatMap_rows tokenized
    gathers := gathers
    inside := inside
    write_eq := fun file => by
      refine ⟨_, ?_, Listing.forall₂_isShown _⟩
      rw [Listing.write, Listing.body_eq, Listing.opening_eq, Listing.closing_eq]
      rfl
    shows_rows := by
      rw [Listing.filterMap_row?_entries gathers.ascending inside, gathers.flatMap_snd]
    shows_lines := Listing.filterMap_source?_entries gathers.nonempty lines
    shows_beside := fun n row more mem => by
      obtain ⟨first, last⟩ := inside n (List.mem_map_of_mem mem)
      have here := List.getElem?_eq_getElem (show n - 1 < lines.length by omega)
      have distinct := gathers.ascending.imp Nat.ne_of_lt
      exact ⟨_, here, Listing.infix_entries distinct mem first here⟩ }

/-- A source with two instructions on one line, and lines without any. -/
def adding : String := "; seven\nstart: push 3 push 4\nadd\n\nhalt"

/-- Its lines. -/
def addingLines : List String := ["; seven", "start: push 3 push 4", "add", "", "halt"]

/-- What it assembles to. -/
def addingAssembly : Assembly where
  program := [1, 3, 1, 4, 5, 0]
  symbols := ⟨[("start", ⟨0, 2⟩)]⟩
  lineMap := ⟨[(0, 2), (2, 2), (4, 3), (5, 5)]⟩

theorem Assembly.listed_adding :
    (Source.text adding).assemble ⟨[], []⟩ = .ok addingAssembly ∧
      (Source.text adding).lines ⟨[], []⟩ = .ok addingLines ∧
      addingAssembly.ListedWith addingLines ∧
      Listing.write "adding.ftnt" addingLines addingAssembly =
        ["---------------------------+------[adding.ftnt]----------------------------------",
          "                           |    1:  \x1b[2m; seven\x1b[22m",
          "\x1b[36m[0000]\x1b[39m 1 3                  |    2: start: push 3 push 4 \x1b[2m\x1b[22m",
          "\x1b[36m[0002]\x1b[39m 1 4                  |",
          "\x1b[36m[0004]\x1b[39m 5                    |    3: add \x1b[2m\x1b[22m",
          "                           |    4:  \x1b[2m\x1b[22m",
          "\x1b[36m[0005]\x1b[39m 0                    |    5: halt \x1b[2m\x1b[22m",
          "---------------------------+-----------------------------------------------------"] := by
  have assembled : (Source.text adding).assemble ⟨[], []⟩ = .ok addingAssembly := by
    decide +kernel
  have cut : Text.lines adding = addingLines := by decide +kernel
  obtain ⟨lines, shown, listing⟩ := listed assembled
  obtain rfl : lines = addingLines := (Except.ok.inj shown).symm.trans cut
  exact ⟨assembled, shown, listing, by decide +kernel⟩

end Stackwright
