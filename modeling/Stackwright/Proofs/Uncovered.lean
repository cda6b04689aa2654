import Stackwright.Proofs.Partition

/-!
# Addresses outside a program

The line map is to tell the line of the instruction that covers an address. An address in front of
the program is covered by none, and one beyond its end is not either. But the entries say only
where statements start. The search stops at the first entry beyond the address, and where there is
no such entry it ends up at the last one.

So there is no line for what is in front of a program, and for all that comes behind it there is
the line of its last statement (`uncovered_line`). An empty program, which has no last statement,
is the only one that has no lines beyond its end.
-/

namespace Stackwright

namespace LineMap

variable {map : LineMap} {address : Word}

/-- No line is found just if the first entry lies beyond the address already. -/
theorem lineOf?_eq_none_iff :
    map.lineOf? address = none ↔ ∀ entry, map.entries.head? = some entry → address < entry.1 := by
  obtain ⟨entries⟩ := map
  cases entries with
  | nil => simp [lineOf?]
  | cons first rest =>
    rw [lineOf?, Option.map_eq_none_iff, List.getLast?_eq_none_iff]
    by_cases reached : first.1 ≤ address
    · simp [reached, Int32.not_lt.mpr reached]
    · simp [reached, Int32.not_le.mp reached]

/-- Where no entry lies beyond the address, the line is that of the last one. -/
theorem lineOf?_of_reached (reached : ∀ entry ∈ map.entries, entry.1 ≤ address) :
    map.lineOf? address = (map.entries.map (·.2)).getLast? := by
  have all : map.entries.takeWhile (fun entry => decide (entry.1 ≤ address)) = map.entries := by
    rw [List.takeWhile_eq_self_iff]
    exact fun entry mem => decide_eq_true (reached entry mem)
  rw [lineOf?, all, List.getLast?_map]

end LineMap

namespace IsLayout

variable {feed : Feed} {tokens : List Token} {assembly : Assembly} {pieces : List Piece}
  {address : Word}

/-- The addresses that statements cover are those in the program. -/
theorem exists_covers_iff (layout : IsLayout tokens assembly pieces)
    (tokenized : tokenize feed = .ok tokens) :
    (∃ i < assembly.lineMap.entries.length, assembly.Covers i address) ↔
      0 ≤ address ∧ address.toInt < assembly.program.length := by
  constructor
  · rintro ⟨i, inside, reached, beyond⟩
    rw [Int32.le_iff_toInt_le] at reached
    rw [Int32.lt_iff_toInt_lt] at beyond
    have first := layout.startOf_le tokenized (Nat.zero_le i)
    have last := layout.startOf_le tokenized (Nat.succ_le_of_lt inside)
    rw [layout.startOf_zero] at first
    rw [layout.toInt_startOf_of_length_le (Nat.le_refl _)] at last
    exact ⟨Int32.le_iff_toInt_le.mpr (Int.le_trans first reached), Int.lt_of_lt_of_le beyond last⟩
  · rintro ⟨above, below⟩
    obtain ⟨i, covers, -⟩ := layout.existsUnique_covers tokenized above below
    exact ⟨i, covers⟩

/-- The line map has no entries just if there is no program, since the first statement with an entry
puts a word into memory. -/
theorem entries_eq_nil_iff (layout : IsLayout tokens assembly pieces)
    (tokenized : tokenize feed = .ok tokens) :
    assembly.lineMap.entries = [] ↔ assembly.program = [] := by
  have zero : (assembly.startOf 0).toInt = 0 := congrArg Int32.toInt layout.startOf_zero
  constructor
  · intro nothing
    have ends := layout.toInt_startOf_of_length_le (n := 0) (by simp [nothing])
    exact List.length_eq_zero_iff.mp (by omega)
  · intro nothing
    by_contra entries
    have inside := List.length_pos_iff.mpr entries
    have starts := layout.startOf_lt tokenized inside
    have ends := layout.startOf_le tokenized (Nat.succ_le_of_lt inside)
    rw [layout.toInt_startOf_of_length_le (Nat.le_refl _), nothing] at ends
    simp only [List.length_nil, Nat.succ_eq_add_one] at ends
    omega

/-- No line is found in front of the program, and none if there is no program. -/
theorem lineOf?_eq_none_iff (layout : IsLayout tokens assembly pieces)
    (tokenized : tokenize feed = .ok tokens) :
    assembly.lineMap.lineOf? address = none ↔ address < 0 ∨ assembly.program = [] := by
  rw [LineMap.lineOf?_eq_none_iff, ← layout.entries_eq_nil_iff tokenized]
  cases entries : assembly.lineMap.entries with
  | nil => simp
  | cons first rest =>
    have found : assembly.lineMap.entries[0]? = some first := by simp [entries]
    have start := Assembly.startOf_of_getElem? found
    rw [layout.startOf_zero] at start
    simp [← start]

/-- Beyond the end of the program the line is that of its last statement. -/
theorem lineOf?_of_length_le (layout : IsLayout tokens assembly pieces)
    (tokenized : tokenize feed = .ok tokens) (beyond : assembly.program.length ≤ address.toInt) :
    assembly.lineMap.lineOf? address =
      ((feed.statements.filter (·.statement.emits)).map (·.line)).getLast? := by
  rw [← layout.lines_lineMap tokenized]
  refine LineMap.lineOf?_of_reached fun entry mem => ?_
  obtain ⟨i, here⟩ := List.getElem?_of_mem mem
  obtain ⟨inside, -⟩ := List.getElem?_eq_some_iff.mp here
  rw [← Assembly.startOf_of_getElem? here, Int32.le_iff_toInt_le]
  calc (assembly.startOf i).toInt
      ≤ (assembly.startOf assembly.lineMap.entries.length).toInt :=
        layout.startOf_le tokenized (Nat.le_of_lt inside)
    _ = assembly.program.length := layout.toInt_startOf_of_length_le (Nat.le_refl _)
    _ ≤ address.toInt := beyond

end IsLayout

/-- **What is behind a program has the line of its last statement.** The addresses that statements
cover are those in the program. No line is found for those in front of it. For those behind it, none
is found if the program is empty, and else the line of the last statement. -/
theorem Assembly.uncovered_line {feed : Feed} {assembly : Assembly}
    (assembled : Assembly.ofFeed feed = .ok assembly) (address : Word) :
    let statements := feed.statements.filter (·.statement.emits)
    ((∃ i < statements.length, assembly.Covers i address) ↔
        0 ≤ address ∧ address.toInt < assembly.program.length) ∧
      (assembly.lineMap.lineOf? address = none ↔ address < 0 ∨ assembly.program = []) ∧
      (assembly.program.length ≤ address.toInt →
        assembly.lineMap.lineOf? address = (statements.map (·.line)).getLast?) := by
  obtain ⟨tokens, tokenized, assembled⟩ := except_bind_eq_ok_iff.mp assembled
  obtain ⟨pieces, layout⟩ := exists_layout assembled
  refine ⟨?_, layout.lineOf?_eq_none_iff tokenized, layout.lineOf?_of_length_le tokenized⟩
  rw [← layout.length_lineMap tokenized]
  exact layout.exists_covers_iff tokenized

/-- A source whose last line stands behind all of its program. -/
def departing : Feed := ⟨["push 7", "jmp end", "", "end:"], none⟩

/-- What it assembles to. -/
def departingAssembly : Assembly where
  program := [1, 7, 14, 4]
  symbols := ⟨[("end", ⟨4, 4⟩)]⟩
  lineMap := ⟨[(0, 1), (2, 2)]⟩

/-- The label is behind the program, and the line that is found there is that of the jump. -/
theorem Assembly.uncovered_line_departing :
    Assembly.ofFeed departing = .ok departingAssembly ∧
      (departingAssembly.program.length : Int) ≤ (4 : Word).toInt ∧
      departingAssembly.lineMap.lineOf? 4 = some 2 := by
  have assembled : Assembly.ofFeed departing = .ok departingAssembly := by decide +kernel
  have beyond : (departingAssembly.program.length : Int) ≤ (4 : Word).toInt := by decide
  have last : ((departing.statements.filter (·.statement.emits)).map (·.line)).getLast? =
      some 2 := by decide +kernel
  exact ⟨assembled, beyond, ((uncovered_line assembled 4).2.2 beyond).trans last⟩

/-- Not all the addresses that no statement covers are without a line. A program of a single word
ends at address 1, where there is the line of this word. -/
theorem Assembly.line_without_cover :
    ¬∀ (feed : Feed) (assembly : Assembly), Assembly.ofFeed feed = .ok assembly →
      ∀ address : Word, address < 0 ∨ assembly.program.length ≤ address.toInt →
        assembly.lineMap.lineOf? address = none := by
  intro all
  have assembled : Assembly.ofFeed ⟨["halt"], none⟩ = .ok ⟨[0], ⟨[]⟩, ⟨[(0, 1)]⟩⟩ := by
    decide +kernel
  have nothing := all _ _ assembled 1 (by decide)
  exact absurd nothing (by decide)

end Stackwright
