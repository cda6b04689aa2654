import Mathlib.Data.List.Find
import Mathlib.Data.List.Induction
import Stackwright.Proofs.Sequencing
import Stackwright.SymbolTable

/-!
# What a symbol table goes by

A symbol table is what calls have left behind of the empty one. Some of the calls come too late,
because their name is bound already. They are refused, with the line of the call that was faster,
and the table that they leave behind is the one that they found.

So a table goes by the first call with each name. This is the invariant (`GoesBy`): the names stand
in the order in which they first came, and each is bound as by the first call with it. A call keeps
it whether it is accepted (`GoesBy.insert_new`) or refused (`GoesBy.insert_again`). What is found in
a table, also for an address, is then found among the calls (`ofCalls_registers`).
-/

namespace Stackwright

/-- A call that is to bind a name. -/
structure Insertion where
  /-- the name -/
  name : String
  /-- the address that it is to stand for -/
  address : Word
  /-- the line of its definition -/
  line : Nat
  deriving DecidableEq, Repr

/-- What the name is to be bound to. -/
def Insertion.symbol (call : Insertion) : Symbol := ⟨call.address, call.line⟩

namespace SymbolTable

/-- The table that calls leave behind, one after the other and each whether it is refused or not,
if the first one finds the empty table. -/
def ofCalls (calls : List Insertion) : SymbolTable :=
  calls.foldl (fun table call => after (insert call.name call.address call.line) table) empty

theorem ofCalls_concat (calls : List Insertion) (call : Insertion) :
    ofCalls (calls ++ [call]) =
      after (insert call.name call.address call.line) (ofCalls calls) :=
  List.foldl_append

/-! ## The invariant -/

/-- A table goes by the first call with each name. -/
structure GoesBy (table : SymbolTable) (calls : List Insertion) : Prop where
  /-- the names stand in the order in which they first came -/
  keys_eq : table.entries.keys = (calls.map (·.name)).eraseDups
  /-- no name stands there twice -/
  nodup_keys : table.entries.keys.Nodup
  /-- a name is bound as by the first call with it -/
  find?_eq : ∀ name, table.find? name = (calls.find? (·.name == name)).map (·.symbol)

/-- An element at the end counts only if it did not come before. -/
theorem eraseDups_concat (names : List String) (name : String) :
    (names ++ [name]).eraseDups =
      if name ∈ names then names.eraseDups else names.eraseDups ++ [name] := by
  rw [List.eraseDups_append, List.removeAll]
  by_cases before : name ∈ names
  · simp [before]
  · simp [before, List.eraseDups_cons]

section

variable {table table' : SymbolTable} {calls : List Insertion} {call first : Insertion}
  {address : Word} {name : String}

theorem goesBy_empty : empty.GoesBy [] where
  keys_eq := rfl
  nodup_keys := List.nodup_nil
  find?_eq _ := rfl

namespace GoesBy

/-- A call is refused if there was another with its name, which is blamed. The table stays. -/
theorem insert_eq_error (goes : table.GoesBy calls)
    (known : calls.find? (·.name == call.name) = some first) :
    insert call.name call.address call.line table =
      .error (.duplicateSymbol call.name call.line first.line) table := by
  have bound : table.find? call.name = some first.symbol := by
    rw [goes.find?_eq, known, Option.map_some]
  exact insert_of_bound bound

/-- A refused call is as good as none. -/
theorem insert_again (goes : table.GoesBy calls)
    (known : calls.find? (·.name == call.name) = some first) :
    table.GoesBy (calls ++ [call]) where
  keys_eq := by
    have same : first.name = call.name := by simpa using List.find?_some known
    have before : call.name ∈ calls.map (·.name) :=
      same ▸ List.mem_map_of_mem (List.mem_of_find?_eq_some known)
    rw [goes.keys_eq, List.map_append, List.map_singleton, eraseDups_concat, if_pos before]
  nodup_keys := goes.nodup_keys
  find?_eq name := by
    rw [goes.find?_eq, List.find?_append, List.find?_singleton]
    by_cases same : call.name = name
    · rw [← same, known, Option.some_or]
    · rw [beq_false_of_ne same, if_neg Bool.false_ne_true, Option.or_none]

/-- A call with a new name is accepted. -/
theorem exists_insert_eq_ok (goes : table.GoesBy calls)
    (new : calls.find? (·.name == call.name) = none) :
    ∃ table', insert call.name call.address call.line table = .ok () table' := by
  have free : table.find? call.name = none := by
    rw [goes.find?_eq, new, Option.map_none]
  exact ⟨_, insert_of_free free⟩

/-- A call that is accepted is the first one with its name. -/
theorem insert_new (goes : table.GoesBy calls)
    (new : calls.find? (·.name == call.name) = none)
    (inserted : insert call.name call.address call.line table = .ok () table') :
    table'.GoesBy (calls ++ [call]) := by
  obtain ⟨free, entries⟩ := entries_of_insert_eq_ok inserted
  have absent : call.name ∉ table.entries.keys := Bindings.lookup_eq_none_iff.mp free
  constructor
  · rw [entries, Bindings.keys_append, List.map_append, List.map_singleton, eraseDups_concat,
      goes.keys_eq]
    rw [goes.keys_eq, List.mem_eraseDups] at absent
    rw [if_neg absent]
    rfl
  · rw [entries]
    exact Bindings.nodup_keys_append_iff.mpr ⟨goes.nodup_keys, absent⟩
  · intro name
    rw [find?_of_insert_eq_ok inserted, goes.find?_eq, List.find?_append, List.find?_singleton]
    by_cases same : name = call.name
    · rw [same, new, beq_self_eq_true, if_pos rfl, Option.none_or, if_pos rfl]
      rfl
    · rw [beq_false_of_ne same, beq_false_of_ne (Ne.symm same), if_neg Bool.false_ne_true,
        if_neg Bool.false_ne_true, Option.or_none]

/-- A call keeps the invariant. -/
theorem step (goes : table.GoesBy calls) :
    (after (insert call.name call.address call.line) table).GoesBy (calls ++ [call]) := by
  cases known : calls.find? (·.name == call.name) with
  | some first =>
    rw [after, goes.insert_eq_error known]
    exact goes.insert_again known
  | none =>
    obtain ⟨table', inserted⟩ := goes.exists_insert_eq_ok known
    rw [after, inserted]
    exact goes.insert_new known inserted

end GoesBy

/-- Whatever the calls are, the table goes by the first ones. -/
theorem goesBy_ofCalls (calls : List Insertion) : (ofCalls calls).GoesBy calls := by
  induction calls using List.reverseRecOn with
  | nil => exact goesBy_empty
  | append_singleton calls call ih =>
    rw [ofCalls_concat]
    exact ih.step

/-! ## Names of an address -/

namespace GoesBy

/-- The address of a name is that of its entry. -/
theorem address?_of_mem (goes : table.GoesBy calls) {entry : String × Symbol}
    (mem : entry ∈ table.entries) : table.address? entry.1 = some entry.2.address := by
  rw [address?, find?, Bindings.lookup_of_mem goes.nodup_keys mem, Option.map_some]

/-- An address has the first of the names that stand for it. -/
theorem nameAt?_eq (goes : table.GoesBy calls) (address : Word) :
    table.nameAt? address =
      table.entries.keys.find? fun name => table.address? name == some address := by
  rw [nameAt?, Bindings.keys, List.find?_map]
  congr 1
  refine List.find?_congr fun entry mem => ?_
  rw [Function.comp_apply, goes.address?_of_mem mem]
  rfl

/-- The name of an address stands for it. -/
theorem address?_of_nameAt? (goes : table.GoesBy calls)
    (named : table.nameAt? address = some name) : table.address? name = some address := by
  rw [goes.nameAt?_eq] at named
  simpa using List.find?_some named

/-- An address has no name just if no name stands for it. -/
theorem nameAt?_eq_none_iff (goes : table.GoesBy calls) :
    table.nameAt? address = none ↔ ∀ name, table.address? name ≠ some address := by
  rw [goes.nameAt?_eq, List.find?_eq_none]
  constructor
  · intro unnamed name stands
    have present : name ∈ table.entries.keys := by
      by_contra absent
      rw [address?, find?, Bindings.lookup_eq_none_iff.mpr absent] at stands
      cases stands
    exact unnamed name present (by simpa using stands)
  · intro unused name _
    simpa using unused name

end GoesBy

end

/-! ## Tables and their calls -/

/-- What a table that calls have made knows of them, and what it answers to another one. -/
structure Registers (table : SymbolTable) (calls : List Insertion) : Prop where
  /-- the names stand in the order in which they first came -/
  keys_eq : table.entries.keys = (calls.map (·.name)).eraseDups
  /-- no name stands there twice -/
  nodup_keys : table.entries.keys.Nodup
  /-- a name is bound as by the first call with it, and if there is none, then not at all -/
  find?_eq : ∀ name, table.find? name = (calls.find? (·.name == name)).map (·.symbol)
  /-- its address is the one of this call -/
  address?_eq : ∀ name, table.address? name = (calls.find? (·.name == name)).map (·.address)
  /-- a call with a new name is accepted -/
  accepts : ∀ call : Insertion, calls.find? (·.name == call.name) = none →
    insert call.name call.address call.line table = .ok () (ofCalls (calls ++ [call]))
  /-- any other is refused with the line of the first call with its name, and it leaves behind
  the very same table -/
  refuses : ∀ call first : Insertion, calls.find? (·.name == call.name) = some first →
    insert call.name call.address call.line table =
        .error (.duplicateSymbol call.name call.line first.line) table ∧
      ofCalls (calls ++ [call]) = table
  /-- an address has the first of the names that stand for it -/
  nameAt?_eq : ∀ address, table.nameAt? address =
    table.entries.keys.find? fun name => table.address? name == some address
  /-- it has none just if there is no such name -/
  nameAt?_eq_none_iff : ∀ address,
    table.nameAt? address = none ↔ ∀ name, table.address? name ≠ some address
  /-- the name of an address stands for it -/
  address?_of_nameAt? : ∀ address name,
    table.nameAt? address = some name → table.address? name = some address

/-- **A symbol table registers the first call with each name.** -/
theorem ofCalls_registers (calls : List Insertion) : (ofCalls calls).Registers calls := by
  have goes := goesBy_ofCalls calls
  exact {
    keys_eq := goes.keys_eq
    nodup_keys := goes.nodup_keys
    find?_eq := goes.find?_eq
    address?_eq := by
      intro name
      rw [address?, goes.find?_eq, Option.map_map]
      rfl
    accepts := by
      intro call new
      obtain ⟨table', inserted⟩ := goes.exists_insert_eq_ok new
      rw [ofCalls_concat, after, inserted]
    refuses := by
      intro call first known
      have refused := goes.insert_eq_error known
      exact ⟨refused, by rw [ofCalls_concat, after, refused]⟩
    nameAt?_eq := goes.nameAt?_eq
    nameAt?_eq_none_iff := fun _ => goes.nameAt?_eq_none_iff
    address?_of_nameAt? := fun _ _ named => goes.address?_of_nameAt? named }

/-- Four calls, where the third comes too late, and two names stand for one address. -/
def contended : List Insertion :=
  [⟨"top", 0, 1⟩, ⟨"loop", 2, 2⟩, ⟨"top", 5, 3⟩, ⟨"again", 2, 4⟩]

theorem ofCalls_registers_contended :
    (ofCalls contended).entries.keys = ["top", "loop", "again"] ∧
      (ofCalls contended).address? "top" = some 0 ∧
      (ofCalls contended).nameAt? 2 = some "loop" ∧
      insert "loop" 7 9 (ofCalls contended) =
        .error (.duplicateSymbol "loop" 9 2) (ofCalls contended) := by
  have registers := ofCalls_registers contended
  have names : (ofCalls contended).entries.keys = ["top", "loop", "again"] :=
    registers.keys_eq.trans (by decide)
  refine ⟨names, (registers.address?_eq "top").trans (by decide), ?_, ?_⟩
  · rw [registers.nameAt?_eq, names]
    decide
  · exact (registers.refuses ⟨"loop", 7, 9⟩ ⟨"loop", 2, 2⟩ (by decide)).1

end SymbolTable

end Stackwright
