import Stackwright.AssemblyError
import Stackwright.Bindings
import Stackwright.Word

/-!
# Symbol tables

A symbol table binds label names to addresses and remembers on which line each
label is defined. Its entries stand in the order of their definition. A name is
bound once: a second definition is refused, and it leaves the table as it was.
-/

namespace Stackwright

/-- What a label name stands for. -/
structure Symbol where
  /-- the address of the label -/
  address : Word
  /-- the line of its definition -/
  line : Nat
  deriving DecidableEq, Repr

/-- Labels in the order of their definition. -/
structure SymbolTable where
  /-- names with what they stand for -/
  entries : Bindings String Symbol
  deriving DecidableEq, Repr

namespace SymbolTable

/-- The table without labels. -/
def empty : SymbolTable := ⟨[]⟩

/-- The binding of a name. -/
def find? (table : SymbolTable) (name : String) : Option Symbol :=
  table.entries.lookup name

/-- The address of a name. -/
def address? (table : SymbolTable) (name : String) : Option Word :=
  (table.find? name).map (·.address)

/-- The first name that is bound to an address. -/
def nameAt? (table : SymbolTable) (address : Word) : Option String :=
  (table.entries.find? (·.2.address == address)).map (·.1)

/-- Bind a new name. -/
def insert (name : String) (address : Word) (line : Nat) :
    EStateM AssemblyError SymbolTable Unit := do
  match (← get).find? name with
  | some previous => throw (.duplicateSymbol name line previous.line)
  | none => modify fun table => ⟨table.entries.put name ⟨address, line⟩⟩

variable {table table' : SymbolTable} {name : String} {address : Word} {line : Nat}

/-- A call looks the name up, and then it refuses or binds it. -/
theorem insert_eq : insert name address line table =
    match table.find? name with
    | some previous => .error (.duplicateSymbol name line previous.line) table
    | none => .ok () ⟨table.entries.put name ⟨address, line⟩⟩ := by
  change (match table.find? name with
    | some previous => throw (.duplicateSymbol name line previous.line)
    | none => modify fun table => ⟨table.entries.put name ⟨address, line⟩⟩ :
      EStateM AssemblyError SymbolTable Unit) table = _
  cases table.find? name with
  | some previous => rfl
  | none => rfl

/-- A name that is bound is refused, and the table is left as it was. -/
theorem insert_of_bound {previous : Symbol} (bound : table.find? name = some previous) :
    insert name address line table = .error (.duplicateSymbol name line previous.line) table := by
  rw [insert_eq, bound]

/-- A name that is not bound is accepted, and it comes last. -/
theorem insert_of_free (free : table.find? name = none) :
    insert name address line table = .ok () ⟨table.entries ++ [(name, ⟨address, line⟩)]⟩ := by
  rw [insert_eq, free, Bindings.put_of_not_mem (Bindings.lookup_eq_none_iff.mp free)]

/-- A table refuses a name just if the name is bound. It blames the earlier line, and is left
as it was. -/
theorem insert_eq_error_iff {e : AssemblyError} :
    insert name address line table = .error e table' ↔
      table' = table ∧ ∃ previous, table.find? name = some previous ∧
        e = .duplicateSymbol name line previous.line := by
  cases found : table.find? name with
  | none => simp [insert_of_free found]
  | some previous => simp [insert_of_bound found, eq_comm, and_comm]

/-- A name that is bound was not bound before, and it comes last. -/
theorem entries_of_insert_eq_ok (h : insert name address line table = .ok () table') :
    table.find? name = none ∧ table'.entries = table.entries ++ [(name, ⟨address, line⟩)] := by
  cases found : table.find? name with
  | some previous =>
    rw [insert_of_bound found] at h
    cases h
  | none =>
    rw [insert_of_free found] at h
    cases h
    exact ⟨rfl, rfl⟩

/-- A name that was just bound is found, and every other is found as before. -/
theorem find?_of_insert_eq_ok (h : insert name address line table = .ok () table')
    (other : String) :
    table'.find? other =
      if other == name then some ⟨address, line⟩ else table.find? other := by
  obtain ⟨free, entries⟩ := entries_of_insert_eq_ok h
  rw [find?, entries, ← Bindings.put_of_not_mem (Bindings.lookup_eq_none_iff.mp free)]
  exact Bindings.lookup_put table.entries name ⟨address, line⟩ other

/-- The number of labels. -/
def size (table : SymbolTable) : Nat := table.entries.length

/-- The written form: a line `name, address` per label. -/
def write (table : SymbolTable) : String :=
  String.join (table.entries.map fun (name, symbol) => s!"{name}, {symbol.address.text}\n")

end SymbolTable

end Stackwright
