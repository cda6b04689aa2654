import Stackwright.Bindings
import Stackwright.Word

/-!
# Line maps

A line map says for the first word of each instruction, and for each data word,
from which source line it comes. Entries stand in the order in which they were
made. The assembler makes them in address order, each address once, and `lineOf?`
relies on that.
-/

namespace Stackwright

/-- Addresses with their source lines. -/
structure LineMap where
  /-- the entries -/
  entries : Bindings Word Nat
  deriving DecidableEq, Repr

namespace LineMap

/-- The map without entries. -/
def empty : LineMap := ⟨[]⟩

/-- The line that an address was entered with. -/
def get? (map : LineMap) (address : Word) : Option Nat := map.entries.lookup address

/-- Enter an address. One that is there already stays in its place and gets the
new line. -/
def insert (map : LineMap) (address : Word) (line : Nat) : LineMap :=
  ⟨map.entries.put address line⟩

/-- An address that is not there yet comes last. -/
theorem entries_insert {map : LineMap} {address : Word} (new : address ∉ map.entries.keys)
    (line : Nat) : (map.insert address line).entries = map.entries ++ [(address, line)] :=
  Bindings.put_of_not_mem new line

/-- The line of the last entry before the first one that lies beyond an address. -/
def lineOf? (map : LineMap) (address : Word) : Option Nat :=
  ((map.entries.takeWhile fun entry => decide (entry.1 ≤ address)).getLast?).map (·.2)

/-- The number of entries. -/
def size (map : LineMap) : Nat := map.entries.length

/-- The written form: a line `address, line` per entry. -/
def write (map : LineMap) : String :=
  String.join (map.entries.map fun (address, line) => s!"{address.text}, {line}\n")

end LineMap

end Stackwright
