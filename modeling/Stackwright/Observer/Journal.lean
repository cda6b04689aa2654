import Stackwright.Observer.Basic

/-!
# The journal

An observer that prints nothing and keeps a record of what it saw.
-/

namespace Stackwright

/-- What the journal notes down. -/
inductive JournalEntry where
  /-- the machine before the first instruction -/
  | start (status : Status) (pc sp : Word)
  /-- an instruction, and the machine after it -/
  | instruction (time : Nat) (executed : Executed) (pc sp : Word) (top : Option Word)
  deriving DecidableEq, Repr

/-- A record of a run, in order. -/
structure Journal where
  /-- the entries -/
  entries : Array JournalEntry
  deriving DecidableEq, Repr

namespace Journal

/-- The journal without entries. -/
def empty : Journal := ⟨#[]⟩

/-- Add an entry. -/
def note (journal : Journal) (entry : JournalEntry) : Journal :=
  ⟨journal.entries.push entry⟩

instance : Observer Journal where
  start m journal := (journal.note (.start m.status m.pc m.sp), [])
  after time executed m journal :=
    (journal.note (.instruction time executed m.pc m.sp m.top?), [])

end Journal

end Stackwright
