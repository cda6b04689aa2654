import Stackwright.Assembly
import Stackwright.Text.Column
import Stackwright.Text.Style

/-!
# Listings

A listing shows the source beside the words it was assembled to. Every source line
has its row; a line with several statements has one more row for each statement
after the first.
-/

namespace Stackwright

open Text (Style)

/-- The words that start at one entry of a line map. -/
structure Row where
  /-- the address of the first word -/
  address : Word
  /-- the words up to the next entry -/
  words : List Word
  deriving DecidableEq, Repr

namespace Assembly

/-- Where the words of an entry of a line map end, given the entries that follow it: where the next
one starts, or at the end of the program. -/
def stop (program : List Word) : List (Word × Nat) → Nat
  | [] => program.length
  | (next, _) :: _ => next.toInt.toNat

/-- The words from one index of a program up to another. -/
def slice (program : List Word) (first last : Nat) : List Word :=
  (program.drop first).take (last - first)

/-- The rows for entries of a line map, each with its source line. -/
def cutRows (program : List Word) : List (Word × Nat) → List (Nat × Row)
  | [] => []
  | (start, line) :: rest =>
    (line, ⟨start, slice program start.toInt.toNat (stop program rest)⟩) :: cutRows program rest

/-- The rows of a program, each with its source line, in address order. -/
def rows (assembly : Assembly) : List (Nat × Row) :=
  cutRows assembly.program assembly.lineMap.entries

/-- Put a row behind those of its source line. A line without rows comes behind all others. -/
def addRow (groups : Bindings Nat (List Row)) (entry : Nat × Row) : Bindings Nat (List Row) :=
  groups.put entry.1 ((groups.lookup entry.1).getD [] ++ [entry.2])

/-- The rows of a program by source line. -/
def rowsByLine (assembly : Assembly) : Bindings Nat (List Row) := assembly.rows.foldl addRow []

end Assembly

namespace Listing

/-- The rule above a listing, with the name of the file set into it. Names count by
their bytes here. -/
def opening (file : String) : String :=
  let left := Text.repeated 27 '-'
  let right := Text.repeated (45 - file.utf8ByteSize) '-'
  s!"{left}+------[{file}]{right}"

/-- The rule below a listing. -/
def closing : String :=
  let left := Text.repeated 27 '-'
  let right := Text.repeated 53 '-'
  s!"{left}+{right}"

/-- The source side of a row: the number of the line, its code and its comment. -/
def sourceSide (n : Nat) (line : String) : String :=
  let code := Text.trimEnd (Token.code line.toList)
  let shown := String.ofList code
  let colored := if code.getLast? = some ':' then Style.label.paint shown else shown
  let comment := Style.faint.paint (String.ofList (Token.comment line.toList))
  let number := Text.alignRight 4 (toString n)
  s!"{number}: {colored} {comment}"

/-- The machine side of a row: an address and the words from there on. -/
def machineSide (row : Row) : String :=
  let digits := Text.zeroFilled 4 row.address.text
  let address := Style.address.paint s!"[{digits}]"
  let words := Text.alignLeft 20 (" ".intercalate (row.words.map Word.text))
  s!"{address} {words}"

/-- The rows for one source line, given the machine sides that belong to it, if there are any. -/
def lineRows (n : Nat) (line : String) : Option (List Row) → List String
  | none =>
    let margin := Text.repeated 27 ' '
    [s!"{margin}| {sourceSide n line}"]
  | some [] => []
  | some (row :: rest) =>
    s!"{machineSide row} | {sourceSide n line}" :: rest.map fun r => s!"{machineSide r} |"

/-- The rows for successive source lines, the first of which has number `n`. -/
def body (groups : Bindings Nat (List Row)) (n : Nat) : List String → List String
  | [] => []
  | line :: rest => lineRows n line (groups.lookup n) ++ body groups (n + 1) rest

/-- The listing of a source, given its lines and what it was assembled to. -/
def write (file : String) (lines : List String) (assembly : Assembly) : List String :=
  opening file :: body assembly.rowsByLine 1 lines ++ [closing]

end Listing

end Stackwright
