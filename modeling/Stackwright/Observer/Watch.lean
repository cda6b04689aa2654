import Stackwright.Bindings
import Stackwright.FileTree
import Stackwright.Observer.Basic
import Stackwright.Text.Column
import Stackwright.Text.Quoted
import Stackwright.Yaml.Decoding

/-!
# Watching addresses

A watch shows the machine whenever an instruction at one of certain addresses has
been executed: the registers always, the stack and some cells of memory where that
is asked for. It can also be told to show the registers everywhere.

The addresses come from a YAML document, a table from addresses to what to show:

    4:
      stack: true
    12:
      heap: [30, 31]

Both fields may be left out, and others are ignored. An address that is given again
replaces what was given before; a field must not be given twice.
-/

namespace Stackwright

/-- What to show at an address besides the registers. -/
structure WatchPoint where
  /-- whether to show the stack -/
  stack : Bool
  /-- the cells to show -/
  cells : List Word
  deriving DecidableEq, Repr

/-- Why a watch cannot be set up. -/
inductive WatchError where
  /-- the file cannot be opened -/
  | fileOpen (path : String) (cause : IoError)
  /-- the document is no table of watch points -/
  | parse (path : String)
  deriving DecidableEq, Repr

namespace WatchError

/-- The file that the error is about. -/
def path : WatchError → String
  | fileOpen path _ => path
  | parse path => path

/-- The wording of the error. -/
def message : WatchError → String
  | fileOpen path _ => s!"Failed to open dump config: {path}"
  | parse path => s!"Failed to parse dump config: {path}"

end WatchError

/-! ## Reading watch points -/

open Yaml (Decoding)

namespace WatchPoint

/-- A word in a document. -/
def word (node : Yaml.Node) : Decoding Word := do
  Decoding.required (Word.ofInt? (← Decoding.integer node))

/-- Read the fields of a watch point, given what earlier ones said. -/
def ofFields (stack : Option Bool) (cells : Option (List Word)) :
    List (Yaml.Node × Yaml.Node) → Decoding WatchPoint
  | [] => return ⟨stack.getD false, cells.getD []⟩
  | (key, value) :: rest => do
    match ← Decoding.text key with
    | "stack" =>
      if stack.isSome then failure
      ofFields (some (← Decoding.bool value)) cells rest
    | "heap" =>
      if cells.isSome then failure
      ofFields stack (some (← (← Decoding.items value).mapM word)) rest
    | _ => ofFields stack cells rest

/-- Read a watch point; nothing counts as the table without fields. -/
def ofNode (node : Yaml.Node) : Decoding WatchPoint := do
  ofFields none none (← Decoding.entries node)

end WatchPoint

/-- Addresses with what to show there, no address twice. -/
abbrev WatchList : Type := Bindings Word WatchPoint

namespace WatchList

/-- Read the entries of a table, given what earlier ones said. -/
def ofEntries (list : WatchList) : List (Yaml.Node × Yaml.Node) → Decoding WatchList
  | [] => return list
  | (key, value) :: rest => do
    let address ← WatchPoint.word key
    let point ← WatchPoint.ofNode value
    ofEntries (list.put address point) rest

/-- Read a table; nothing counts as the table without entries. -/
def ofNode (node : Yaml.Node) : Decoding WatchList := do ofEntries [] (← Decoding.entries node)

/-- Read a document. -/
def parse? (text : String) : Option WatchList :=
  (Yaml.Document.parse? text).bind fun document => document.decode? ofNode

end WatchList

/-! ## Showing the machine -/

/-- An observer that shows the machine at certain addresses. -/
structure Watch where
  /-- the file that the addresses come from -/
  file? : Option String
  /-- whether to show the registers at all other addresses, too -/
  all : Bool
  /-- the addresses -/
  points : WatchList
  deriving DecidableEq, Repr

namespace Watch

/-- The name under which a document that comes from no file is blamed. -/
def inlineName : String := "<inline>"

/-- A watch for the addresses in a document. -/
def ofText (text : String) (all : Bool) : Except WatchError Watch :=
  match WatchList.parse? text with
  | some points => .ok ⟨none, all, points⟩
  | none => .error (.parse inlineName)

/-- A watch for the addresses in a file, or for none if there is no file. -/
def ofFile (files : FileTree) (file? : Option String) (all : Bool) :
    Except WatchError Watch :=
  match file? with
  | none => .ok ⟨none, all, []⟩
  | some path =>
    match files.read path with
    | .error e => .error (.fileOpen path e)
    | .ok stream =>
      match stream.text.toOption.bind WatchList.parse? with
      | some points => .ok ⟨some path, all, points⟩
      | none => .error (.parse path)

/-- The border of the registers. -/
def registerRule : String := " +------------+------------+------------------+"

/-- The border of a list of cells. -/
def cellRule : String := " +-------------------------------------------+"

/-- The registers after an instruction. -/
def registers (executed : Executed) (m : Machine) : List String :=
  let at' := Text.alignRight 6 executed.address.text
  let op := Text.alignLeft 6 executed.op.mnemonic
  let steps := Text.alignRight 8 (toString m.steps)
  let pc := Text.alignRight 6 m.pc.text
  let sp := Text.alignRight 6 m.sp.text
  let top := Text.alignRight 11 ((m.top?.map Word.text).getD "-")
  [registerRule, " | at: " ++ at' ++ " | op: " ++ op ++ " | steps: " ++ steps ++ " |",
    " | pc: " ++ pc ++ " | sp: " ++ sp ++ " | top: " ++ top ++ " |", registerRule]

/-- The row for a cell, given what it holds or why it holds nothing. -/
def cellRow (address : String) : Except OutOfBounds Word → String
  | .ok value =>
    " | " ++ Text.alignRight 6 address ++ " : " ++ Text.alignRight 11 value.text ++
      Text.repeated 26 ' ' ++ "|"
  | .error e => " | " ++ Text.alignRight 6 address ++ " : " ++ e.message

/-- The words on the stack, each with its address. -/
def stackRows (m : Machine) : List String :=
  let first := m.sp.toInt
  m.stack.zipIdx.map (fun (word, i) => cellRow (toString (first + i)) (.ok word)) ++ [cellRule]

/-- Some cells of memory; nothing at all if there are none to show. -/
def cellRows (m : Machine) : List Word → List String
  | [] => []
  | cells => cells.map (fun a => cellRow a.text (m.memory.read a)) ++ [cellRule]

/-- What is shown after an instruction. -/
def shown (watch : Watch) (executed : Executed) (m : Machine) : List String :=
  match watch.points.lookup executed.address with
  | some point =>
    registers executed m ++ (if point.stack then stackRows m else []) ++ cellRows m point.cells
  | none => if watch.all then registers executed m else []

/-- What is shown before the first instruction: what is being watched. -/
def announcement (watch : Watch) : List String :=
  (if watch.all then [" * Dump all"] else []) ++
    match watch.file? with
    | some path => [s!" * Dump[{watch.points.length}] " ++ Text.quoted path]
    | none => []

instance : Observer Watch where
  start _ watch := (watch, watch.announcement)
  after _ executed m watch := (watch, watch.shown executed m)

end Watch

end Stackwright
