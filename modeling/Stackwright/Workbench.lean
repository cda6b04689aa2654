import Stackwright.Assembly
import Stackwright.FileTree

/-!
# The workbench

The workbench holds one source and the results of assembling it. A source file is
read anew each time, as it may have changed. Whatever was assembled before is
cleared away first, so the workbench never shows results that the last attempt did
not give.

Results are written down in three forms: the program image, the symbol table and
the line map.
-/

namespace Stackwright

/-- Where source text comes from. -/
inductive Source where
  /-- a text in memory -/
  | text (text : String)
  /-- a file, by its path -/
  | file (path : String)
  deriving DecidableEq, Repr

namespace Source

/-- The lines to assemble. A file that cannot even be opened is told apart from one
that breaks off. -/
def feed (files : FileTree) : Source → Except AssemblyError Feed
  | text content => .ok (Feed.ofText content)
  | file path =>
    match files.read path with
    | .error e => .error (.fileOpen path e)
    | .ok stream => .ok stream.feed

/-- The lines to show in listings and error reports. -/
def lines (files : FileTree) : Source → Except AssemblyError (List String)
  | text content => .ok (Text.lines content)
  | file path =>
    match files.read path >>= Stream.text with
    | .error e => .error (.fileOpen path e)
    | .ok content => .ok (Text.lines content)

/-- The lines to show, none if there is no reading them. -/
def linesOrNone (files : FileTree) (source : Source) : List String :=
  match source.lines files with
  | .ok lines => lines
  | .error _ => []

/-- Assemble a source. -/
def assemble (files : FileTree) (source : Source) : Except AssemblyError Assembly := do
  let feed ← source.feed files
  Assembly.ofFeed feed

end Source

/-- A source with the results of the last attempt to assemble it. -/
structure Workbench where
  /-- the source -/
  source : Source
  /-- the results, if the last attempt gave any -/
  assembly? : Option Assembly
  deriving DecidableEq, Repr

namespace Workbench

/-- A source that was not assembled yet. -/
def ofSource (source : Source) : Workbench := ⟨source, none⟩

/-- The text of a stream as a source. -/
def ofStream (stream : Stream) : Except AssemblyError Workbench :=
  match stream.text with
  | .error e => .error (.read e)
  | .ok text => .ok (ofSource (.text text))

/-- Work at a bench that can fail. What it changed before stays changed. -/
abbrev Work : Type → Type := ExceptT AssemblyError (StateM Workbench)

/-- Put results on the bench, or none. -/
def keep (assembly? : Option Assembly) : Work Unit :=
  modify fun bench => { bench with assembly? }

/-- Clear the bench, assemble the source, and keep the results. -/
def assembleAnew (files : FileTree) : Work Assembly := do
  keep none
  let bench ← get
  let assembly ← bench.source.assemble files
  keep (some assembly)
  return assembly

/-- Assemble the source, and keep the results if there are any. -/
def assemble (files : FileTree) (bench : Workbench) :
    Except AssemblyError Assembly × Workbench :=
  (assembleAnew files).run bench

/-- The program, if there are results. -/
def program? (bench : Workbench) : Option (List Word) := bench.assembly?.map (·.program)

/-- The labels, if there are results. -/
def symbols? (bench : Workbench) : Option SymbolTable := bench.assembly?.map (·.symbols)

/-- The line map, if there are results. -/
def lineMap? (bench : Workbench) : Option LineMap := bench.assembly?.map (·.lineMap)

/-- Hand over the results. -/
def results (bench : Workbench) : Except AssemblyError Assembly :=
  match bench.assembly? with
  | some assembly => .ok assembly
  | none => .error .notAssembled

end Workbench

/-! ## Writing results -/

/-- The usual name of a written symbol table. -/
def symbolsFile : String := "symbols.txt"

/-- The usual name of a written line map. -/
def lineMapFile : String := "linemap.txt"

/-- Write a text to a file that is created for it. A file that is created but cannot
be filled stays. -/
def saveText (files : FileTree) (path : String) (text : String) :
    Except AssemblyError Unit × FileTree :=
  match files.create path with
  | .error e => (.error (.fileCreate path e), files)
  | .ok (place, created) =>
    match created.fill place text.toUTF8 with
    | .error e => (.error (.fileWrite path e), created)
    | .ok filled => (.ok (), filled)

end Stackwright
