import Stackwright.Workbench

/-!
# The shell

What a tool works with: the files, and the lines printed so far. A tool is a `Job`,
which changes both and gives a result.
-/

namespace Stackwright

/-- The files and the printed lines. -/
structure Shell where
  /-- all files -/
  files : FileTree
  /-- the lines printed so far, in order -/
  printed : Array String

/-- A piece of work in a shell. -/
abbrev Job : Type → Type := StateM Shell

namespace Job

/-- Print a line. -/
def say (line : String) : Job Unit :=
  modify fun shell => { shell with printed := shell.printed.push line }

/-- Print lines. -/
def sayAll (lines : List String) : Job Unit :=
  modify fun shell => { shell with printed := shell.printed ++ lines }

/-- The files as they are. -/
def files : Job FileTree := return (← get).files

/-- Replace the files. -/
def setFiles (files : FileTree) : Job Unit := modify fun shell => { shell with files }

/-- Write a text to a file. -/
def save (path : String) (text : String) : Job (Except AssemblyError Unit) := do
  let (result, changed) := saveText (← files) path text
  setFiles changed
  return result

end Job

/-- Numbers that tell the caller of a tool how it went. -/
inductive ExitCode where
  /-- all went well -/
  | success
  /-- an error was reported -/
  | failure
  /-- the command line made no sense -/
  | misuse
  deriving DecidableEq, Repr

/-- The number for the caller. -/
def ExitCode.number : ExitCode → Nat
  | success => 0
  | failure => 1
  | misuse => 2

end Stackwright
