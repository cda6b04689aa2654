import Stackwright.Tool.Assembler
import Stackwright.Tool.Builder

/-!
# The program

The tools as one program: its first argument names the tool, and the others are the
command line of the tool.

A tool works on a tree with those files of the disk that its command line may look at
or change. Afterwards the lines it printed go to the screen, and what it changed in
the tree goes to the disk.
-/

namespace Stackwright

/-- A command-line tool. -/
structure Tool where
  /-- the files that a command line may look at or change -/
  paths : List String → List String
  /-- what a command line asks for -/
  work : List String → Job ExitCode

namespace Tool

/-- The tools by their names. -/
def named? : String → Option Tool
  | "ftasm" => some ⟨Assembler.paths, Assembler.main⟩
  | "ftemu" => some ⟨Emulator.paths, Emulator.main⟩
  | "footnote" => some ⟨Builder.paths, Builder.main⟩
  | _ => none

/-! ## The disk -/

/-- The absolute path of a place. -/
def absolute (place : Place) : String := "/" ++ "/".intercalate place

/-- The system's number for the error of reading a directory. -/
def readsDirectory : UInt32 := 21

/-- What stands at a place on the disk. -/
def look (place : Place) : IO (Option Node) := do
  if place = ["dev", "full"] then
    return some .fullDevice
  try
    return some (.file (← IO.FS.readBinFile (absolute place)))
  catch
    | .noFileOrDirectory .. => return none
    | .inappropriateType _ number _ =>
      return if number = readsDirectory then some .directory else none
    | e => throw e

/-- Add to a tree what stands on the disk where a path leads, and on the way there. -/
def survey (tree : FileTree) (path : String) : IO FileTree := do
  let mut tree := tree
  let mut place := tree.start path
  for name in PathName.components path do
    match tree.enter place name with
    | .error _ => return tree
    | .ok next =>
      place := next
      if (tree.node? place).isNone then
        match ← look place with
        | none => return tree
        | some node => tree := tree.put place node
  return tree

/-- Let a tool do its work on the disk. -/
def run (tool : Tool) (commandLine : List String) : IO ExitCode := do
  let here := (← IO.currentDir).toString
  let bare := FileTree.around (PathName.components here)
  let files ← (tool.paths commandLine).foldlM survey bare
  let (code, shell) := (tool.work commandLine).run ⟨files, #[]⟩
  for line in shell.printed do
    IO.println line
  for (place, content) in shell.files.changedSince files do
    IO.FS.writeBinFile (absolute place) content
  return code

/-- What is wrong with a command line that names no tool. -/
def usage : String := "The first argument has to be ftasm, ftemu or footnote."

end Tool

end Stackwright

open Stackwright in
/-- Run the tool that the first argument names. -/
def main (arguments : List String) : IO UInt32 := do
  match arguments.head?.bind Tool.named? with
  | some tool =>
    let code ← tool.run arguments.tail
    return code.number.toUInt32
  | none =>
    IO.eprintln Tool.usage
    return ExitCode.misuse.number.toUInt32
