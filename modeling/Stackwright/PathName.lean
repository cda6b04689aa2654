import Stackwright.Text.Line

/-!
# Path names

What the tools need to know about the text of a path: its last component, the
extension of that component, and how to exchange it. Slashes at the end of a path,
and components `.` after the first, do not count. The last component of a path is
*ordinary* if there is one and it is neither `.` nor `..`.

An ordinary component falls into a stem and an extension at its last point. A
point at its very beginning starts no extension, and one at its very end starts an
empty one.

An extension is exchanged in two steps: first it is cut off, which leaves its point, and
then the new one takes the place of that point and what follows it. Where only `..` is
left after the first step, as of `..x`, there is no ordinary component any more, and the
second step is not taken.
-/

namespace Stackwright.PathName

/-- Drop slashes and `/.` from the end of a path that is given from its end. -/
def dropClosing : List Char → List Char
  | '/' :: cs => dropClosing cs
  | '.' :: '/' :: cs => dropClosing cs
  | cs => cs

/-- The parts of a path that ends in an ordinary component. -/
structure Parts where
  /-- everything before the last component -/
  directory : List Char
  /-- the last component before its extension -/
  stem : List Char
  /-- what follows the last point, if that starts an extension -/
  extension : Option (List Char)
  deriving DecidableEq, Repr

/-- Split a component at its last point. -/
def splitName (name : List Char) : List Char × Option (List Char) :=
  let after := (name.reverse.takeWhile (· != '.')).reverse
  match (name.reverse.dropWhile (· != '.')).reverse.dropLast with
  | [] => (name, none)
  | before => (before, some after)

/-- The parts of a path, if its last component is ordinary. -/
def parts? (path : String) : Option Parts :=
  let backwards := dropClosing path.toList.reverse
  let name := (backwards.takeWhile (· != '/')).reverse
  if name = [] ∨ name = ['.'] ∨ name = ['.', '.'] then none
  else
    let (stem, extension) := splitName name
    some ⟨(backwards.dropWhile (· != '/')).reverse, stem, extension⟩

/-- The extension of a path, if it has one. -/
def extension? (path : String) : Option String :=
  (parts? path).bind fun p => p.extension.map String.ofList

/-- The path without as many characters at its end as its extension has. If the path ends
in its extension, this leaves the point. -/
def cutExtension (path : String) : String :=
  match extension? path with
  | some extension => String.ofList (path.toList.take (path.length - extension.length))
  | none => path

/-- The path up to the stem of its last component. -/
def withoutExtension (path : String) : String :=
  let path := cutExtension path
  match parts? path with
  | some p => String.ofList (p.directory ++ p.stem)
  | none => path

/-- The path with another extension, or with one if it had none. A path that does
not end in an ordinary component stays as it is. -/
def withExtension (path : String) (extension : String) : String :=
  match parts? (cutExtension path) with
  | some _ => s!"{withoutExtension path}.{extension}"
  | none => cutExtension path

/-- The path of a file in a directory; the empty path is the working directory. -/
def inDirectory (directory : String) (file : String) : String :=
  if directory.isEmpty ∨ directory.toList.getLast? = some '/' then directory ++ file
  else s!"{directory}/{file}"

/-- The components of a path, empty ones left out. -/
def components (path : String) : List String :=
  let (closed, last) := Text.breakAt '/' path.toList
  ((closed ++ [last]).filter (! ·.isEmpty)).map String.ofList

end Stackwright.PathName
