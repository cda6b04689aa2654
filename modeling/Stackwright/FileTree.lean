import Stackwright.Bindings
import Stackwright.PathName
import Stackwright.Stream

/-!
# File trees

The part of the world outside that the tools can see and change: files and
directories, and one of the directories as the place where relative paths start.
There are no links, and nothing is ever forbidden; what can go wrong is that a name
leads nowhere, or to the wrong kind of thing, or that a device has no room.

A regular file always has room, so once it was created it can be filled. A disk that
is full only after a file was emptied, and keeps that file empty or cut short, is not
among these trees. Only the device that has no room at all makes a write fail, and it
has no content to lose.

Nodes are listed by their absolute place, a list of names from the root. The root
itself is not listed.
-/

namespace Stackwright

/-- What a place can hold. -/
inductive Node where
  /-- a regular file -/
  | file (content : ByteArray)
  /-- a directory -/
  | directory
  /-- a device that has no room for a single byte, and nothing to read -/
  | fullDevice

/-- The names from the root to a place. -/
abbrev Place : Type := List String

/-- Everything in the file system, and the working directory. -/
structure FileTree where
  /-- what stands where -/
  nodes : Bindings Place Node
  /-- the working directory -/
  here : Place

namespace FileTree

/-! ## Places -/

/-- What stands at a place. -/
def node? (tree : FileTree) (place : Place) : Option Node :=
  if place = [] then some .directory
  else tree.nodes.lookup place

/-- Put something at a place, in the stead of what was there. -/
def put (tree : FileTree) (place : Place) (node : Node) : FileTree :=
  { tree with nodes := tree.nodes.put place node }

/-- What was put at a place stands there, and elsewhere nothing changes. -/
theorem node?_put (tree : FileTree) {place : Place} (h : place ≠ []) (node : Node)
    (other : Place) :
    (tree.put place node).node? other =
      if other = place then some node else tree.node? other := by
  by_cases root : other = []
  · rw [if_neg (root ▸ Ne.symm h), node?, if_pos root, node?, if_pos root]
  · rw [node?, if_neg root, node?, if_neg root]
    simpa [put] using tree.nodes.lookup_put place node other

/-- Go from a directory to one of its names. -/
def enter (tree : FileTree) (place : Place) (name : String) : Except IoError Place :=
  match tree.node? place with
  | some .directory =>
    if name = "." then .ok place
    else if name = ".." then .ok place.dropLast
    else .ok (place ++ [name])
  | some _ => .error .notADirectory
  | none => .error .notFound

/-- Where a path starts: at the root, if it begins with a slash. -/
def start (tree : FileTree) (path : String) : Place :=
  if path.toList.head? = some '/' then [] else tree.here

/-- The place that a path leads to. All places on the way have to be directories;
at the end there need not be anything. -/
def locate (tree : FileTree) (path : String) : Except IoError Place :=
  if path.isEmpty then .error .notFound
  else (PathName.components path).foldlM tree.enter (tree.start path)

/-- Whether a path insists on being a directory. -/
def endsInSlash (path : String) : Bool := path.toList.getLast? == some '/'

/-- What a path leads to. -/
def find (tree : FileTree) (path : String) : Except IoError Node := do
  let place ← tree.locate path
  match tree.node? place with
  | none => .error .notFound
  | some .directory => .ok .directory
  | some node => if endsInSlash path then .error .notADirectory else .ok node

/-- Whether a path leads to a regular file. -/
def isFile (tree : FileTree) (path : String) : Bool :=
  match tree.find path with
  | .ok (.file _) => true
  | _ => false

/-! ## Reading and writing -/

/-- Open a file for reading. Directories can be opened, but not read. -/
def read (tree : FileTree) (path : String) : Except IoError Stream := do
  match ← tree.find path with
  | .file content => return ⟨content, none⟩
  | .directory => return ⟨.empty, some .isADirectory⟩
  | .fullDevice => return ⟨.empty, none⟩

/-- Create a file, or empty the one that is there. -/
def create (tree : FileTree) (path : String) : Except IoError (Place × FileTree) := do
  let place ← tree.locate path
  if endsInSlash path then .error .isADirectory
  else
    match tree.node? place with
    | some .directory => .error .isADirectory
    | some .fullDevice => .ok (place, tree)
    | _ => .ok (place, tree.put place (.file .empty))

/-- Fill a file that was just created. There is room for any content, except on a full
device. -/
def fill (tree : FileTree) (place : Place) (content : ByteArray) : Except IoError FileTree :=
  match tree.node? place with
  | some .fullDevice => if content.isEmpty then .ok tree else .error .noSpace
  | _ => .ok (tree.put place (.file content))

/-! ## Building and listing -/

/-- A tree of nothing but a working directory, and the directories above it. -/
def around (here : Place) : FileTree :=
  ⟨(List.range here.length).map fun n => (here.take (n + 1), .directory), here⟩

/-- Put something where a path leads from the working directory, with the
directories on the way. -/
def plant (tree : FileTree) (path : String) (node : Node) : FileTree :=
  let place := tree.here ++ PathName.components path
  let ways := (List.range place.length).map fun n => place.take n
  let withWays := ways.foldl
    (fun t p => if (t.node? p).isSome then t else t.put p .directory) tree
  withWays.put place node

/-- Remove what a path leads to from the working directory, with all that it
contains. -/
def uproot (tree : FileTree) (path : String) : FileTree :=
  let place := tree.here ++ PathName.components path
  { tree with nodes := tree.nodes.filter fun n => !place.isPrefixOf n.1 }

/-- The tree with an empty working directory and the full device. -/
def bare : FileTree :=
  ⟨[(["dev"], .directory), (["dev", "full"], .fullDevice), (["work"], .directory)], ["work"]⟩

/-- All regular files below the working directory, by their paths from there. -/
def files (tree : FileTree) : List (String × ByteArray) :=
  tree.nodes.filterMap fun (place, node) =>
    match node with
    | .file content =>
      if tree.here.isPrefixOf place then
        some ("/".intercalate (place.drop tree.here.length), content)
      else none
    | _ => none

/-- The regular files that are not in an earlier tree, or have another content there. -/
def changedSince (tree earlier : FileTree) : List (Place × ByteArray) :=
  tree.nodes.filterMap fun (place, node) =>
    match node, earlier.node? place with
    | .file content, some (.file old) =>
      if content.data = old.data then none else some (place, content)
    | .file content, _ => some (place, content)
    | _, _ => none

end FileTree

end Stackwright
