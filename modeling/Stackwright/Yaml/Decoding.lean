import Stackwright.Yaml.Document

/-!
# Reading data from documents

The data that a program expects in a document, read value by value. The name of an anchor
stands for the anchored value, but names must not be followed too often, lest a short
document becomes a long computation: at most a hundred times for each place where a value
starts or ends.
-/

namespace Stackwright.Yaml

/-- A step of reading data from a document, which may fail. It knows how many more names of
anchors may be followed. -/
abbrev Decoding : Type → Type := ReaderT Document (StateT Nat Option)

namespace Decoding

/-- The value itself where the name of its anchor stands. -/
def value : Node → Decoding Node
  | .reference anchor => do
    let left ← get
    match left, (← read).anchored.lookup anchor with
    | left + 1, some node => do set left; return node
    | _, _ => failure
  | node => return node

/-- A value that must be there. -/
def required {α : Type} : Option α → Decoding α
  | some a => return a
  | none => failure

/-- An integer. -/
def integer (node : Node) : Decoding Int := do required (← value node).integer?

/-- A truth value. -/
def bool (node : Node) : Decoding Bool := do required (← value node).bool?

/-- The text of a scalar, however it is written. -/
def text (node : Node) : Decoding String := do
  match ← value node with
  | .scalar _ _ text _ => return text
  | _ => failure

/-- The items of a list; nothing counts as the empty list. -/
def items (node : Node) : Decoding (List Node) := do
  match ← value node with
  | .sequence _ items => return items
  | node => if node.isNothing then return [] else failure

/-- The entries of a table; nothing counts as the empty table. -/
def entries (node : Node) : Decoding (List (Node × Node)) := do
  match ← value node with
  | .mapping _ entries => return entries
  | node => if node.isNothing then return [] else failure

end Decoding

/-- Read data from a document. -/
def Document.decode? {α : Type} (document : Document) (decoding : Node → Decoding α) :
    Option α :=
  ((decoding document.root).run document).run' (100 * document.size)

end Stackwright.Yaml
