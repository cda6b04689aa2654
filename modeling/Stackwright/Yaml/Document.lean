import Stackwright.Yaml.Lexer
import Stackwright.Yaml.Node

/-!
# Documents

A text holds one document, which is one value, and nothing comes after it. A text without
any value holds the empty table.

The reader walks over the lexemes once. It knows the handles that directives bind, and it
gives numbers to the names of anchors. A name gets a number when a value is anchored with
it, namely the number of names before, so that a name that is anchored again may share its
number with the next one; in a document a number stands for the last value that has it.
-/

namespace Stackwright.Yaml

/-- A document. -/
structure Document where
  /-- the value that the document holds -/
  root : Node
  /-- the values of the anchors -/
  anchored : Bindings Nat Node

namespace Document

/-- The document with a value. -/
def ofRoot (root : Node) : Document where
  root
  anchored := root.within.foldl (fun anchored node =>
    match node.anchor? with
    | some anchor => anchored.put anchor node
    | none => anchored) []

/-- The number of places where a value starts or ends; a scalar does both in one place. -/
def size (document : Document) : Nat :=
  document.root.within.length + document.root.within.countP Node.isCollection

end Document

/-- How far a document has been read. -/
structure Reader where
  /-- the lexemes that are still to be read -/
  rest : List Lexeme
  /-- the names of the anchors so far with their numbers -/
  names : Bindings String Nat

namespace Reader

/-- Steps of reading, each of which may fail. -/
abbrev Reading : Type → Type := StateT Reader Option

/-- The next lexeme, if there is one. -/
def peek : Reading (Option Lexeme) := return (← get).rest.head?

/-- Go past the next lexeme. -/
def skip : Reading Unit := modify fun r => { r with rest := r.rest.tail }

/-- Go past the next lexeme if it is the given one, and tell whether it was. -/
def skipIf (lexeme : Lexeme) : Reading Bool := do
  let isNext := (← peek) == some lexeme
  if isNext then skip
  return isNext

/-- Go past the next lexeme, which has to be the given one. -/
def expect (lexeme : Lexeme) : Reading Unit := do
  if !(← skipIf lexeme) then failure

/-- Go past the name of an anchor and give it a number. -/
def anchor? : Reading (Option Nat) := do
  match ← peek with
  | some (.anchor name) =>
    skip
    let number := (← get).names.length
    modify fun r => { r with names := r.names.put name number }
    return some number
  | _ => return none

/-- Go past a tag and find its identifier. -/
def tag? (handles : Handles) : Reading (Option Octets) := do
  match ← peek with
  | some (.tag tag) =>
    skip
    match tag.identifier? handles with
    | some identifier => return some identifier
    | none => failure
  | _ => return none

/-- Go past the anchor and the tag of a value, which may come in either order. -/
def properties (handles : Handles) : Reading (Option Nat × Option Octets) := do
  let before ← anchor?
  let identifier ← tag? handles
  let after ← if before.isNone && identifier.isSome then anchor? else pure none
  return (before <|> after, identifier)

/-- The lexemes before which an item of a block may be missing. -/
def itemEnds : List Lexeme := [.blockEntry, .blockEnd]

/-- The lexemes before which a key or a value of a block may be missing. -/
def entryEnds : List Lexeme := [.key, .value, .blockEnd]

/-! ## Values

Where a value is expected, `inBlock` tells that it may be a block, and `isEntry` that it
belongs to a table, in which a list needs no deeper indentation than the table has. -/

mutual

/-- A value, or nothing if one of certain lexemes comes next. -/
def optional (handles : Handles) (inBlock isEntry : Bool) (ends : List Lexeme) :
    Nat → Reading Node
  | 0 => failure
  | fuel + 1 => do
    match ← peek with
    | some lexeme =>
      if ends.contains lexeme then return .nothing else node handles inBlock isEntry fuel
    | none => failure

/-- A value. -/
def node (handles : Handles) (inBlock isEntry : Bool) : Nat → Reading Node
  | 0 => failure
  | fuel + 1 => do
    match ← peek with
    | some (.reference name) =>
      skip
      match (← get).names.lookup name with
      | some anchor => return .reference anchor
      | none => failure
    | _ =>
      let (anchor?, tag?) ← properties handles
      match ← peek with
      | some (.scalar text style) =>
        skip
        return .scalar anchor? tag? text style
      | some .flowSequenceStart =>
        skip
        return .sequence anchor? (← flowItems handles #[] fuel)
      | some .flowMappingStart =>
        skip
        return .mapping anchor? (← flowEntries handles #[] fuel)
      | lexeme? =>
        if isEntry && lexeme? == some .blockEntry then
          return .sequence anchor? (← entryItems handles #[] fuel)
        else if inBlock && lexeme? == some .blockSequenceStart then
          skip
          return .sequence anchor? (← blockItems handles #[] fuel)
        else if inBlock && lexeme? == some .blockMappingStart then
          skip
          return .mapping anchor? (← blockEntries handles #[] fuel)
        else if anchor?.isSome || tag?.isSome then return .scalar anchor? tag? "" .plain
        else failure

/-- The rest of a list with an item to a line. -/
def blockItems (handles : Handles) (items : Array Node) : Nat → Reading (List Node)
  | 0 => failure
  | fuel + 1 => do
    if ← skipIf .blockEnd then return items.toList
    expect .blockEntry
    let item ← optional handles true false itemEnds fuel
    blockItems handles (items.push item) fuel

/-- The rest of a list that is no deeper indented than the table around it. -/
def entryItems (handles : Handles) (items : Array Node) : Nat → Reading (List Node)
  | 0 => failure
  | fuel + 1 => do
    if ← skipIf .blockEntry then
      let item ← optional handles true false (.blockEntry :: entryEnds) fuel
      entryItems handles (items.push item) fuel
    else return items.toList

/-- The rest of a table with an entry to a line. -/
def blockEntries (handles : Handles) (entries : Array (Node × Node)) :
    Nat → Reading (List (Node × Node))
  | 0 => failure
  | fuel + 1 => do
    if ← skipIf .blockEnd then return entries.toList
    expect .key
    let key ← optional handles true true entryEnds fuel
    let value ←
      if ← skipIf .value then optional handles true true entryEnds fuel
      else pure .nothing
    blockEntries handles (entries.push (key, value)) fuel

/-- A value after a colon in brackets. -/
def flowValue (handles : Handles) (close : Lexeme) : Nat → Reading Node
  | 0 => failure
  | fuel + 1 => do
    if ← skipIf .value then optional handles false false [.flowEntry, close] fuel
    else return .nothing

/-- The rest of a list in brackets. An item that is announced as a key is a table with one
entry. If that key is missing, the lexeme in its place is passed over. -/
def flowItems (handles : Handles) (items : Array Node) : Nat → Reading (List Node)
  | 0 => failure
  | fuel + 1 => do
    if ← skipIf .flowSequenceEnd then return items.toList
    let item ←
      if ← skipIf .key then do
        let isMissing := (← peek).any [.value, .flowEntry, .flowSequenceEnd].contains
        let key ← if isMissing then do skip; pure Node.nothing else node handles false false fuel
        let value ← flowValue handles .flowSequenceEnd fuel
        pure (.mapping none [(key, value)])
      else node handles false false fuel
    if ← skipIf .flowSequenceEnd then return (items.push item).toList
    expect .flowEntry
    flowItems handles (items.push item) fuel

/-- The rest of a table in braces. A key may stand alone. -/
def flowEntries (handles : Handles) (entries : Array (Node × Node)) :
    Nat → Reading (List (Node × Node))
  | 0 => failure
  | fuel + 1 => do
    if ← skipIf .flowMappingEnd then return entries.toList
    let entry ←
      if ← skipIf .key then do
        let key ← optional handles false false [.value, .flowEntry, .flowMappingEnd] fuel
        let value ← flowValue handles .flowMappingEnd fuel
        pure (key, value)
      else do
        let key ← node handles false false fuel
        pure (key, .nothing)
    if ← skipIf .flowMappingEnd then return (entries.push entry).toList
    expect .flowEntry
    flowEntries handles (entries.push entry) fuel

end

/-! ## The document -/

/-- Read the directives before a document, given what earlier ones said. The version may
be told once and is 1.1 or 1.2; a handle may be bound once. -/
def directives (hasVersion : Bool) (declared : Handles) :
    List Lexeme → Option (Handles × List Lexeme)
  | .directive (.version major minor) :: rest =>
    if hasVersion || major != 1 || (minor != 1 && minor != 2) then none
    else directives true declared rest
  | .directive (.handle handle octets) :: rest =>
    if declared.keys.contains handle then none
    else directives hasVersion (declared.put handle octets) rest
  | rest => some (declared ++ Handles.default, rest)

/-- The value of a document that is announced by three hyphens; it may be missing. -/
def content (handles : Handles) (fuel : Nat) : Reading Node := do
  match ← peek with
  | none | some (.directive _) | some .documentStart | some .documentEnd => return .nothing
  | _ => node handles true false fuel

/-- The value of the only document among the lexemes. -/
def document? (lexemes : List Lexeme) : Option Node :=
  let fuel := 4 * lexemes.length + 4
  let read? : Option (Node × Reader) :=
    match lexemes with
    | [] => some (.mapping none [], ⟨[], []⟩)
    | .directive _ :: _ | .documentStart :: _ =>
      match directives false [] lexemes with
      | some (handles, .documentStart :: rest) => (content handles fuel).run ⟨rest, []⟩
      | _ => none
    | _ => (node Handles.default true false fuel).run ⟨lexemes, []⟩
  read?.bind fun (node, r) =>
    if r.rest.all (· == .documentEnd) then some node else none

end Reader

/-- The document that a text holds. -/
def Document.parse? (text : String) : Option Document :=
  ((Lexeme.ofText? text).bind Reader.document?).map ofRoot

end Stackwright.Yaml
