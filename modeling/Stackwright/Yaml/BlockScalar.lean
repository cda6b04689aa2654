import Stackwright.Yaml.Spot

/-!
# Block scalars

A scalar that is written line by line below a header. The header is a bar, which keeps
the lines as they are, or an angle, which folds them; after it may stand how the lines are
indented and what becomes of the line ends at the end (`Chomping`).

The indentation is that of the first line that holds more than spaces, but at least that of
the longest line before it. The scalar ends at the first line that does not reach it.
-/

namespace Stackwright.Yaml

/-- What becomes of the line ends after the last line with text. -/
inductive Chomping where
  /-- all are dropped -/
  | strip
  /-- one is kept -/
  | clip
  /-- all are kept -/
  | keep
  deriving DecidableEq, Repr

/-- What the header of a block scalar says. -/
structure BlockHeader where
  /-- the indentation relative to the block around, if it is given -/
  indent? : Option Nat
  /-- what becomes of the last line ends -/
  chomping : Chomping
  deriving DecidableEq, Repr

namespace BlockHeader

/-- A digit as an indentation; zero is none. -/
def digit? (c : Char) : Option Nat :=
  if '1' ≤ c ∧ c ≤ '9' then some (c.toNat - '0'.toNat) else none

/-- A sign as a way of chomping. -/
def sign? : Char → Option Chomping
  | '+' => some .keep
  | '-' => some .strip
  | _ => none

/-- Read the sign and the digit, either of which may come first or be missing. -/
def read : List Spot → BlockHeader × List Spot
  | a :: b :: rest =>
    match sign? a.char, digit? b.char, digit? a.char, sign? b.char with
    | some chomping, some indent, _, _ => (⟨some indent, chomping⟩, rest)
    | _, _, some indent, some chomping => (⟨some indent, chomping⟩, rest)
    | some chomping, _, _, _ => (⟨none, chomping⟩, b :: rest)
    | _, _, some indent, _ => (⟨some indent, .clip⟩, b :: rest)
    | none, _, none, _ => (⟨none, .clip⟩, a :: b :: rest)
  | [a] =>
    match sign? a.char, digit? a.char with
    | some chomping, _ => (⟨none, chomping⟩, [])
    | none, some indent => (⟨some indent, .clip⟩, [])
    | none, none => (⟨none, .clip⟩, [a])
  | [] => (⟨none, .clip⟩, [])

end BlockHeader

/-- The widest indentation up to and including the first line that holds more than spaces,
or `most` if that is more. No tab may follow such an indentation. -/
def widestIndent (most : Nat) : List Spot → Option Nat
  | [] => some most
  | s :: rest =>
    if s.char == ' ' then widestIndent (max most (s.column + 1)) rest
    else if s.char == '\t' then none
    else if s.isBreak then widestIndent most rest
    else some most

/-- The indentation of a block scalar whose lines come next, in a block with the given
margin, the least column within it. -/
def blockIndent? (header : BlockHeader) (margin : Nat) (spots : List Spot) : Option Nat :=
  match header.indent? with
  | some indent => some (if margin = 0 then indent else margin - 1 + indent)
  | none => widestIndent (max margin 1) spots

/-- A block scalar as far as it has been read. -/
structure BlockText where
  /-- the text, the latest character first -/
  text : List Char
  /-- how the last line with text ended, if there was one and it did end -/
  lineEnd? : Option Char
  /-- the line ends after that one, the latest first -/
  emptyLines : List Char
  /-- whether the last line with text began with a space -/
  isSpaced : Bool
  deriving DecidableEq, Repr

namespace BlockText

/-- What has been read before the first line. -/
def empty : BlockText := ⟨[], none, [], false⟩

/-- Add an empty line. -/
def addEmptyLine (t : BlockText) (lineEnd : Char) : BlockText :=
  { t with emptyLines := lineEnd :: t.emptyLines }

/-- Start a line with its first character. If lines are folded, the end of the last line
becomes a space, or nothing if empty lines follow, unless either line starts with a
space. -/
def startLine (t : BlockText) (isFolded : Bool) (c : Char) : BlockText :=
  let isJoined := isFolded && t.lineEnd? == some '\n' && !t.isSpaced && !isSpace c
  let lineEnd :=
    if isJoined then (if t.emptyLines.isEmpty then [' '] else []) else t.lineEnd?.toList
  ⟨c :: t.emptyLines ++ lineEnd ++ t.text, none, [], isSpace c⟩

/-- Add a character to the last line. -/
def addChar (t : BlockText) (c : Char) : BlockText := { t with text := c :: t.text }

/-- End the last line. -/
def endLine (t : BlockText) (lineEnd : Char) : BlockText := { t with lineEnd? := some lineEnd }

/-- The whole text. -/
def chomped (t : BlockText) : Chomping → List Char
  | .strip => t.text.reverse
  | .clip => t.text.reverse ++ t.lineEnd?.toList
  | .keep => t.text.reverse ++ t.lineEnd?.toList ++ t.emptyLines.reverse

end BlockText

/-- The rest of the lines of a block scalar with the given indentation, from within the
text of a line or from before it, and what follows them. No tab may stand in an
indentation. -/
def blockLinesFrom (isFolded : Bool) (indent : Nat) (t : BlockText) (inLine : Bool) :
    List Spot → Option (BlockText × List Spot)
  | [] => some (t, [])
  | s :: rest =>
    if inLine then
      if s.isBreak then blockLinesFrom isFolded indent (t.endLine s.char) false rest
      else blockLinesFrom isFolded indent (t.addChar s.char) true rest
    else if s.isBreak then blockLinesFrom isFolded indent (t.addEmptyLine s.char) false rest
    else if indent ≤ s.column then
      blockLinesFrom isFolded indent (t.startLine isFolded s.char) true rest
    else if s.char == ' ' then blockLinesFrom isFolded indent t false rest
    else if s.char == '\t' then none
    else some (t, s :: rest)

/-- A block scalar from after the bar or angle, in a block with the given margin, and what
follows it. -/
def blockScalar (isFolded : Bool) (margin : Nat) (spots : List Spot) :
    Option (List Char × List Spot) :=
  let (header, spots) := BlockHeader.read spots
  match restOfLine spots with
  | none => none
  | some spots =>
    match blockIndent? header margin spots with
    | none => none
    | some indent =>
      (blockLinesFrom isFolded indent .empty false spots).map fun (t, rest) =>
        (t.chomped header.chomping, rest)

end Stackwright.Yaml
