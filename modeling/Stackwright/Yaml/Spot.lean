/-!
# Where characters stand

YAML tells its structure by where things stand, so a text is read as its characters
together with their places, its *spots*. In a text of spots every line end is a single
character: the line feed, or one of the two Unicode separators, which a scalar keeps.
The other ways to end a line count as a line feed.
-/

namespace Stackwright.Yaml

/-- Whether a text may hold a character. -/
def isAllowed (c : Char) : Bool :=
  let n := c.toNat
  n == 0x09 || n == 0x0A || n == 0x0D || (0x20 ≤ n && n ≤ 0x7E) || n == 0x85 ||
    (0xA0 ≤ n && n ≤ 0xFFFD) || 0x10000 ≤ n

/-- A space or a tab. -/
def isSpace (c : Char) : Bool := c == ' ' || c == '\t'

/-- What ends a line once line ends have been unified. -/
def isBreak (c : Char) : Bool := c == '\n' || c == '\u2028' || c == '\u2029'

/-- A line end in its unified form, if the character is one. -/
def lineEnd? (c : Char) : Option Char :=
  if c == '\r' || c == '\u0085' then some '\n' else if isBreak c then some c else none

/-- A character and where it stands. -/
structure Spot where
  /-- the character -/
  char : Char
  /-- the number of octets before it in the text -/
  index : Nat
  /-- the number of lines before its line -/
  line : Nat
  /-- the number of characters before it in its line -/
  column : Nat
  deriving DecidableEq, Repr

namespace Spot

/-- Whether it is a space or a tab. -/
def isSpace (s : Spot) : Bool := Yaml.isSpace s.char

/-- Whether it ends a line. -/
def isBreak (s : Spot) : Bool := Yaml.isBreak s.char

/-- Whether it is a space, a tab or a line end. -/
def isGap (s : Spot) : Bool := s.isSpace || s.isBreak

/-- The spots of a text that begins at the given place. -/
def listFrom (index line column : Nat) : List Char → List Spot
  | [] => []
  | '\r' :: '\n' :: cs => ⟨'\n', index, line, column⟩ :: listFrom (index + 2) (line + 1) 0 cs
  | c :: cs =>
    match lineEnd? c with
    | some end' => ⟨end', index, line, column⟩ :: listFrom (index + c.utf8Size) (line + 1) 0 cs
    | none => ⟨c, index, line, column⟩ :: listFrom (index + c.utf8Size) line (column + 1) cs

/-- The spots of a text, unless it holds a character that it may not hold. A byte order
mark at its start is no part of it, but takes up a column. -/
def ofText? (text : String) : Option (List Spot) :=
  if text.toList.all isAllowed then
    match text.toList with
    | '\ufeff' :: cs => some (listFrom 3 0 1 cs)
    | cs => some (listFrom 0 0 0 cs)
  else none

end Spot

/-! ## Looking ahead -/

/-- Whether a text is at its end or goes on with a gap. -/
def atGap : List Spot → Bool
  | [] => true
  | s :: _ => s.isGap

/-- Whether a text goes on with a certain character. -/
def nextIs (c : Char) (spots : List Spot) : Bool := spots.head?.any fun s => s.char == c

/-- Whether three equal characters alone at the start of a line mark the start or the
end of a document here. -/
def isMarker (mark : Char) : List Spot → Bool
  | a :: b :: c :: rest =>
    a.column == 0 && a.char == mark && b.char == mark && c.char == mark && atGap rest
  | _ => false

/-- Whether a document starts or ends here. -/
def atMarker (spots : List Spot) : Bool := isMarker '-' spots || isMarker '.' spots

/-- The characters of some spots. -/
def chars (spots : List Spot) : List Char := spots.map Spot.char

/-- Skip spaces and tabs, a comment and the end of the line; nothing else may stand on
the line. -/
def restOfLine (spots : List Spot) : Option (List Spot) :=
  let spots := spots.dropWhile Spot.isSpace
  let spots := if nextIs '#' spots then spots.dropWhile (!·.isBreak) else spots
  match spots with
  | [] => some []
  | s :: rest => if s.isBreak then some rest else none

/-! ## Names -/

/-- A letter, a digit, an underscore or a hyphen. -/
def isNameChar (c : Char) : Bool := c.isAlphanum || c == '_' || c == '-'

/-- The name at the start of a text, possibly empty, and what follows it. -/
def name (spots : List Spot) : List Char × List Spot :=
  (chars (spots.takeWhile (isNameChar ·.char)), spots.dropWhile (isNameChar ·.char))

end Stackwright.Yaml
