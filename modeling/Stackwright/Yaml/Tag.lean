import Stackwright.Bindings
import Stackwright.Text.Numeral
import Stackwright.Yaml.Spot

/-!
# Tags and directives

A tag tells the type of a value. It is an identifier, a string of octets, and is mostly
written in a short form: a *handle*, which a directive at the start of the document binds
to the first part of the identifier, and the second part.
-/

namespace Stackwright.Yaml

/-- The identifier of a type, or a part of one. -/
abbrev Octets : Type := List UInt8

/-- A tag as it is written. -/
inductive Tag where
  /-- the whole identifier -/
  | verbatim (identifier : Octets)
  /-- a handle and the second part of the identifier -/
  | short (handle : String) (suffix : Octets)
  deriving DecidableEq, Repr

/-- Handles with what they stand for. -/
abbrev Handles : Type := Bindings String Octets

/-- The octets of a text. -/
def octets (text : String) : Octets := text.toUTF8.toList

/-- The handles that need no directive. -/
def Handles.default : Handles := [("!", octets "!"), ("!!", octets "tag:yaml.org,2002:")]

/-- The whole identifier of a tag, if its handle is known. -/
def Tag.identifier? (handles : Handles) : Tag → Option Octets
  | verbatim identifier => some identifier
  | short handle suffix => (handles.lookup handle).map (· ++ suffix)

/-! ## Identifiers -/

/-- Whether a character may stand in an identifier; the last three may only where nothing
else could be meant. -/
def isIdentifierChar (isWide : Bool) (c : Char) : Bool :=
  isNameChar c || ";/?:@&=+$.!~*'()%".toList.contains c || (isWide && ",[]".toList.contains c)

/-- The number of octets after the first one of a character. -/
def trailingOctets? (octet : Nat) : Option Nat :=
  if octet < 0x80 then some 0
  else if octet < 0xC0 then none
  else if octet < 0xE0 then some 1
  else if octet < 0xF0 then some 2
  else if octet < 0xF8 then some 3
  else none

/-- The octets that characters stand for, where a percent sign and two digits stand for
an octet of a character; `trailing` more octets of it have to follow. -/
def unescaped? (trailing : Nat) : List Char → Option Octets
  | [] => if trailing = 0 then some [] else none
  | '%' :: high :: low :: cs =>
    match Text.digitValue? 16 high, Text.digitValue? 16 low with
    | some h, some l =>
      let octet := h * 16 + l
      if trailing = 0 then
        match trailingOctets? octet with
        | some trailing => (unescaped? trailing cs).map (octet.toUInt8 :: ·)
        | none => none
      else if 0x80 ≤ octet ∧ octet < 0xC0 then
        (unescaped? (trailing - 1) cs).map (octet.toUInt8 :: ·)
      else none
    | _, _ => none
  | c :: cs =>
    if trailing = 0 ∧ c ≠ '%' then (unescaped? 0 cs).map (c.toNat.toUInt8 :: ·) else none

/-- An identifier, or a part of one, and what follows it. -/
def identifier (isWide : Bool) (spots : List Spot) : Option (Octets × List Spot) :=
  let isPart (s : Spot) : Bool := isIdentifierChar isWide s.char
  (unescaped? 0 (chars (spots.takeWhile isPart))).map fun octets =>
    (octets, spots.dropWhile isPart)

/-- An identifier of at least one octet, and what follows it. -/
def identifier? (isWide : Bool) (spots : List Spot) : Option (Octets × List Spot) :=
  (identifier isWide spots).filter fun (octets, _) => !octets.isEmpty

/-! ## Tags -/

/-- The name between the marks of a handle, whose first mark has been read, and what
follows the handle; nothing if there is no second mark. -/
def handleName (spots : List Spot) : Option (List Char × List Spot) :=
  let (name, rest) := name spots
  if nextIs '!' rest then some (name, rest.tail) else none

/-- The handle with a name. -/
def handle (name : List Char) : String := String.ofList ('!' :: name ++ ['!'])

/-- A tag from after its first mark, and what follows it. Without a second mark, the
first one alone is the handle, and if nothing follows, it is the whole tag. -/
def readTag (spots : List Spot) : Option (Tag × List Spot) :=
  if nextIs '<' spots then
    match identifier? true spots.tail with
    | some (octets, rest) =>
      if nextIs '>' rest then some (.verbatim octets, rest.tail) else none
    | none => none
  else
    match handleName spots with
    | some (name, rest) =>
      (identifier? false rest).map fun (suffix, rest) => (.short (handle name) suffix, rest)
    | none =>
      (identifier false spots).map fun (suffix, rest) =>
        (if suffix.isEmpty then .verbatim (octets "!") else .short "!" suffix, rest)

/-- A tag from after its first mark, and what follows it: a gap, or in brackets a comma. -/
def tag (inFlow : Bool) (spots : List Spot) : Option (Tag × List Spot) :=
  (readTag spots).filter fun (_, rest) => atGap rest || (inFlow && nextIs ',' rest)

/-! ## Anchors -/

/-- The name of an anchor, and what follows it: a gap or one of some marks. -/
def anchorName (spots : List Spot) : Option (String × List Spot) :=
  let (name, rest) := name spots
  let isEnd := atGap rest || rest.head?.any fun s => "?:,]\x7d%@`".toList.contains s.char
  if name.isEmpty || !isEnd then none else some (String.ofList name, rest)

/-! ## Directives -/

/-- A line with which the start of a document can be preceded. -/
inductive Directive where
  /-- the version of the language -/
  | version (major minor : Nat)
  /-- what a handle stands for -/
  | handle (handle : String) (octets : Octets)
  deriving DecidableEq, Repr

namespace Directive

/-- A number of at most nine digits, and what follows it. -/
def number (spots : List Spot) : Option (Nat × List Spot) :=
  let digits := chars (spots.takeWhile (·.char.isDigit))
  if digits.length ≤ 9 then
    (Text.natural? 999999999 digits).map (·, spots.dropWhile (·.char.isDigit))
  else none

/-- The version of the language, and what follows it. -/
def readVersion (spots : List Spot) : Option (Directive × List Spot) :=
  match number spots with
  | none => none
  | some (major, rest) =>
    if nextIs '.' rest then
      (number rest.tail).map fun (minor, rest) => (version major minor, rest)
    else none

/-- A handle from after its first mark, and what follows it. The first mark alone is a
handle, too. -/
def readHandleName (spots : List Spot) : Option (String × List Spot) :=
  match handleName spots with
  | some (name, rest) => some (Yaml.handle name, rest)
  | none => if (name spots).1.isEmpty then some ("!", spots) else none

/-- What a handle stands for, and what follows it. -/
def readHandle (spots : List Spot) : Option (Directive × List Spot) :=
  if nextIs '!' spots then
    match readHandleName spots.tail with
    | none => none
    | some (name, rest) =>
      if rest.head?.any Spot.isSpace then
        match identifier? true (rest.dropWhile Spot.isSpace) with
        | none => none
        | some (octets, rest) => if atGap rest then some (handle name octets, rest) else none
      else none
  else none

/-- A directive from after the percent sign, and what follows its line. -/
def read (spots : List Spot) : Option (Directive × List Spot) :=
  let (name, rest) := name spots
  let value := rest.dropWhile Spot.isSpace
  let directive? :=
    if !atGap rest then none
    else if name == "YAML".toList then readVersion value
    else if name == "TAG".toList then readHandle value
    else none
  directive?.bind fun (directive, rest) => (restOfLine rest).map (directive, ·)

end Directive

end Stackwright.Yaml
