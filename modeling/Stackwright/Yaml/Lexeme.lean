import Stackwright.Yaml.Tag

/-!
# Lexemes

What a document is made of once indentation has been understood: blocks have a start and
an end just as brackets have, and a key is announced before it comes.
-/

namespace Stackwright.Yaml

/-- How a scalar is written. -/
inductive ScalarStyle where
  /-- with nothing around it -/
  | plain
  /-- in quotes -/
  | quoted
  /-- line by line, as it is -/
  | literal
  /-- line by line, folded -/
  | folded
  deriving DecidableEq, Repr

/-- A piece of a document. -/
inductive Lexeme where
  /-- a directive -/
  | directive (directive : Directive)
  /-- three hyphens, before a document -/
  | documentStart
  /-- three points, after a document -/
  | documentEnd
  /-- the start of a list with an item to a line -/
  | blockSequenceStart
  /-- the start of a table with an entry to a line -/
  | blockMappingStart
  /-- the end of a block -/
  | blockEnd
  /-- an opening square bracket -/
  | flowSequenceStart
  /-- a closing square bracket -/
  | flowSequenceEnd
  /-- an opening brace -/
  | flowMappingStart
  /-- a closing brace -/
  | flowMappingEnd
  /-- a hyphen before an item -/
  | blockEntry
  /-- a comma -/
  | flowEntry
  /-- a key comes -/
  | key
  /-- a value comes -/
  | value
  /-- the value of an anchor -/
  | reference (name : String)
  /-- a name for the value that comes -/
  | anchor (name : String)
  /-- the type of the value that comes -/
  | tag (tag : Tag)
  /-- a scalar -/
  | scalar (text : String) (style : ScalarStyle)
  deriving DecidableEq, Repr

end Stackwright.Yaml
