import Stackwright.Yaml.BlockScalar
import Stackwright.Yaml.Lexeme
import Stackwright.Yaml.Scalar

/-!
# From text to lexemes

The lexer walks over the spots of a text once. It knows the columns of the blocks that are
open: a line further to the left closes blocks, and a line further to the right opens one.

Only at the colon after it does a key turn out to be one. So the lexer remembers for each
pair of brackets that is open, and for the text around all brackets, where the last value
started that may yet become a key; there the key is then announced. A key has to end on
its line and within 1024 octets.
-/

namespace Stackwright.Yaml

/-- Where a value started that may become a key. -/
structure KeyStart where
  /-- its first character -/
  spot : Spot
  /-- the number of lexemes before it -/
  position : Nat
  /-- whether nothing but a key may stand there -/
  isRequired : Bool
  deriving DecidableEq, Repr

/-- Whether a key would be too long if it ended here. -/
def KeyStart.isStale (key : KeyStart) (here : Spot) : Bool :=
  key.spot.line < here.line || key.spot.index + 1024 < here.index

/-- How far a text has been read. -/
structure Lexer where
  /-- what is still to be read -/
  rest : List Spot
  /-- the columns of the open blocks, the innermost first -/
  blocks : List Nat
  /-- whether a key may start here -/
  keyAllowed : Bool
  /-- where a key may have started within the innermost brackets -/
  keyStart? : Option KeyStart
  /-- the same for what is around them; there is one for every pair of open brackets -/
  outerKeys : List (Option KeyStart)
  /-- the lexemes so far -/
  lexemes : Array Lexeme

namespace Lexer

/-- The lexer before a text. -/
def start (spots : List Spot) : Lexer := ⟨spots, [], true, none, [], #[]⟩

/-- Whether brackets are open. -/
def inFlow (l : Lexer) : Bool := !l.outerKeys.isEmpty

/-- The least column within the innermost block. -/
def margin (l : Lexer) : Nat :=
  match l.blocks with
  | [] => 0
  | column :: _ => column + 1

/-- Add a lexeme and go on with the text after it. -/
def emit (l : Lexer) (lexeme : Lexeme) (rest : List Spot) : Lexer :=
  { l with lexemes := l.lexemes.push lexeme, rest }

/-! ## Gaps -/

/-- Skip spaces, line ends and comments, keeping track of whether a key may come next. It
may at the start of a line; a tab must not stand where one may, except in brackets. -/
def skipGapsFrom (inFlow keyAllowed inComment : Bool) : List Spot → Bool × List Spot
  | [] => (keyAllowed, [])
  | s :: rest =>
    if s.isBreak then skipGapsFrom inFlow (keyAllowed || !inFlow) false rest
    else if inComment || s.char == ' ' || (s.char == '\t' && (inFlow || !keyAllowed)) then
      skipGapsFrom inFlow keyAllowed inComment rest
    else if s.char == '#' then skipGapsFrom inFlow keyAllowed true rest
    else (keyAllowed, s :: rest)

/-- Skip spaces, line ends and comments. -/
def skipGaps (l : Lexer) : Lexer :=
  let (keyAllowed, rest) := skipGapsFrom l.inFlow l.keyAllowed false l.rest
  { l with keyAllowed, rest }

/-! ## Keys -/

/-- Forget where keys may have started that would be too long if they ended here. -/
def dropStaleKeys (l : Lexer) (here : Spot) : Option Lexer :=
  let isMissing (key? : Option KeyStart) : Bool :=
    key?.any fun key => key.isRequired && key.isStale here
  let fresh (key? : Option KeyStart) : Option KeyStart := key?.filter (!·.isStale here)
  if isMissing l.keyStart? || l.outerKeys.any isMissing then none
  else some { l with keyStart? := fresh l.keyStart?, outerKeys := l.outerKeys.map fresh }

/-- Forget where a key may have started. -/
def dropKey (l : Lexer) : Option Lexer :=
  if l.keyStart?.any KeyStart.isRequired then none else some { l with keyStart? := none }

/-- Remember that a key may start here. In a block, nothing else may start in the column
of the block. -/
def saveKey (l : Lexer) (here : Spot) : Option Lexer :=
  if l.keyAllowed then
    let isRequired := !l.inFlow && l.blocks.head? == some here.column
    l.dropKey.map ({ · with keyStart? := some ⟨here, l.lexemes.size, isRequired⟩ })
  else some l

/-! ## Blocks -/

/-- Open a block, unless one is open in the same column; its start is put before the
lexeme with the given position. -/
def openBlock (l : Lexer) (column position : Nat) (lexeme : Lexeme) : Lexer :=
  if !l.inFlow && l.margin ≤ column then
    { l with
      blocks := column :: l.blocks
      lexemes := l.lexemes.insertIdxIfInBounds position lexeme }
  else l

/-- Close the blocks whose columns are not kept. -/
def closeBlocks (l : Lexer) (isKept : Nat → Bool) : Lexer :=
  if l.inFlow then l
  else
    let closed := l.blocks.takeWhile (!isKept ·)
    { l with
      blocks := l.blocks.dropWhile (!isKept ·)
      lexemes := l.lexemes ++ closed.map fun _ => Lexeme.blockEnd }

/-- Close all blocks. -/
def closeAll (l : Lexer) : Lexer := l.closeBlocks fun _ => false

/-! ## One lexeme -/

/-- A directive, from after its percent sign. -/
def directive (l : Lexer) (rest : List Spot) : Option Lexer :=
  match l.closeAll.dropKey, Directive.read rest with
  | some l, some (d, rest) => some ({ l with keyAllowed := false }.emit (.directive d) rest)
  | _, _ => none

/-- The start or the end of a document. -/
def marker (l : Lexer) (lexeme : Lexeme) : Option Lexer :=
  l.closeAll.dropKey.map fun l =>
    { l with keyAllowed := false }.emit lexeme (l.rest.drop 3)

/-- An opening bracket. -/
def openFlow (l : Lexer) (here : Spot) (lexeme : Lexeme) (rest : List Spot) : Option Lexer :=
  (l.saveKey here).map fun l =>
    { l with
      keyStart? := none, outerKeys := l.keyStart? :: l.outerKeys, keyAllowed := true }.emit
      lexeme rest

/-- A closing bracket. -/
def closeFlow (l : Lexer) (lexeme : Lexeme) (rest : List Spot) : Option Lexer :=
  l.dropKey.map fun l =>
    let l := { l with keyAllowed := false }.emit lexeme rest
    match l.outerKeys with
    | [] => l
    | key? :: outer => { l with keyStart? := key?, outerKeys := outer }

/-- A comma. -/
def comma (l : Lexer) (rest : List Spot) : Option Lexer :=
  l.dropKey.map fun l => { l with keyAllowed := true }.emit .flowEntry rest

/-- A hyphen or a question mark that announces what follows in a block of its own. -/
def blockMark (l : Lexer) (here : Spot) (opening lexeme : Lexeme) (rest : List Spot) :
    Option Lexer :=
  if l.inFlow || l.keyAllowed then
    (l.openBlock here.column l.lexemes.size opening).dropKey.map (·.emit lexeme rest)
  else none

/-- A hyphen before an item. -/
def item (l : Lexer) (here : Spot) (rest : List Spot) : Option Lexer :=
  (l.blockMark here .blockSequenceStart .blockEntry rest).map ({ · with keyAllowed := true })

/-- A question mark before a key. -/
def key (l : Lexer) (here : Spot) (rest : List Spot) : Option Lexer :=
  (l.blockMark here .blockMappingStart .key rest).map ({ · with keyAllowed := !l.inFlow })

/-- A colon before a value. The value before it, if there is one that may be a key, is one;
otherwise a question mark must have announced the key. -/
def value (l : Lexer) (here : Spot) (rest : List Spot) : Option Lexer :=
  match l.keyStart? with
  | some key =>
    let l := { l with lexemes := l.lexemes.insertIdxIfInBounds key.position .key }
    let l := l.openBlock key.spot.column key.position .blockMappingStart
    some ({ l with keyStart? := none, keyAllowed := false }.emit .value rest)
  | none =>
    if l.inFlow || l.keyAllowed then
      let l := l.openBlock here.column l.lexemes.size .blockMappingStart
      some ({ l with keyAllowed := !l.inFlow }.emit .value rest)
    else none

/-- A lexeme with what follows it, which may be a key or the start of one. -/
def simple (l : Lexer) (here : Spot) (read : Option (Lexeme × List Spot)) : Option Lexer :=
  match l.saveKey here, read with
  | some l, some (lexeme, rest) => some ({ l with keyAllowed := false }.emit lexeme rest)
  | _, _ => none

/-- A scalar of characters. -/
def scalar (style : ScalarStyle) (text : List Char) : Lexeme :=
  .scalar (String.ofList text) style

/-- A scalar that is written line by line. -/
def block (l : Lexer) (style : ScalarStyle) (rest : List Spot) : Option Lexer :=
  match l.dropKey, blockScalar (style == .folded) l.margin rest with
  | some l, some (text, rest) =>
    some ({ l with keyAllowed := true }.emit (scalar style text) rest)
  | _, _ => none

/-- A plain scalar. A key may follow it if it ends with its line. -/
def plainScalar (l : Lexer) (here : Spot) : Option Lexer :=
  match l.saveKey here, plain l.inFlow l.margin l.rest with
  | some l, some p => some ({ l with keyAllowed := p.endsLine }.emit (scalar .plain p.text) p.rest)
  | _, _ => none

/-- Read the lexeme that starts at the next character. -/
def next (l : Lexer) (here : Spot) (rest : List Spot) : Option Lexer :=
  if here.column == 0 && here.char == '%' then l.directive rest
  else if isMarker '-' l.rest then l.marker .documentStart
  else if isMarker '.' l.rest then l.marker .documentEnd
  else
    match here.char with
    | '[' => l.openFlow here .flowSequenceStart rest
    | '\x7b' => l.openFlow here .flowMappingStart rest
    | ']' => l.closeFlow .flowSequenceEnd rest
    | '\x7d' => l.closeFlow .flowMappingEnd rest
    | ',' => l.comma rest
    | '*' => l.simple here ((anchorName rest).map fun (name, rest) => (.reference name, rest))
    | '&' => l.simple here ((anchorName rest).map fun (name, rest) => (.anchor name, rest))
    | '!' => l.simple here ((tag l.inFlow rest).map fun (tag, rest) => (.tag tag, rest))
    | '\'' => l.simple here ((quoted '\'' rest).map fun (text, rest) => (scalar .quoted text, rest))
    | '"' => l.simple here ((quoted '"' rest).map fun (text, rest) => (scalar .quoted text, rest))
    | c =>
      if c == '-' && atGap rest then l.item here rest
      else if c == '?' && (l.inFlow || atGap rest) then l.key here rest
      else if c == ':' && (l.inFlow || atGap rest) then l.value here rest
      else if c == '|' && !l.inFlow then l.block .literal rest
      else if c == '>' && !l.inFlow then l.block .folded rest
      else if startsPlain l.inFlow l.rest then l.plainScalar here
      else none

/-- Read all lexemes that are left; each of them takes a unit of fuel. -/
def run : Nat → Lexer → Option (List Lexeme)
  | 0, _ => none
  | fuel + 1, l =>
    let l := l.skipGaps
    match l.rest with
    | [] => l.closeAll.dropKey.map (·.lexemes.toList)
    | here :: rest =>
      (l.dropStaleKeys here).bind fun l =>
        ((l.closeBlocks (· ≤ here.column)).next here rest).bind (run fuel)

end Lexer

/-- The lexemes of a text, each of which takes up at least one character. -/
def Lexeme.ofText? (text : String) : Option (List Lexeme) :=
  (Spot.ofText? text).bind fun spots => Lexer.run (spots.length + 1) (.start spots)

end Stackwright.Yaml
