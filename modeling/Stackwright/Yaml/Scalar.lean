import Stackwright.Text.Numeral
import Stackwright.Yaml.Spot

/-!
# Scalars within lines

Plain scalars and scalars in quotes. All of them may go on over several lines, and then
what stands between two words is *folded*: a line end counts as a space, and of several
line ends the first one is dropped (`Gap.text`).

The readers walk over the text once and keep what they have read, the latest character
first.
-/

namespace Stackwright.Yaml

/-- What stands between two words of a scalar, the latest character first. -/
inductive Gap where
  /-- spaces and tabs -/
  | spaces (cs : List Char)
  /-- line ends: the first one, unless it was escaped, and those after it -/
  | lines (first? : Option Char) (more : List Char)
  deriving DecidableEq, Repr

namespace Gap

/-- Nothing at all. -/
def empty : Gap := spaces []

/-- Whether there is nothing. -/
def isEmpty : Gap → Bool
  | spaces cs => cs.isEmpty
  | lines _ _ => false

/-- Whether a line ends. -/
def endsLine : Gap → Bool
  | spaces _ => false
  | lines _ _ => true

/-- Add a space, a tab or a line end. Beside line ends, spaces and tabs do not count. -/
def add (gap : Gap) (c : Char) : Gap :=
  match gap with
  | spaces cs => if isBreak c then lines (some c) [] else spaces (c :: cs)
  | lines first? more => if isBreak c then lines first? (c :: more) else gap

/-- What the gap stands for. -/
def text : Gap → List Char
  | spaces cs => cs.reverse
  | lines (some '\n') [] => [' ']
  | lines (some '\n') more => more.reverse
  | lines first? more => first?.toList ++ more.reverse

end Gap

/-- The text so far, the latest character first, with a gap after it. -/
def withGap (text : List Char) (gap : Gap) : List Char := gap.text.reverse ++ text

/-! ## Plain scalars -/

/-- The brackets and the comma, which structure data in brackets. -/
def isFlowIndicator (c : Char) : Bool := ",[]\x7b\x7d".toList.contains c

/-- Characters that no plain scalar starts with. -/
def isIndicator (c : Char) : Bool := "-?:,[]\x7b\x7d#&*!|>'\"%@`".toList.contains c

/-- Whether a plain scalar can start here. A hyphen may start one before anything but a
space, and outside brackets a colon or a question mark may before anything but a gap. -/
def startsPlain (inFlow : Bool) : List Spot → Bool
  | [] => false
  | s :: rest =>
    !(isIndicator s.char || s.isGap) || (s.char == '-' && !rest.head?.any Spot.isSpace) ||
      (!inFlow && (s.char == '?' || s.char == ':') && !atGap rest)

/-- A plain scalar that has been read. -/
structure PlainScalar where
  /-- its text -/
  text : List Char
  /-- whether a line ended after it -/
  endsLine : Bool
  /-- what follows it and the gap after it -/
  rest : List Spot

/-- Whether a plain scalar ends at a character after a gap: at a comment, at a marker,
or where the line does not reach the margin. -/
def endsAfterGap (inFlow : Bool) (margin : Nat) (spots : List Spot) : Bool :=
  nextIs '#' spots || atMarker spots ||
    (!inFlow && spots.head?.any fun s => s.column < margin)

/-- Whether a plain scalar ends at a character: a colon before a gap, or punctuation in
brackets. -/
def endsPlain (inFlow : Bool) : List Spot → Bool
  | [] => true
  | s :: rest => (s.char == ':' && atGap rest) || (inFlow && isFlowIndicator s.char)

/-- In brackets a colon must not touch the punctuation after it. -/
def misplacedColon (inFlow : Bool) : List Spot → Bool
  | s :: next :: _ => inFlow && s.char == ':' && (isFlowIndicator next.char || next.char == '?')
  | _ => false

/-- The rest of a plain scalar, given its text and the gap so far. A line within it must
not be indented with tabs up to the margin. -/
def plainFrom (inFlow : Bool) (margin : Nat) (text : List Char) (gap : Gap) :
    List Spot → Option PlainScalar
  | [] => some ⟨text.reverse, gap.endsLine, []⟩
  | s :: rest =>
    if s.isGap then
      if gap.endsLine && s.char == '\t' && s.column < margin then none
      else plainFrom inFlow margin text (gap.add s.char) rest
    else if !gap.isEmpty && endsAfterGap inFlow margin (s :: rest) then
      some ⟨text.reverse, gap.endsLine, s :: rest⟩
    else if misplacedColon inFlow (s :: rest) then none
    else if endsPlain inFlow (s :: rest) then some ⟨text.reverse, gap.endsLine, s :: rest⟩
    else plainFrom inFlow margin (s.char :: withGap text gap) .empty rest

/-- A plain scalar. -/
def plain (inFlow : Bool) (margin : Nat) (spots : List Spot) : Option PlainScalar :=
  plainFrom inFlow margin [] .empty spots

/-! ## Scalars in quotes -/

/-- A scalar in single quotes from after its first quote, given its text and the gap so
far and whether the last character was a quote. Two quotes stand for one. -/
def singleQuotedFrom (text : List Char) (gap : Gap) (afterQuote : Bool) :
    List Spot → Option (List Char × List Spot)
  | [] => if afterQuote then some (text.reverse, []) else none
  | s :: rest =>
    if afterQuote then
      if s.char == '\'' then singleQuotedFrom ('\'' :: text) .empty false rest
      else some (text.reverse, s :: rest)
    else if s.isGap then singleQuotedFrom text (gap.add s.char) false rest
    else if atMarker (s :: rest) then none
    else if s.char == '\'' then singleQuotedFrom (withGap text gap) .empty true rest
    else singleQuotedFrom (s.char :: withGap text gap) .empty false rest

/-- The character that a letter after a backslash stands for. -/
def escape? : Char → Option Char
  | '0' => some (Char.ofNat 0)
  | 'a' => some (Char.ofNat 7)
  | 'b' => some (Char.ofNat 8)
  | 't' => some '\t'
  | '\t' => some '\t'
  | 'n' => some '\n'
  | 'v' => some (Char.ofNat 11)
  | 'f' => some (Char.ofNat 12)
  | 'r' => some '\r'
  | 'e' => some (Char.ofNat 27)
  | ' ' => some ' '
  | '"' => some '"'
  | '/' => some '/'
  | '\\' => some '\\'
  | 'N' => some '\u0085'
  | '_' => some '\u00a0'
  | 'L' => some '\u2028'
  | 'P' => some '\u2029'
  | _ => none

/-- The number of hexadecimal digits that a letter after a backslash announces. -/
def codeLength? : Char → Option Nat
  | 'x' => some 2
  | 'u' => some 4
  | 'U' => some 8
  | _ => none

/-- The character with a code. -/
def charOfCode? (code : Nat) : Option Char :=
  if h : code.isValidChar then some (Char.ofNatAux code h) else none

/-- Where a reader stands with respect to an escape. -/
inductive Escape where
  /-- outside any -/
  | outside
  /-- after a backslash -/
  | opened
  /-- where more digits of a code have to follow -/
  | code (digits value : Nat)
  deriving DecidableEq, Repr

/-- A scalar in double quotes from after its first quote, given its text, the gap and
the escape so far. A line end after a backslash goes without a space. -/
def doubleQuotedFrom (text : List Char) (gap : Gap) (escape : Escape) :
    List Spot → Option (List Char × List Spot)
  | [] => none
  | s :: rest =>
    match escape with
    | .opened =>
      if s.isBreak then doubleQuotedFrom text (.lines none []) .outside rest
      else
        match codeLength? s.char with
        | some digits => doubleQuotedFrom text .empty (.code digits 0) rest
        | none =>
          match escape? s.char with
          | some c => doubleQuotedFrom (c :: text) .empty .outside rest
          | none => none
    | .code digits value =>
      match Text.digitValue? 16 s.char with
      | none => none
      | some d =>
        if digits ≤ 1 then
          match charOfCode? (value * 16 + d) with
          | some c => doubleQuotedFrom (c :: text) .empty .outside rest
          | none => none
        else doubleQuotedFrom text .empty (.code (digits - 1) (value * 16 + d)) rest
    | .outside =>
      if s.isGap then doubleQuotedFrom text (gap.add s.char) .outside rest
      else if atMarker (s :: rest) then none
      else if s.char == '"' then some ((withGap text gap).reverse, rest)
      else if s.char == '\\' then doubleQuotedFrom (withGap text gap) .empty .opened rest
      else doubleQuotedFrom (s.char :: withGap text gap) .empty .outside rest

/-- A scalar in quotes from after its first quote, which is given, and what follows it. -/
def quoted (quote : Char) (spots : List Spot) : Option (List Char × List Spot) :=
  if quote == '"' then doubleQuotedFrom [] .empty .outside spots
  else singleQuotedFrom [] .empty false spots

end Stackwright.Yaml
