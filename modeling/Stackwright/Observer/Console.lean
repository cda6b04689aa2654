import Stackwright.Observer.Basic
import Stackwright.Text.Style

/-!
# The console

The console prints the words that a program writes out, each on its own line, as
soon as they are written. It remembers how many it has printed, and prints those
beyond that number. It can copy the plain words to a *sink*. A sink may refuse a
line, and then it is closed for good; printing goes on.
-/

namespace Stackwright

/-- Where the console copies words to. -/
structure Sink where
  /-- the lines accepted so far -/
  lines : Array String
  /-- the number of lines at which the sink refuses one -/
  refusesAt : Option Nat
  /-- whether the console still writes to it -/
  isOpen : Bool
  deriving DecidableEq, Repr

namespace Sink

/-- An empty sink that accepts every line. -/
def accepting : Sink := ⟨#[], none, true⟩

/-- An empty sink that refuses a line once it holds `n`. -/
def refusingAt (n : Nat) : Sink := ⟨#[], some n, true⟩

/-- Write a line, if the sink is open. -/
def write (sink : Sink) (line : String) : Sink :=
  if !sink.isOpen then sink
  else if sink.refusesAt = some sink.lines.size then { sink with isOpen := false }
  else { sink with lines := sink.lines.push line }

/-- The text that went into the sink. -/
def text (sink : Sink) : String := String.join (sink.lines.toList.map (· ++ "\n"))

end Sink

/-- An observer that prints the output of a program. -/
structure Console where
  /-- whether words are set off from other text -/
  styled : Bool
  /-- the number of words printed -/
  printed : Nat
  /-- where words are copied to -/
  copy : Option Sink
  deriving DecidableEq, Repr

namespace Console

/-- A console that prints plain words and copies them nowhere. -/
def plain : Console := ⟨false, 0, none⟩

/-- The line for a word. -/
def line (styled : Bool) (word : Word) : String :=
  if styled then " > " ++ Text.Style.alert.paint word.text else word.text

/-- Print what was written out since the last look. -/
def catchUp (console : Console) (output : Array Word) : Console × List String :=
  let news := (output.extract console.printed output.size).toList
  ({ console with
      printed := output.size
      copy := console.copy.map fun sink =>
        news.foldl (fun sink word => sink.write word.text) sink },
    news.map (line console.styled))

instance : Observer Console where
  start _ console := ({ console with printed := 0 }, [])
  after _ _ m console := console.catchUp m.output

end Console

end Stackwright
