import Stackwright.Stream
import Stackwright.Text.Blank
import Stackwright.Word

/-!
# Program images

A program in its written form: one decimal word per line, in address order from
zero. Reading is more tolerant than writing. Blanks around a word do not count,
blank lines are skipped, and a word may carry a plus sign or leading zeros.
-/

namespace Stackwright

/-- Why an image cannot be read. -/
inductive ImageError where
  /-- the stream failed -/
  | read (cause : IoError)
  /-- a line is no word; lines count from one, and the text is without the blanks around it -/
  | parse (line : Nat) (text : String)
  deriving DecidableEq, Repr

namespace ImageError

/-- The wording of the error. -/
def message : ImageError → String
  | .read _ => "Failed to read image"
  | .parse line text => s!"Line {line}: cannot parse `{text}` as a word"

/-- The failure behind the error. -/
def cause : ImageError → Option IoError
  | .read cause => some cause
  | .parse _ _ => none

end ImageError

namespace Image

/-- A program as image text. -/
def text (program : List Word) : String :=
  String.join (program.map fun w => w.text ++ "\n")

/-- Write a program word by word after what an output holds already. -/
def write (output : String) (program : List Word) : String :=
  program.foldl (fun written w => written ++ (w.text ++ "\n")) output

/-- The words on the given lines, the first of which has number `n`. -/
def readLines (n : Nat) : List String → Except ImageError (List Word)
  | [] => .ok []
  | line :: rest =>
    match Text.trim line.toList with
    | [] => readLines (n + 1) rest
    | content =>
      match Word.read? content with
      | none => .error (.parse n (String.ofList content))
      | some w => (readLines (n + 1) rest).map (w :: ·)

/-- Read an image. A bad line is blamed before a failure that comes after it. -/
def read (feed : Feed) : Except ImageError (List Word) :=
  match readLines 1 feed.lines, feed.failure with
  | .error e, _ => .error e
  | .ok _, some e => .error (.read e)
  | .ok program, none => .ok program

end Image

end Stackwright
