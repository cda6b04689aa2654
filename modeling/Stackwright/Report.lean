import Stackwright.AssemblyError
import Stackwright.Text.Column
import Stackwright.Text.Style

/-!
# Error reports

An error is reported in lines of coloured text: what is wrong, the failure behind
it if there is one, and, if the error points at a source line, that line with its
number and the name of the file. A label that is defined twice shows both lines.
-/

namespace Stackwright

open Text (Style)

namespace Report

/-- What is wrong, in one line. -/
def headline (message : String) : String := Style.alert.paint "error" ++ ": " ++ message

/-- The line for the failure behind an error. -/
def causeLine (cause : String) : String :=
  "  " ++ Style.frame.paint "=" ++ " caused by: " ++ cause

/-- What is wrong, and why if that is known. -/
def failure (message : String) (cause : Option String) : List String :=
  headline message :: cause.toList.map causeLine

/-- A remark in one line. -/
def remark (message : String) : String := Style.remark.paint "note" ++ ": " ++ message

/-- The source line with number `n`; lines count from one, and a line that does not
exist is shown empty. -/
def snippet (file : String) (lines : List String) (n : Nat) : List String :=
  let content := if n = 0 then "" else lines.getD (n - 1) ""
  let arrow := Style.frame.paint "-->"
  let place := Style.underlined.paint s!"{file}:{n}"
  let number := Text.alignRight 4 (toString n)
  let margin := Style.frame.paint s!"{number} |"
  let bar := "      " ++ Style.frame.paint "|"
  [s!"     {arrow} {place}", bar, s!" {margin} {content}", bar]

end Report

/-- The report of an error in a source with the given lines. -/
def AssemblyError.report (e : AssemblyError) (file : String) (lines : List String) :
    List String :=
  Report.failure e.message (e.cause.map IoError.message) ++
    (match e.line? with
      | none => []
      | some n => Report.snippet file lines n) ++
    match e with
      | duplicateSymbol _ _ first =>
        Report.remark "first defined here" :: Report.snippet file lines first
      | _ => []

end Stackwright
