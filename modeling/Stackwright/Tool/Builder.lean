import Stackwright.Tool.Emulator
import Stackwright.Tool.Plan

/-!
# The builder

The command-line tool that assembles and runs a program in one step. It makes a plan
from its arguments, carries it out with the output of the program on the screen, and
sums up what was done.
-/

namespace Stackwright

open Text (Style)

namespace Builder

/-- The command line. -/
def grammar : CommandGrammar where
  options :=
    [⟨"version", none, .flag⟩, ⟨"sym", none, .flag⟩, ⟨"lines", none, .flag⟩,
      ⟨"memory", some 'm', .value Emulator.isMemorySize⟩, CommandGrammar.helpOption]
  positionals := [("input", CommandGrammar.anyPath), ("output", CommandGrammar.anyPath)]

/-- The answer to a request for help. -/
def helpText : List String :=
  ["footnote",
    "  Footnote developers",
    "  Assemble and run Footnote programs in one step",
    "",
    "Usage:",
    "  footnote [OPTIONS] [INFILE] [OUTFILE]",
    "",
    "Arguments:",
    "  [INFILE]   Program name, with or without the `.ftnt` / `.i` extension",
    "  [OUTFILE]  Image to write when assembling [default: <infile>.i]",
    "",
    "Options:",
    "      --version          Print a version message and quit. All other arguments are ignored",
    "      --sym              Save the symbol table to symbols.txt",
    "      --lines            Save the address to source line map to linemap.txt",
    "  -m, --memory <MEMORY>  Number of words available to the machine [default: 256]",
    "  -h, --help             Print help"]

/-- The answer to a request for the version. -/
def versionText : String := "Footnote version 0.1"

/-- The meaning of a command line. -/
def arguments (given : Given) : PlanArguments where
  version := given.has "version"
  symbols := given.has "sym"
  lineMap := given.has "lines"
  memory := Emulator.memorySize given
  input := given.value? "input"
  output := given.value? "output"

/-- The summary of what was assembled. -/
def assembled (assembly : Assembly) : String :=
  let assembled := Style.success.paint "Assembled"
  let words := assembly.program.length
  s!"{assembled} {words} word(s), {assembly.symbols.size} label(s)"

/-- Carry out a plan and sum up. -/
def build (plan : Plan) : Job ExitCode := do
  Job.say "Footnote"
  match ← (plan.carryOut (Machine.ampleFuel none) [Console.plain]).run with
  | .error e =>
    Job.sayAll e.report
    return .failure
  | .ok outcome =>
    Job.sayAll (outcome.assembly?.toList.map assembled)
    Job.sayAll (outcome.machine?.toList.map Machine.summary)
    return .success

/-- The files that a command line may look at or change. -/
def paths (commandLine : List String) : List String :=
  match grammar.read commandLine with
  | .given given => Plan.pathsOf (arguments given)
  | _ => []

/-- Do what a command line asks for. -/
def main (commandLine : List String) : Job ExitCode :=
  match grammar.read commandLine with
  | .refused => return .misuse
  | .help | .version => do
    Job.sayAll helpText
    return .success
  | .given given => do
    let args := arguments given
    if args.version then
      Job.say versionText
      return .success
    match Plan.ofArguments (← Job.files) args with
    | .error e =>
      Job.sayAll e.report
      Job.say ""
      Job.sayAll helpText
      return .failure
    | .ok plan => build plan

end Builder

end Stackwright
