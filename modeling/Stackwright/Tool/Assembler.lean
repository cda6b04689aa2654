import Stackwright.CommandLine
import Stackwright.Listing
import Stackwright.Report
import Stackwright.Shell

/-!
# The assembler

The command-line tool that assembles one source file. It writes the image, and on
demand the symbol table, the line map and a listing on the screen. If an image
cannot be written it stops there; if one of the other files cannot be written it goes
on, and tells so at the end.
-/

namespace Stackwright

open Text (Style)

/-- What the assembler is asked to do. -/
structure AssemblerArguments where
  /-- the source file -/
  input : String
  /-- the image file, if it was chosen -/
  output : Option String
  /-- whether to write the symbol table -/
  symbols : Bool
  /-- whether to write the line map -/
  lineMap : Bool
  /-- whether to print a listing -/
  listing : Bool
  deriving DecidableEq, Repr

namespace Assembler

/-- The command line. -/
def grammar : CommandGrammar where
  options :=
    [⟨"output", some 'o', .value CommandGrammar.anyPath⟩, ⟨"sym", none, .flag⟩,
      ⟨"lines", none, .flag⟩, ⟨"dump", some 'd', .flag⟩, CommandGrammar.helpOption,
      ⟨"version", some 'V', .version⟩]
  positionals := [("input", CommandGrammar.anyPath)]

/-- The answer to a request for help. -/
def helpText : List String :=
  ["ftasm 0.1.0",
    "  Footnote developers",
    "  Assembler for the Footnote stack machine",
    "",
    "Usage:",
    "  ftasm [OPTIONS] [INPUT]",
    "",
    "Arguments:",
    "  [INPUT]  Input file [default: main.ftnt]",
    "",
    "Options:",
    "  -o, --output <OUTPUT>  Output file [default: input with `.i` extension]",
    "      --sym              Save the symbol table to symbols.txt",
    "      --lines            Save the address to source line map to linemap.txt",
    "  -d, --dump             Dump assembly listing",
    "  -h, --help             Print help",
    "  -V, --version          Print version"]

/-- The answer to a request for the version. -/
def versionText : String := "ftasm 0.1.0"

/-- The meaning of a command line. -/
def arguments (given : Given) : AssemblerArguments where
  input := (given.value? "input").getD "main.ftnt"
  output := given.value? "output"
  symbols := given.has "sym"
  lineMap := given.has "lines"
  listing := given.has "dump"

/-- The image file: unless it was chosen, the source file with another extension. -/
def imagePath (args : AssemblerArguments) : String :=
  args.output.getD (PathName.withExtension args.input "i")

/-- Print where something goes, and write it there; give the error if that fails. -/
def saveListed (path : String) (text : String) : Job (Option AssemblyError) := do
  Job.say s!"  > {path}"
  match ← Job.save path text with
  | .error e => return some e
  | .ok () => return none

/-- Report errors that come from no line of the source. -/
def reportAll (file : String) (errors : List AssemblyError) : Job Unit :=
  Job.sayAll (errors.flatMap fun e => e.report file [])

/-- Write what is wanted besides the image, and print the listing and the summary. -/
def finish (args : AssemblerArguments) (source : Source) (assembly : Assembly) :
    Job ExitCode := do
  let first ←
    if args.symbols then saveListed symbolsFile assembly.symbols.write else pure none
  let second ←
    if args.lineMap then saveListed lineMapFile assembly.lineMap.write else pure none
  let errors := first.toList ++ second.toList
  reportAll args.input errors
  if args.listing then
    Job.sayAll (Listing.write args.input (source.linesOrNone (← Job.files)) assembly)
  let finished := Style.success.paint "Finished"
  let words := assembly.program.length
  Job.say s!"{finished} {words} word(s), {assembly.symbols.size} label(s)"
  return if errors.isEmpty then .success else .failure

/-- Assemble a source file. -/
def assemble (args : AssemblerArguments) : Job ExitCode := do
  Job.say "Footnote Assembler"
  Job.say "1. Read File and Resolve Labels"
  Job.say s!"  < {args.input}"
  let source := Source.file args.input
  let files ← Job.files
  match source.assemble files with
  | .error e =>
    Job.sayAll (e.report args.input (source.linesOrNone files))
    return .failure
  | .ok assembly =>
    Job.say "2. Generate Program"
    match ← saveListed (imagePath args) assembly.image with
    | some e =>
      reportAll args.input [e]
      return .failure
    | none => finish args source assembly

/-- The files that a command line may look at or change. -/
def paths (commandLine : List String) : List String :=
  match grammar.read commandLine with
  | .given given =>
    let args := arguments given
    [args.input, imagePath args, symbolsFile, lineMapFile]
  | _ => []

/-- Do what a command line asks for. -/
def main (commandLine : List String) : Job ExitCode :=
  match grammar.read commandLine with
  | .refused => return .misuse
  | .help => do
    Job.sayAll helpText
    return .success
  | .version => do
    Job.say versionText
    return .success
  | .given given => assemble (arguments given)

end Assembler

end Stackwright
