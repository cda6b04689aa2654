import Stackwright.CommandLine
import Stackwright.Machine.Loading
import Stackwright.Machine.Size
import Stackwright.Observer.Console
import Stackwright.Observer.Watch
import Stackwright.Report
import Stackwright.Shell

/-!
# The emulator

The command-line tool that runs one program image. It shows what the program writes
out, watches addresses on demand, and tells in the end how the run went.
-/

namespace Stackwright

open Text (Style)

/-- What the emulator is asked to do. -/
structure EmulatorArguments where
  /-- the size of memory -/
  memory : Nat
  /-- the greatest number of instructions -/
  maxSteps : Option Nat
  /-- the file with addresses to watch -/
  watchFile : Option String
  /-- whether to watch all addresses -/
  watchAll : Bool
  /-- whether to set output off from other text -/
  styled : Bool
  /-- the file to copy output to -/
  copyFile : Option String
  /-- the image file -/
  input : String
  deriving DecidableEq, Repr

/-- How a console with the given style, and possibly a file to copy output to, begins.
The file is created at once. -/
def Console.open (styled : Bool) (copyFile : Option String) (files : FileTree) :
    Except IoError (Console × FileTree) :=
  match copyFile with
  | none => .ok (⟨styled, 0, none⟩, files)
  | some path =>
    match files.create path with
    | .error e => .error e
    | .ok (_, files) => .ok (⟨styled, 0, some Sink.accepting⟩, files)

/-- The files once a console has been closed: what it copied is in its file, as far
as the file has room. -/
def Console.close (console : Console) (copyFile : Option String) (files : FileTree) :
    FileTree :=
  match console.copy, copyFile with
  | some sink, some path =>
    match files.locate path with
    | .error _ => files
    | .ok place =>
      match files.fill place sink.text.toUTF8 with
      | .error _ => files
      | .ok files => files
  | _, _ => files

/-- The report of a machine's error. -/
def MachineError.report (e : MachineError) : List String := Report.failure e.message e.cause

/-- The words of a stack as they are shown: in brackets, with commas. -/
def stackText (words : List Word) : String :=
  "[" ++ ", ".intercalate (words.map Word.text) ++ "]"

/-- The summary of a run that halted. -/
def Machine.summary (m : Machine) : String :=
  let halted := Style.success.paint "Halted"
  let stack := stackText m.stack
  s!"{halted} after {m.steps} step(s), stack: {stack}"

namespace Emulator

/-- Whether a text is a number of instructions. -/
def isCount (text : String) : Bool := (Text.unsigned? greatestCount text.toList).isSome

/-- Whether a text is a memory size. -/
def isMemorySize (text : String) : Bool := (readMemorySize text).toOption.isSome

/-- The memory size that was given, or the usual one. -/
def memorySize (given : Given) : Nat :=
  ((given.value? "memory").bind fun text => (readMemorySize text).toOption).getD
    defaultCapacity

/-- The command line. -/
def grammar : CommandGrammar where
  options :=
    [⟨"memory", some 'm', .value isMemorySize⟩, ⟨"tmax", some 't', .value isCount⟩,
      ⟨"dump-cfg", some 'd', .value CommandGrammar.anyText⟩, ⟨"dump-all", some 'a', .flag⟩,
      ⟨"style", some 's', .flag⟩, ⟨"write", some 'w', .value CommandGrammar.anyText⟩,
      CommandGrammar.helpOption, ⟨"version", some 'V', .version⟩]
  positionals := [("input", CommandGrammar.anyText)]

/-- The answer to a request for help. -/
def helpText : List String :=
  ["Stack machine for Footnote images",
    "",
    "Usage: ftemu [OPTIONS] [INPUT_FILE]",
    "",
    "Arguments:",
    "  [INPUT_FILE]  [default: main.i]",
    "",
    "Options:",
    "  -m, --memory <MEMORY>      Memory size in words [default: 256]",
    "  -t, --tmax <TMAX>          Stop with a fault after this many instructions",
    "  -d, --dump-cfg <DUMP_CFG>  ",
    "  -a, --dump-all             ",
    "  -s, --style                Highlight program output",
    "  -w, --write <WRITE>        Also write program output to this file",
    "  -h, --help                 Print help",
    "  -V, --version              Print version"]

/-- The answer to a request for the version. -/
def versionText : String := "Footnote Emulator v0.1.0"

/-- The meaning of a command line. -/
def arguments (given : Given) : EmulatorArguments where
  memory := memorySize given
  maxSteps := (given.value? "tmax").bind fun text => Text.unsigned? greatestCount text.toList
  watchFile := given.value? "dump-cfg"
  watchAll := given.has "dump-all"
  styled := given.has "style"
  copyFile := given.value? "write"
  input := (given.value? "input").getD "main.i"

/-- The head of the output: the name of the image in a box. -/
def banner (input : String) : List String :=
  let rule := "+" ++ Text.repeated 47 '-' ++ "+"
  ["Footnote Emulator", rule, "| " ++ Text.alignLeft 45 input ++ " |", rule]

/-- The line between the output of the program and the end. -/
def closingRule : String := Text.repeated 49 '='

/-- Report an error of the machine and give up. -/
def giveUp (e : MachineError) : Job ExitCode := do
  Job.sayAll e.report
  return .failure

/-- Run a machine that is loaded, watched by a watch and then a console. -/
def observe (args : EmulatorArguments) (m : Machine) (watch : Watch) (console : Console) :
    Job ExitCode := do
  let observers : List (Watch ⊕ Console) := [.inl watch, .inr console]
  let run := m.runObserved (Machine.ampleFuel args.maxSteps) observers
  Job.sayAll run.printed.toList
  for observer in run.observer do
    match observer with
    | .inl _ => pure ()
    | .inr console => Job.setFiles (console.close args.copyFile (← Job.files))
  Job.say closingRule
  match run.ending with
  | .halted =>
    Job.say run.machine.summary
    return .success
  | .failed e => giveUp e
  | .brokenOff => return .failure

/-- Set up what watches the run of a loaded machine, and run it. -/
def start (args : EmulatorArguments) (m : Machine) : Job ExitCode := do
  Job.say "[INIT]"
  match Watch.ofFile (← Job.files) args.watchFile args.watchAll with
  | .error e =>
    Job.say (Report.headline e.message)
    return .failure
  | .ok watch =>
    match Console.open args.styled args.copyFile (← Job.files) with
    | .error e =>
      let path := args.copyFile.getD ""
      Job.say (Report.headline s!"Failed to create file: {path} ({e.message})")
      return .failure
    | .ok (console, files) =>
      Job.setFiles files
      observe args m watch console

/-- Run an image file. -/
def emulate (args : EmulatorArguments) : Job ExitCode := do
  Job.sayAll (banner args.input)
  match Machine.new ⟨args.memory, args.maxSteps⟩ with
  | .error e => giveUp e
  | .ok m =>
    Job.say s!" * Memory {m.capacity} word(s)"
    match Machine.loadFile (← Job.files) args.input m with
    | .error e _ => giveUp e
    | .ok () m => start args m

/-- The files that a command line may look at or change. -/
def paths (commandLine : List String) : List String :=
  match grammar.read commandLine with
  | .given given =>
    let args := arguments given
    args.input :: args.watchFile.toList ++ args.copyFile.toList
  | _ => []

/-- Do what a command line asks for. -/
def main (commandLine : List String) : Job ExitCode :=
  match grammar.read commandLine with
  | .refused => return .misuse
  | .help => do
    Job.sayAll helpText
    return .success
  | .version => do
    Job.say versionText
    return .success
  | .given given => emulate (arguments given)

end Emulator

end Stackwright
