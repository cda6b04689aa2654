import Stackwright.Machine.Loading
import Stackwright.Observer.Basic
import Stackwright.Report
import Stackwright.Shell

/-!
# Plans

A program goes by a name: `name.ftnt` is its source and `name.i` its image. What is
to be done with it follows from which of the two exist. A source is assembled, an
image is run, and if both are there the image is renewed and the fresh program is
run. A *plan* holds the decision together with the files it concerns.

Carrying out a plan prints its steps with numbers. The freshly assembled program is
loaded word by word from memory, not read back from its image.
-/

namespace Stackwright

/-- What is wanted of a program. -/
structure PlanArguments where
  /-- whether to tell the version and do nothing else -/
  version : Bool
  /-- whether to write the symbol table -/
  symbols : Bool
  /-- whether to write the line map -/
  lineMap : Bool
  /-- the size of memory -/
  memory : Nat
  /-- the program, by its name, its source or its image -/
  input : Option String
  /-- the image to write -/
  output : Option String
  deriving DecidableEq, Repr

/-- What is done with a program. -/
inductive Mode where
  /-- there is only a source -/
  | assemble
  /-- there is only an image -/
  | run
  /-- there are both -/
  | assembleAndRun
  deriving DecidableEq, Repr

/-- Whether the source is assembled. -/
def Mode.assembles : Mode → Bool
  | assemble | assembleAndRun => true
  | run => false

/-- Whether a program is run. -/
def Mode.runs : Mode → Bool
  | run | assembleAndRun => true
  | assemble => false

/-- Why a plan cannot be made, or was not carried out to its end. -/
inductive PlanError where
  /-- there is nothing to do -/
  | usage (message : String)
  /-- the source cannot be assembled; it comes with its lines as far as they are known -/
  | assemble (file : String) (lines : List String) (cause : AssemblyError)
  /-- a result cannot be written -/
  | output (cause : AssemblyError)
  /-- the program cannot be run, or not to its end -/
  | machine (cause : MachineError)
  deriving DecidableEq, Repr

namespace PlanError

/-- The wording of the error. -/
def message : PlanError → String
  | usage message => message
  | assemble file _ _ => s!"Failed to assemble {file}"
  | output cause => cause.message
  | machine cause => cause.message

/-- The report of the error. -/
def report : PlanError → List String
  | usage message => Report.failure message none
  | assemble file lines cause => cause.report file lines
  | output cause => cause.report "" []
  | machine cause => Report.failure cause.message cause.cause

end PlanError

/-- What to do with which files. -/
structure Plan where
  /-- what to do -/
  mode : Mode
  /-- the source file -/
  source : String
  /-- the image file: written when assembling, read when only running -/
  image : String
  /-- the size of memory -/
  memory : Nat
  /-- whether to write the symbol table -/
  symbols : Bool
  /-- whether to write the line map -/
  lineMap : Bool
  /-- the directory for symbol table and line map -/
  directory : String
  deriving DecidableEq, Repr

/-- What carrying out a plan gave. -/
structure PlanOutcome where
  /-- the results of assembling -/
  assembly? : Option Assembly
  /-- the machine after the run -/
  machine? : Option Machine
  deriving DecidableEq, Repr

namespace Plan

/-! ## Making a plan -/

/-- The extension of source files. -/
def sourceExtension : String := "ftnt"

/-- The extension of image files. -/
def imageExtension : String := "i"

/-- The name of the program that a path is meant for. -/
def programName (path : String) : String :=
  match PathName.extension? path with
  | some extension =>
    if extension = sourceExtension ∨ extension = imageExtension then
      PathName.withoutExtension path
    else path
  | none => path

/-- A path with an extension appended to whatever it has. -/
def appendExtension (path : String) (extension : String) : String := s!"{path}.{extension}"

/-- The source of a program, by its name. -/
def sourceOf (name : String) : String := appendExtension name sourceExtension

/-- The image of a program, by its name. -/
def imageOf (name : String) : String := appendExtension name imageExtension

/-- The image file that is meant by a path. -/
def imagePath (path : String) : String :=
  if PathName.extension? path = some imageExtension then path else imageOf path

/-- What to do, given which of source and image exist. -/
def mode? (sourceExists imageExists : Bool) : Option Mode :=
  match sourceExists, imageExists with
  | true, false => some .assemble
  | true, true => some .assembleAndRun
  | false, true => some .run
  | false, false => none

/-- Make a plan. The choice of another image counts only if one is written. -/
def ofArguments (files : FileTree) (args : PlanArguments) : Except PlanError Plan :=
  match args.input with
  | none => .error (.usage "No input file specified")
  | some input =>
    let name := programName input
    let source := sourceOf name
    let image := imageOf name
    match mode? (files.isFile source) (files.isFile image) with
    | none => .error (.usage s!"Neither {source} nor {image} exists")
    | some mode =>
      .ok {
        mode, source
        image := if mode.assembles then (args.output.map imagePath).getD image else image
        memory := args.memory
        symbols := args.symbols
        lineMap := args.lineMap
        directory := "" }

/-- The files that making and carrying out a plan may look at or change. -/
def pathsOf (args : PlanArguments) : List String :=
  match args.input with
  | none => []
  | some input =>
    let name := programName input
    [sourceOf name, imageOf name, symbolsFile, lineMapFile] ++
      (args.output.map imagePath).toList

/-- Whether files are wanted that only assembling would write. -/
def ignoresFiles (plan : Plan) : Bool :=
  (plan.symbols || plan.lineMap) && !plan.mode.assembles

/-! ## Carrying it out -/

/-- Work that can fail. What it printed and wrote before stays. -/
abbrev Work : Type → Type := ExceptT PlanError Job

/-- Print where a result goes, and write it there. -/
def saveResult (path : String) (text : String) : Work Unit := do
  Job.say s!"  > {path}"
  match ← Job.save path text with
  | .error e => throw (.output e)
  | .ok () => return

/-- Assemble the source and write the results. -/
def assemble (plan : Plan) : Work Assembly := do
  Job.say "1. Read File and Resolve Labels"
  Job.say s!"  < {plan.source}"
  let source := Source.file plan.source
  let files ← Job.files
  match source.assemble files with
  | .error e => throw (.assemble plan.source (source.linesOrNone files) e)
  | .ok assembly =>
    Job.say "2. Generate Program"
    saveResult plan.image assembly.image
    if plan.symbols then
      saveResult (PathName.inDirectory plan.directory symbolsFile) assembly.symbols.write
    if plan.lineMap then
      saveResult (PathName.inDirectory plan.directory lineMapFile) assembly.lineMap.write
    return assembly

/-- Load a program word by word into a machine. -/
def stream (program : List Word) : Control Unit := do
  Machine.load []
  for word in program do
    Machine.loadWord word

/-- Load what is to be run. -/
def loadProgram (plan : Plan) (files : FileTree) (assembly? : Option Assembly) :
    Control Unit :=
  match assembly? with
  | some assembly => stream assembly.program
  | none => Machine.loadFile files plan.image

/-- Run the program, which was just assembled or else is read from its image. A run
that uses up its fuel is left where it is. -/
def run {σ : Type} [Observer σ] (plan : Plan) (fuel : Nat) (assembly? : Option Assembly)
    (observer : σ) : Work Machine := do
  let number := if plan.mode.assembles then 3 else 1
  Job.say s!"{number}. Run"
  match Machine.new ⟨plan.memory, none⟩ with
  | .error e => throw (.machine e)
  | .ok m =>
    Job.say <|
      match assembly? with
      | some assembly => s!"  < {assembly.program.length} word(s) in memory"
      | none => s!"  < {plan.image}"
    match plan.loadProgram (← Job.files) assembly? m with
    | .error e _ => throw (.machine e)
    | .ok () m =>
      Job.say s!"  = {plan.memory} word(s) of memory"
      let run := m.runObserved fuel observer
      Job.sayAll run.printed.toList
      match run.ending with
      | .failed e => throw (.machine e)
      | _ => return run.machine

/-- Carry out a plan; the run gets the given fuel, and the observer watches it. -/
def carryOut {σ : Type} [Observer σ] (plan : Plan) (fuel : Nat) (observer : σ) :
    Work PlanOutcome := do
  if plan.ignoresFiles then
    Job.say (Report.remark "--sym and --lines can only be used during assembly")
  let assembly? ← if plan.mode.assembles then some <$> plan.assemble else pure none
  let machine? ← if plan.mode.runs then some <$> plan.run fuel assembly? observer else pure none
  return ⟨assembly?, machine?⟩

end Plan

end Stackwright
