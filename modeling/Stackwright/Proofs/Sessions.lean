import Stackwright.Workbench

/-!
# Sessions at a workbench

A source is assembled again and again at the same workbench. In between the files change in whatever
way, and the file of the source comes and goes with them. Each call answers what a new workbench
would answer, given the files as they are then, and what the bench shows is the last answer
(`Session.never_stale`).

For this nothing has to be known about how sources are assembled, or about the ways in which that
goes wrong. It is enough that the bench is cleared before and laid out again only after.
-/

namespace Stackwright

namespace Workbench

variable {bench : Workbench} {assembly : Assembly}

/-! ## One call -/

/-- What is done at a bench rests on its source. What was on it before makes no difference. -/
theorem assemble_eq (files : FileTree) (bench : Workbench) :
    bench.assemble files =
      (bench.source.assemble files, ⟨bench.source, (bench.source.assemble files).toOption⟩) := by
  have clear : bench.assemble files =
      ((do
        let assembly ← (bench.source.assemble files : Except AssemblyError Assembly)
        keep (some assembly)
        return assembly : Work Assembly).run ⟨bench.source, none⟩) := rfl
  rw [clear]
  cases bench.source.assemble files <;> rfl

/-- All of these results are on the bench. -/
structure Shows (bench : Workbench) (assembly : Assembly) : Prop where
  assembly?_eq : bench.assembly? = some assembly
  program?_eq : bench.program? = some assembly.program
  symbols?_eq : bench.symbols? = some assembly.symbols
  lineMap?_eq : bench.lineMap? = some assembly.lineMap
  results_eq : bench.results = .ok assembly

/-- There is nothing on the bench. -/
structure IsClear (bench : Workbench) : Prop where
  assembly?_eq : bench.assembly? = none
  program?_eq : bench.program? = none
  symbols?_eq : bench.symbols? = none
  lineMap?_eq : bench.lineMap? = none
  results_eq : bench.results = .error .notAssembled

/-- The bench shows this answer, if there was one that gave results, and else nothing. -/
def Reflects (bench : Workbench) : Option (Except AssemblyError Assembly) → Prop
  | some (.ok assembly) => bench.Shows assembly
  | some (.error _) | none => bench.IsClear

theorem shows_of_assembly? (h : bench.assembly? = some assembly) : bench.Shows assembly where
  assembly?_eq := h
  program?_eq := congrArg (Option.map _) h
  symbols?_eq := congrArg (Option.map _) h
  lineMap?_eq := congrArg (Option.map _) h
  results_eq := by rw [results, h]

theorem isClear_of_assembly? (h : bench.assembly? = none) : bench.IsClear where
  assembly?_eq := h
  program?_eq := congrArg (Option.map _) h
  symbols?_eq := congrArg (Option.map _) h
  lineMap?_eq := congrArg (Option.map _) h
  results_eq := by rw [results, h]

/-- A call leaves its answer on the bench. -/
theorem reflects_assemble (files : FileTree) (bench : Workbench) :
    (bench.assemble files).2.Reflects (some (bench.assemble files).1) := by
  rw [assemble_eq]
  cases bench.source.assemble files with
  | error e => exact isClear_of_assembly? rfl
  | ok assembly => exact shows_of_assembly? rfl

/-- A call answers as if it were the first one. -/
theorem assemble_fst_eq_fresh (files : FileTree) (bench : Workbench) :
    (bench.assemble files).1 = ((ofSource bench.source).assemble files).1 := by
  rw [assemble_eq, assemble_eq]
  rfl

end Workbench

/-! ## Many calls -/

/-- A workbench that is in use. -/
structure Session where
  /-- the files as they are now -/
  files : FileTree
  /-- the bench as it is now -/
  bench : Workbench
  /-- what the calls have answered so far, in order -/
  answers : List (Except AssemblyError Assembly)

namespace Session

/-- What can happen in a session. -/
inductive Act where
  /-- the files change, to be these from now on -/
  | change (files : FileTree)
  /-- the source is assembled -/
  | assemble

/-- The beginning of a session. -/
def start (files : FileTree) (source : Source) : Session := ⟨files, .ofSource source, []⟩

/-- Go on with a session. -/
def perform (session : Session) : Act → Session
  | .change files => { session with files }
  | .assemble =>
    let (answer, bench) := session.bench.assemble session.files
    { session with bench, answers := session.answers ++ [answer] }

/-- Go on with a session for some time. -/
def run (session : Session) (acts : List Act) : Session := acts.foldl perform session

/-- What new workbenches answer, each of them for a single call. -/
def freshAnswers (source : Source) (files : FileTree) :
    List Act → List (Except AssemblyError Assembly)
  | [] => []
  | .change files :: acts => freshAnswers source files acts
  | .assemble :: acts =>
    ((Workbench.ofSource source).assemble files).1 :: freshAnswers source files acts

/-- The bench is one for the source, and it shows the last answer. -/
structure IsHonest (source : Source) (session : Session) : Prop where
  source_eq : session.bench.source = source
  reflects : session.bench.Reflects session.answers.getLast?

variable {source : Source} {session : Session}

theorem isHonest_start (files : FileTree) (source : Source) :
    IsHonest source (start files source) where
  source_eq := rfl
  reflects := Workbench.isClear_of_assembly? rfl

theorem IsHonest.perform (h : IsHonest source session) (act : Act) :
    IsHonest source (session.perform act) := by
  cases act with
  | change files => exact ⟨h.source_eq, h.reflects⟩
  | assemble =>
    refine ⟨?source, ?reflects⟩
    case source =>
      change (session.bench.assemble session.files).2.source = source
      rw [Workbench.assemble_eq]
      exact h.source_eq
    case reflects =>
      change (session.bench.assemble session.files).2.Reflects (session.answers ++ [_]).getLast?
      rw [List.getLast?_concat]
      exact Workbench.reflects_assemble session.files session.bench

theorem IsHonest.run (h : IsHonest source session) (acts : List Act) :
    IsHonest source (session.run acts) := by
  induction acts generalizing session with
  | nil => exact h
  | cons act acts ih => exact ih (h.perform act)

/-- The answers are those of new workbenches, whatever was on the bench before. -/
theorem IsHonest.answers_run (h : IsHonest source session) (acts : List Act) :
    (session.run acts).answers = session.answers ++ freshAnswers source session.files acts := by
  induction acts generalizing session with
  | nil => exact (List.append_nil _).symm
  | cons act acts ih =>
    change ((session.perform act).run acts).answers = _
    rw [ih (h.perform act)]
    cases act with
    | change files => rfl
    | assemble =>
      have answer := Workbench.assemble_fst_eq_fresh session.files session.bench
      rw [h.source_eq] at answer
      rw [freshAnswers, ← answer, ← List.singleton_append, ← List.append_assoc]
      rfl

/-- **Nothing stale is ever shown.** In a session of whatever acts each call answers what a new
workbench would answer at that time, and the bench shows the last answer. -/
theorem never_stale (files : FileTree) (source : Source) (acts : List Act) :
    ((start files source).run acts).answers = freshAnswers source files acts ∧
      ((start files source).run acts).bench.Reflects
        ((start files source).run acts).answers.getLast? :=
  have honest := isHonest_start files source
  ⟨honest.answers_run acts, (honest.run acts).reflects⟩

/-- A source that is good at first, then lacks a label in the second pass, and then is gone. -/
def waning : Session :=
  let holding (text : String) : FileTree := ⟨[(["prog"], .file text.toUTF8)], []⟩
  (start (holding "top: jmp top\n") (.file "prog")).run
    [.assemble, .change (holding "jmp top\n"), .assemble, .change ⟨[], []⟩, .assemble]

example : waning.bench = ⟨.file "prog", none⟩ ∧
    waning.answers = [.ok ⟨[14, 0], ⟨[("top", ⟨0, 1⟩)]⟩, ⟨[(0, 1)]⟩⟩,
      .error (.undefinedSymbol "top" 1), .error (.fileOpen "prog" .notFound)] :=
  ⟨rfl, rfl⟩

end Session

end Stackwright
