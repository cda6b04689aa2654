import Stackwright.Proofs.Carrying
import Stackwright.Proofs.Passes
import Stackwright.Proofs.Reading

/-!
# Programs that are too large

A program that is loaded at once is measured first, and if there is no room for it then its size is
reported. A program that is loaded word by word is not known until its last word has come. It is
refused at the first word for which there is no room, and what is reported is the size up to this
word.

So the run of an image tells the real size of a program that is too large, and assembling and
running it at once does not, unless it is too large by a single word (`oversize_reported`).
-/

namespace Stackwright

/-- A program has no more words than there are addresses. -/
theorem Source.length_program_le {files : FileTree} {source : Source} {assembly : Assembly}
    (assembled : source.assemble files = .ok assembly) :
    assembly.program.length ≤ Word.greatest := by
  rw [Source.assemble_eq] at assembled
  obtain ⟨tokens, -, assembles⟩ := except_bind_eq_ok_iff.mp assembled
  obtain ⟨pieces, layout⟩ := exists_layout assembles
  rw [layout.program_eq]
  exact layout.fits

namespace Plan

open Machine

/-! ## Work that writes -/

section Writing

variable {α β : Type} {work : Work α} {next : α → Work β} {files files' : FileTree} {a : α} {b : β}

/-- The work gives this result, unless there is something that it cannot write. -/
def GivesIfWritten (work : Work α) (files : FileTree) (a : α) : Prop :=
  ∃ result files', Yields work files result files' ∧
    (result = .ok a ∨ ∃ cause, result = .error (.output cause))

theorem Yields.givesIfWritten (h : Yields work files (.ok a) files') :
    GivesIfWritten work files a :=
  ⟨_, files', h, .inl rfl⟩

/-- Work that writes comes after work that does not fail. -/
theorem Yields.thenGives (first : Yields work files (.ok a) files')
    (second : GivesIfWritten (next a) files' b) : GivesIfWritten (work >>= next) files b := by
  obtain ⟨result, files'', yields, given⟩ := second
  exact ⟨result, files'', first.bind yields, given⟩

namespace GivesIfWritten

theorem bind (first : GivesIfWritten work files a)
    (second : ∀ files', GivesIfWritten (next a) files' b) :
    GivesIfWritten (work >>= next) files b := by
  obtain ⟨_, files', yields, rfl | ⟨cause, rfl⟩⟩ := first
  · exact yields.thenGives (second files')
  · exact ⟨_, files', yields.bind_error, .inr ⟨cause, rfl⟩⟩

/-- Work that may be left out. -/
theorem if_bind {work : Work Unit} {next : Unit → Work β} {wanted : Bool}
    (first : GivesIfWritten work files ())
    (second : ∀ files', GivesIfWritten (next ()) files' b) :
    GivesIfWritten (if wanted then work >>= next else next ()) files b := by
  cases wanted with
  | false => exact second files
  | true => exact first.bind second

end GivesIfWritten

theorem givesIfWritten_saveResult (path text : String) (files : FileTree) :
    GivesIfWritten (saveResult path text) files () := by
  unfold saveResult
  refine (yields_say _ files).thenGives ((yields_save path text files).thenGives ?_)
  cases (saveText files path text).1 with
  | error cause => exact ⟨_, _, yields_throw _ _, .inr ⟨cause, rfl⟩⟩
  | ok u => exact (yields_pure () _).givesIfWritten

/-- What a source is assembled to is given, unless it cannot be written. -/
theorem givesIfWritten_assemble {plan : Plan} {assembly : Assembly}
    (assembled : (Source.file plan.source).assemble files = .ok assembly) :
    GivesIfWritten plan.assemble files assembly := by
  unfold assemble
  refine (yields_say _ files).thenGives ((yields_say _ files).thenGives
    ((yields_files files).thenGives ?_))
  dsimp only
  rw [assembled]
  refine (yields_say _ files).thenGives
    ((givesIfWritten_saveResult _ _ files).bind fun files₁ => ?_)
  refine GivesIfWritten.if_bind (givesIfWritten_saveResult _ _ files₁) fun files₂ => ?_
  refine GivesIfWritten.if_bind (givesIfWritten_saveResult _ _ files₂) fun files₃ => ?_
  exact (yields_pure assembly files₃).givesIfWritten

end Writing

/-! ## Refusals -/

section Refusals

variable {σ : Type} [Observer σ] {memory : Nat} {program : List Word}

/-- A run that does not begin since there is no room for its program. -/
theorem runLoaded_of_large {load : Control Unit} {size : Nat} (addressable : memory ≤ Word.greatest)
    (refused : ∀ m, Machine.new ⟨memory, none⟩ = .ok m →
      ∃ m', load m = .error (.programTooLarge size memory) m') (fuel : Nat) (observer : σ) :
    runLoaded memory load fuel observer = .error (.machine (.programTooLarge size memory)) := by
  have new : Machine.new ⟨memory, none⟩ = .ok (fresh ⟨memory, none⟩ addressable) :=
    new_eq_ok_iff.mpr ⟨addressable, rfl⟩
  obtain ⟨m', error⟩ := refused _ new
  unfold runLoaded
  rw [new]
  dsimp only
  rw [error]

/-- At once, the size that is reported is the real one. -/
theorem runLoaded_load_of_large (addressable : memory ≤ Word.greatest)
    (large : memory < program.length) (fuel : Nat) (observer : σ) :
    runLoaded memory (load program) fuel observer =
      .error (.machine (.programTooLarge program.length memory)) := by
  refine runLoaded_of_large addressable (fun m new => ⟨m, ?_⟩) fuel observer
  have size : m.capacity = memory := capacity_of_new new
  rw [(Ledger.Exact.of_new new).load_of_large (size.symm ▸ large), size]

/-- Word by word, it is one more than there is room for. -/
theorem runLoaded_stream_of_large (addressable : memory ≤ Word.greatest)
    (large : memory < program.length) (fuel : Nat) (observer : σ) :
    runLoaded memory (stream program) fuel observer =
      .error (.machine (.programTooLarge (memory + 1) memory)) :=
  runLoaded_of_large addressable (fun _ new => stream_of_large new large) fuel observer

/-- **How large a program is said to be.** If there is no room for a program, then a run of its
image reports the real size. To assemble and run it at once reports one word more than there is
room for, whatever the size is; this run is not reached if a result cannot be written. -/
theorem oversize_reported {plan : Plan} {shell : Shell} {source : Source} {assembly : Assembly}
    (assembled : source.assemble shell.files = .ok assembly)
    (large : plan.memory < assembly.program.length) (fuel : Nat) (observer : σ) :
    (∀ stream, shell.files.read plan.image = .ok stream →
      Image.read stream.feed = .ok assembly.program →
      ({ plan with mode := .run }.carryOut fuel observer shell).1 =
        .error (.machine (.programTooLarge assembly.program.length plan.memory))) ∧
    (source = .file plan.source →
      let first := { plan with mode := .assemble }.carryOut fuel observer shell
      let second := { plan with mode := .run }.carryOut fuel observer first.2
      let atOnce := { plan with mode := .assembleAndRun }.carryOut fuel observer shell
      (∀ outcome, first.1 = .ok outcome →
        atOnce.1 = .error (.machine (.programTooLarge (plan.memory + 1) plan.memory)) ∧
        (plan.Separate shell.files → second.1 =
          .error (.machine (.programTooLarge assembly.program.length plan.memory)))) ∧
      ∀ e, first.1 = .error e → atOnce.1 = .error e ∧ ∃ cause, e = .output cause) := by
  have addressable : plan.memory ≤ Word.greatest :=
    Nat.le_of_lt (Nat.lt_of_lt_of_le large (Source.length_program_le assembled))
  have refused : ∀ files stream, files.read plan.image = .ok stream →
      Image.read stream.feed = .ok assembly.program →
      Yields ({ plan with mode := .run }.carryOut fuel observer) files
        (.error (.machine (.programTooLarge assembly.program.length plan.memory))) files := by
    intro files stream opened reads
    have run : Yields ({ plan with mode := .run }.carryOut fuel observer) files _ files :=
      yields_carryOut_run plan files
    rw [loadFile_of_read opened reads, runLoaded_load_of_large addressable large] at run
    exact run
  refine ⟨fun stream opened reads => ((refused _ _ opened reads).eq rfl).1, ?_⟩
  rintro rfl
  intro first second atOnce
  obtain ⟨_, files', yields, rfl | ⟨cause, rfl⟩⟩ := givesIfWritten_assemble assembled
  · obtain ⟨firstResult, firstFiles⟩ : first.1 = _ ∧ first.2.files = files' :=
      yields.carryOut_assemble.eq rfl
    have ran : atOnce.1 = _ ∧ atOnce.2.files = files' := yields.carryOut_assembleAndRun.eq rfl
    rw [runLoaded_stream_of_large addressable large] at ran
    refine ⟨fun outcome _ => ⟨ran.1, fun separate => ?_⟩, fun e failed => ?_⟩
    · obtain ⟨given, left⟩ : (plan.assemble shell).1 = _ ∧ (plan.assemble shell).2.files = files' :=
        yields.eq rfl
      have written := (achieves_assemble plan shell.files).of_eq_ok rfl given separate
      rw [left] at written
      have reads : Image.read (Stream.ofText assembly.image).feed = .ok assembly.program := by
        rw [Stream.feed_ofText, Assembly.image, Image.read_ofText]
      exact ((refused _ _ written reads).eq firstFiles).1
    · rw [firstResult] at failed
      cases failed
  · obtain ⟨firstResult, -⟩ : first.1 = _ ∧ first.2.files = files' :=
      yields.carryOut_assemble.eq rfl
    have failing : atOnce.1 = _ := (yields.carryOut_assembleAndRun_error.eq rfl).1
    refine ⟨fun outcome done => ?_, fun e failed => ?_⟩
    · rw [firstResult] at done
      cases done
    · rw [firstResult] at failed
      cases failed
      exact ⟨failing, cause, rfl⟩

/-- A source of seven words beside the image that was made of it. -/
def adding : Shell :=
  ⟨⟨[(["prog.ftnt"], .file "push 3\npush 4\nadd\nout\nhalt\n".toUTF8),
    (["prog.i"], .file "1\n3\n1\n4\n5\n21\n0\n".toUTF8)], []⟩, #[]⟩

/-- The plan for it, with a memory of four words. -/
def crampedPlan : Plan := ⟨.assembleAndRun, "prog.ftnt", "prog.i", 4, false, false, ""⟩

/-- What the source is assembled to. -/
def addingAssembly : Assembly :=
  ⟨[1, 3, 1, 4, 5, 21, 0], ⟨[]⟩, ⟨[(0, 1), (2, 2), (4, 3), (5, 4), (6, 5)]⟩⟩

theorem oversize_reported_adding :
    (Source.file "prog.ftnt").assemble adding.files = .ok addingAssembly ∧
      ({ crampedPlan with mode := .run }.carryOut 10 () adding).1 =
        .error (.machine (.programTooLarge 7 4)) ∧
      (crampedPlan.carryOut 10 () adding).1 = .error (.machine (.programTooLarge 5 4)) := by
  have assembled : (Source.file "prog.ftnt").assemble adding.files = .ok addingAssembly := by
    decide +kernel
  have opened : adding.files.read "prog.i" = .ok (.ofText "1\n3\n1\n4\n5\n21\n0\n") := rfl
  have written : ({ crampedPlan with mode := .assemble }.carryOut 10 () adding).1 =
      .ok ⟨some addingAssembly, none⟩ := by
    decide +kernel
  have large : crampedPlan.memory < addingAssembly.program.length := by decide
  obtain ⟨ofImage, atOnce⟩ := oversize_reported assembled large 10 ()
  exact ⟨assembled, ofImage _ opened (by decide +kernel), ((atOnce rfl).1 _ written).1⟩

/-- The size that is reported need not be the real one. -/
theorem oversize_understated : ¬ ∀ (plan : Plan) (shell : Shell) (assembly : Assembly)
    (fuel size capacity : Nat), (Source.file plan.source).assemble shell.files = .ok assembly →
      plan.memory < assembly.program.length →
      (plan.carryOut fuel () shell).1 = .error (.machine (.programTooLarge size capacity)) →
        size = assembly.program.length ∧ capacity = plan.memory := by
  intro real
  have assembled : (Source.file crampedPlan.source).assemble adding.files = .ok addingAssembly := by
    decide +kernel
  have refused : (crampedPlan.carryOut 10 () adding).1 =
      .error (.machine (.programTooLarge 5 4)) := by
    decide +kernel
  cases (real _ _ _ _ _ _ assembled (by decide) refused).1

end Refusals

end Plan

end Stackwright
