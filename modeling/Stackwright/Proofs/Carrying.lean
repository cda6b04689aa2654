import Stackwright.Proofs.Deliveries
import Stackwright.Proofs.Images
import Stackwright.Proofs.Lifecycle
import Stackwright.Proofs.Work

/-!
# Carrying out plans

A program that was just assembled goes to the machine word by word, and one that was assembled
before is read from its image and loaded as a whole. It makes no difference for its run: to
assemble and run a program at once is the same as to assemble it, and to run the image then
(`assembleAndRun_agrees`).

This takes that words and images are loaded alike, that the image is read as it was written, and
that it still stands where it was written after the listings were.
-/

namespace Stackwright.Plan

open Machine

/-! ## Loading -/

section Loading

variable {config : MachineConfig} {held program : List Word} {m : Machine}

theorem stream_eq (program : List Word) :
    stream program = (load [] >>= fun _ => program.foldlM (fun _ word => loadWord word) ()) := by
  simp [stream]

/-- Words go behind those that are held as long as there is room. -/
theorem foldlM_loadWord_of_fit (fits : (held ++ program).length ≤ m.capacity) :
    program.foldlM (fun _ word => loadWord word) () (m.holding held) =
      .ok () (m.holding (held ++ program)) := by
  induction program generalizing held with
  | nil =>
    rw [List.append_nil]
    rfl
  | cons w rest ih =>
    rw [List.append_cons] at fits ⊢
    have room : held.length < m.capacity := by
      simp only [List.length_append, List.length_singleton] at fits
      omega
    have record : Ledger.Exact m ⟨m.holding held, some held⟩ := .atOnce (Nat.le_of_lt room)
    rw [List.foldlM_cons]
    exact (bind_of_ok (record.loadWord_eq (Nat.ne_of_lt room) w)).trans (ih fits)

/-- The first word for which there is no room is refused. -/
theorem foldlM_loadWord_of_large (fits : held.length ≤ m.capacity)
    (large : m.capacity < (held ++ program).length) :
    ∃ m', program.foldlM (fun _ word => loadWord word) () (m.holding held) =
      .error (.programTooLarge (m.capacity + 1) m.capacity) m' := by
  induction program generalizing held with
  | nil =>
    rw [List.append_nil] at large
    omega
  | cons w rest ih =>
    have record : Ledger.Exact m ⟨m.holding held, some held⟩ := .atOnce fits
    rw [List.foldlM_cons]
    by_cases full : held.length = m.capacity
    · exact ⟨_, bind_of_error (record.loadWord_of_full full w)⟩
    · rw [List.append_cons] at large
      have room : (held ++ [w]).length ≤ m.capacity := by
        rw [List.length_append, List.length_singleton]
        omega
      obtain ⟨m', refused⟩ := ih room large
      exact ⟨m', (bind_of_ok (record.loadWord_eq full w)).trans refused⟩

/-- A program that fits is loaded word by word as it is loaded at once. -/
theorem stream_of_fit (new : Machine.new config = .ok m)
    (fits : program.length ≤ config.capacity) :
    stream program m = .ok () (m.holding program) := by
  have start := Ledger.Exact.of_new new
  rw [← capacity_of_new new] at fits
  rw [stream_eq]
  exact (bind_of_ok (start.load_eq (Nat.zero_le _))).trans (foldlM_loadWord_of_fit fits)

/-- A program that does not fit is refused word by word as well. -/
theorem stream_of_large (new : Machine.new config = .ok m)
    (large : config.capacity < program.length) :
    ∃ m', stream program m =
      .error (.programTooLarge (config.capacity + 1) config.capacity) m' := by
  have start := Ledger.Exact.of_new new
  rw [← capacity_of_new new] at large ⊢
  obtain ⟨m', refused⟩ := @foldlM_loadWord_of_large [] program m (Nat.zero_le _) large
  refine ⟨m', ?_⟩
  rw [stream_eq]
  exact (bind_of_ok (start.load_eq (Nat.zero_le _))).trans refused

/-- To load a file that is read as a program is to load the program. -/
theorem loadFile_of_read {files : FileTree} {path : String} {stream : Stream}
    (opened : files.read path = .ok stream) (reads : Image.read stream.feed = .ok program) :
    loadFile files path = load program := by
  simp only [loadFile, opened, loadImage, reads]

/-- To load the image file of a program is to load the program. -/
theorem loadFile_eq {files : FileTree} {path : String}
    (image : files.read path = .ok (.ofText (Image.text program))) :
    loadFile files path = load program :=
  loadFile_of_read image (by rw [Stream.feed_ofText, Image.read_ofText])

end Loading

/-! ## Running -/

variable {σ : Type} [Observer σ]

/-- What a run of a program ends with that is loaded in this way. -/
def runLoaded (memory : Nat) (load : Control Unit) (fuel : Nat) (observer : σ) :
    Except PlanError Machine :=
  match Machine.new ⟨memory, none⟩ with
  | .error e => .error (.machine e)
  | .ok m =>
    match load m with
    | .error e _ => .error (.machine e)
    | .ok () m =>
      match (m.runObserved fuel observer).ending with
      | .failed e => .error (.machine e)
      | _ => .ok (m.runObserved fuel observer).machine

theorem yields_run (plan : Plan) (fuel : Nat) (assembly? : Option Assembly) (observer : σ)
    (files : FileTree) :
    Yields (plan.run fuel assembly? observer) files
      (runLoaded plan.memory (plan.loadProgram files assembly?) fuel observer) files := by
  unfold Plan.run runLoaded
  refine (yields_say _ files).bind ?_
  cases Machine.new ⟨plan.memory, none⟩ with
  | error e => exact yields_throw _ _
  | ok m =>
    refine (yields_say _ files).bind ((yields_files files).bind ?_)
    dsimp only
    cases plan.loadProgram files assembly? m with
    | error e m' => exact yields_throw _ _
    | ok u m' =>
      refine (yields_say _ files).bind ((yields_sayAll _ files).bind ?_)
      dsimp only
      cases (m'.runObserved fuel observer).ending with
      | failed e => exact yields_throw _ _
      | halted => exact yields_pure _ _
      | brokenOff => exact yields_pure _ _

/-- Two ways to carry out a plan come to the same end. What they did before may differ, and so may
the size that a program is said to have if it is too large. -/
inductive SameEnd : Except PlanError PlanOutcome → Except PlanError PlanOutcome → Prop where
  /-- both leave the same machine behind -/
  | machine {x y : PlanOutcome} {m : Machine} (left : x.machine? = some m)
    (right : y.machine? = some m) : SameEnd (.ok x) (.ok y)
  /-- both end with the same fault -/
  | fault (fault : Fault) :
    SameEnd (.error (.machine (.fault fault))) (.error (.machine (.fault fault)))
  /-- both ask for more memory than there can be -/
  | capacityTooLarge (capacity limit : Nat) :
    SameEnd (.error (.machine (.capacityTooLarge capacity limit)))
      (.error (.machine (.capacityTooLarge capacity limit)))
  /-- for both the program does not fit into the same memory -/
  | programTooLarge (size size' capacity : Nat) :
    SameEnd (.error (.machine (.programTooLarge size capacity)))
      (.error (.machine (.programTooLarge size' capacity)))

/-- It makes no difference for a run whether its program is loaded word by word or at once. -/
theorem sameEnd_runLoaded (memory : Nat) (program : List Word) (fuel : Nat) (observer : σ)
    (assembly? assembly?' : Option Assembly) :
    SameEnd
      ((runLoaded memory (stream program) fuel observer).map fun m => ⟨assembly?, some m⟩)
      ((runLoaded memory (load program) fuel observer).map fun m => ⟨assembly?', some m⟩) := by
  unfold runLoaded
  cases new : Machine.new ⟨memory, none⟩ with
  | error e =>
    unfold Machine.new at new
    split at new
    · cases new
    · cases new
      exact .capacityTooLarge _ _
  | ok m =>
    have start := Ledger.Exact.of_new new
    have size : m.capacity = memory := capacity_of_new new
    dsimp only
    by_cases fits : program.length ≤ memory
    · have loaded : (m.holding program).status = .loaded := rfl
      obtain ⟨-, fails⟩ := runObserved_outcome loaded fuel observer
      rw [stream_of_fit new fits, start.load_eq (size.symm ▸ fits)]
      dsimp only
      cases ending : ((m.holding program).runObserved fuel observer).ending with
      | failed e =>
        obtain ⟨fault, rfl, -⟩ := fails e ending
        exact .fault fault
      | halted => exact .machine rfl rfl
      | brokenOff => exact .machine rfl rfl
    · have large := Nat.lt_of_not_le fits
      obtain ⟨m', refused⟩ := stream_of_large new large
      rw [refused, start.load_of_large (size.symm ▸ large), size]
      exact .programTooLarge _ _ _

/-! ## Assembling -/

/-- The files that are written besides the image. -/
def listings (plan : Plan) : List String :=
  (if plan.symbols then [PathName.inDirectory plan.directory symbolsFile] else []) ++
    if plan.lineMap then [PathName.inDirectory plan.directory lineMapFile] else []

/-- No listing is written where the image is. -/
def Separate (plan : Plan) (files : FileTree) : Prop :=
  ∀ path ∈ plan.listings, ∀ place,
    files.locate plan.image = .ok place → files.locate path ≠ .ok place

/-- Writing a listing does not touch what stands elsewhere. -/
theorem achieves_listing (wanted : Bool) (path text : String) (files : FileTree) :
    Achieves (if wanted then saveResult path text else pure ()) files fun _ files' =>
      files.LeadsAlike files' ∧ ∀ image place, files.locate image = .ok place →
        (wanted → files.locate path ≠ .ok place) → files'.read image = files.read image := by
  cases wanted with
  | false =>
    exact (yields_pure () files).achieves ⟨fun _ _ => .rfl, fun _ _ _ _ => rfl⟩
  | true =>
    obtain ⟨result, files', yields, saved⟩ := achieves_saveResult path text files
    refine ⟨result, files', yields, fun u done => ?_⟩
    obtain ⟨-, there, located, differs⟩ := saved u done
    refine ⟨differs.leadsAlike, fun image place leads apart => differs.read_eq leads ?_⟩
    rintro rfl
    exact apart rfl located

/-- What was assembled comes from the source as it was before, and it is in the image afterwards,
unless a listing was written over it. -/
theorem achieves_assemble_source (plan : Plan) (files : FileTree) :
    Achieves plan.assemble files fun assembly files' =>
      (Source.file plan.source).assemble files = .ok assembly ∧
        (plan.Separate files → files'.read plan.image = .ok (.ofText assembly.image)) := by
  unfold assemble
  refine (yields_say _ files).then ((yields_say _ files).then ((yields_files files).then ?_))
  dsimp only
  cases assembled : (Source.file plan.source).assemble files with
  | error e => exact (yields_throw _ files).achieves_of_error
  | ok assembly =>
    refine (yields_say _ files).then ((achieves_saveResult plan.image _ files).bind ?_)
    rintro - files₁ ⟨saved, place, located, differs⟩
    refine Achieves.if_bind ((achieves_listing plan.symbols _ _ files₁).bind ?_)
    rintro - files₂ ⟨alike, keeps⟩
    refine Achieves.if_bind ((achieves_listing plan.lineMap _ _ files₂).bind ?_)
    rintro - files₃ ⟨-, keeps'⟩
    refine (yields_pure assembly files₃).achieves ⟨rfl, fun separate => ?_⟩
    -- listings lead where they led before the image was there, and that is elsewhere
    have located₁ := (differs.leadsAlike _ _).mpr located
    have located₂ := (alike _ _).mpr located₁
    rw [keeps' _ place located₂, keeps _ place located₁, saved]
    · intro wanted there
      refine separate _ ?_ place located ((differs.leadsAlike _ _).mp there)
      simp [listings, wanted]
    · intro wanted there
      refine separate _ ?_ place located ((differs.leadsAlike _ _).mp ((alike _ _).mp there))
      simp [listings, wanted]

/-- What was assembled is in the image afterwards, unless a listing was written over it. -/
theorem achieves_assemble (plan : Plan) (files : FileTree) :
    Achieves plan.assemble files fun assembly files' =>
      plan.Separate files → files'.read plan.image = .ok (.ofText assembly.image) :=
  (achieves_assemble_source plan files).imp fun _ _ reached => reached.2

/-! ## Plans that were made -/

section Made

/-- The path leads to a place that has the extension of images, if it leads anywhere. -/
def NamesImage (path : String) : Prop :=
  ∃ stem : List Char, PathName.lastName? path = some (String.ofList (stem ++ ['.', 'i']))

theorem namesImage_imageOf (name : String) : NamesImage (imageOf name) :=
  @PathName.lastName?_append name imageExtension (by decide) (by decide)

theorem namesImage_imagePath (path : String) : NamesImage (imagePath path) := by
  unfold imagePath
  split
  · next extension => exact PathName.lastName?_of_extension? extension
  · exact namesImage_imageOf path

theorem exists_file_of_mem_listings {plan : Plan} {path : String} (mem : path ∈ plan.listings) :
    ∃ file ∈ [symbolsFile, lineMapFile], path = PathName.inDirectory plan.directory file := by
  rcases List.mem_append.mp mem with symbols | lineMap
  · split at symbols
    · exact ⟨symbolsFile, by simp, List.mem_singleton.mp symbols⟩
    · cases symbols
  · split at lineMap
    · exact ⟨lineMapFile, by simp, List.mem_singleton.mp lineMap⟩
    · cases lineMap

/-- Listings have ordinary names that are not those of images. -/
theorem ordinary_of_listing : ∀ file ∈ [symbolsFile, lineMapFile],
    '/' ∉ file.toList ∧ file ≠ "" ∧ file ≠ "." ∧ file ≠ ".." ∧ file.toList.getLast? ≠ some 'i' := by
  decide

/-- Names that end otherwise are not those of images. -/
theorem ne_of_getLast? (stem : List Char) {file : String}
    (other : file.toList.getLast? ≠ some 'i') : String.ofList (stem ++ ['.', 'i']) ≠ file := by
  rintro rfl
  exact other (by simp)

/-- Where an image is written there is never a listing. -/
theorem NamesImage.separate {plan : Plan} (h : NamesImage plan.image) (files : FileTree) :
    plan.Separate files := by
  obtain ⟨stem, imageName⟩ := h
  intro path mem place image
  obtain ⟨file, isListing, rfl⟩ := exists_file_of_mem_listings mem
  obtain ⟨noSlash, nonempty, leadsOn, notUp, other⟩ := ordinary_of_listing file isListing
  have listingName := PathName.lastName?_inDirectory plan.directory noSlash nonempty leadsOn
  exact FileTree.locate_ne_of_lastName? imageName listingName (ne_of_getLast? stem (by decide))
    notUp (ne_of_getLast? stem other) image

/-- A plan is about the source of a program, and about its image or another one that is written in
its stead. -/
theorem exists_of_ofArguments {files : FileTree} {args : PlanArguments} {plan : Plan}
    (made : ofArguments files args = .ok plan) :
    ∃ name, plan.source = sourceOf name ∧
      (plan.image = imageOf name ∨ ∃ output, plan.image = imagePath output) := by
  unfold ofArguments at made
  split at made
  · cases made
  · next input _ =>
    dsimp only at made
    split at made
    · cases made
    · next mode _ =>
      cases made
      refine ⟨programName input, rfl, ?_⟩
      dsimp only
      split
      · cases args.output with
        | none => exact .inl rfl
        | some output => exact .inr ⟨output, rfl⟩
      · exact .inl rfl

theorem namesImage_of_ofArguments {files : FileTree} {args : PlanArguments} {plan : Plan}
    (made : ofArguments files args = .ok plan) : NamesImage plan.image := by
  obtain ⟨name, -, image | ⟨output, image⟩⟩ := exists_of_ofArguments made
  · rw [image]
    exact namesImage_imageOf name
  · rw [image]
    exact namesImage_imagePath output

end Made

/-! ## Both together -/

section Modes

variable {plan : Plan} {files files' : FileTree} {fuel : Nat} {observer : σ}

theorem yields_remark (plan : Plan) (files : FileTree) :
    Yields (if plan.ignoresFiles then
        liftM (Job.say (Report.remark "--sym and --lines can only be used during assembly"))
      else pure ()) files (.ok ()) files := by
  split
  · exact yields_say _ files
  · exact yields_pure _ files

theorem Yields.carryOut_assemble {result : Except PlanError Assembly}
    (h : Yields plan.assemble files result files') :
    Yields ({ plan with mode := .assemble }.carryOut fuel observer) files
      (result.map fun assembly => ⟨some assembly, none⟩) files' := by
  unfold carryOut
  refine Yields.if_bind ((yields_remark _ files).bind ?_)
  cases result with
  | error e => exact (h.map some).bind_error
  | ok assembly => exact (h.map some).bind ((yields_pure none _).bind (yields_pure _ _))

/-- What is left of a plan once the run is over. -/
theorem Yields.outcome {work : Work Machine} {result : Except PlanError Machine}
    (h : Yields work files result files') (assembly? : Option Assembly) :
    Yields (some <$> work >>= fun machine? => pure (PlanOutcome.mk assembly? machine?)) files
      (result.map fun m => ⟨assembly?, some m⟩) files' := by
  cases result with
  | error e => exact (h.map some).bind_error
  | ok m => exact (h.map some).bind (yields_pure _ _)

theorem yields_carryOut_run (plan : Plan) (files : FileTree) :
    Yields ({ plan with mode := .run }.carryOut fuel observer) files
      ((runLoaded plan.memory (loadFile files plan.image) fuel observer).map fun m =>
        ⟨none, some m⟩) files := by
  have run := (yields_run { plan with mode := .run } fuel none observer files).outcome none
  unfold carryOut
  exact Yields.if_bind ((yields_remark _ files).bind ((yields_pure none files).bind run))

theorem Yields.carryOut_assembleAndRun_error {e : PlanError}
    (h : Yields plan.assemble files (.error e) files') :
    Yields ({ plan with mode := .assembleAndRun }.carryOut fuel observer) files (.error e)
      files' := by
  unfold carryOut
  exact Yields.if_bind ((yields_remark _ files).bind (h.map some).bind_error)

theorem Yields.carryOut_assembleAndRun {assembly : Assembly}
    (h : Yields plan.assemble files (.ok assembly) files') :
    Yields ({ plan with mode := .assembleAndRun }.carryOut fuel observer) files
      ((runLoaded plan.memory (stream assembly.program) fuel observer).map fun m =>
        ⟨some assembly, some m⟩) files' := by
  have run := (yields_run { plan with mode := .assembleAndRun } fuel (some assembly) observer
    files').outcome (some assembly)
  unfold carryOut
  exact Yields.if_bind ((yields_remark _ files).bind ((h.map some).bind run))

end Modes

/-- **To assemble and run at once is to assemble, and then to run the image.** The files are the
same, and so is the error if there is no image to run. Otherwise both ways come to the same end,
after any number of steps, unless a listing is written over the image; and a plan that was made
from arguments keeps them apart, wherever the listings go. -/
theorem assembleAndRun_agrees (plan : Plan) (shell : Shell) (fuel : Nat) (observer : σ) :
    let atOnce := { plan with mode := .assembleAndRun }.carryOut fuel observer shell
    let first := { plan with mode := .assemble }.carryOut fuel observer shell
    let second := { plan with mode := .run }.carryOut fuel observer first.2
    atOnce.2.files = first.2.files ∧ second.2.files = first.2.files ∧
      (∀ e, first.1 = .error e → atOnce.1 = .error e) ∧
      (∀ outcome, first.1 = .ok outcome → plan.Separate shell.files →
        SameEnd atOnce.1 second.1) ∧
      ∀ files args directory, ofArguments files args = .ok plan →
        { plan with directory }.Separate shell.files := by
  intro atOnce first second
  have apart : ∀ files args directory, ofArguments files args = .ok plan →
      { plan with directory }.Separate shell.files := by
    intro files args directory made
    have named := namesImage_of_ofArguments made
    exact @NamesImage.separate { plan with directory } named shell.files
  obtain ⟨result, files', yields, written⟩ := achieves_assemble plan shell.files
  obtain ⟨firstResult, firstFiles⟩ : first.1 = _ ∧ first.2.files = files' :=
    yields.carryOut_assemble.eq rfl
  obtain ⟨secondResult, secondFiles⟩ : second.1 = _ ∧ second.2.files = files' :=
    (yields_carryOut_run plan files').eq firstFiles
  cases result with
  | error e =>
    obtain ⟨result, files⟩ : atOnce.1 = _ ∧ atOnce.2.files = files' :=
      yields.carryOut_assembleAndRun_error.eq rfl
    refine ⟨files.trans firstFiles.symm, secondFiles.trans firstFiles.symm, ?_, ?_, apart⟩
    · intro e' failed
      rw [firstResult] at failed
      cases failed
      exact result
    · intro outcome succeeded
      rw [firstResult] at succeeded
      cases succeeded
  | ok assembly =>
    obtain ⟨result, files⟩ : atOnce.1 = _ ∧ atOnce.2.files = files' :=
      yields.carryOut_assembleAndRun.eq rfl
    refine ⟨files.trans firstFiles.symm, secondFiles.trans firstFiles.symm, ?_, ?_, apart⟩
    · intro e' failed
      rw [firstResult] at failed
      cases failed
    · intro outcome _ separate
      rw [result, secondResult, loadFile_eq (written assembly rfl separate)]
      exact sameEnd_runLoaded ..

/-- A source, and an image that was made from another one. -/
def workshop : Shell :=
  ⟨⟨[(["report.ftnt"], .file "push -3\nout\nhalt".toUTF8), (["report.i"], .file "0\n".toUTF8)],
    []⟩, #[]⟩

/-- What is wanted of them. -/
def reporting : PlanArguments := ⟨false, true, true, 5, some "report.i", none⟩

/-- The plan that is made of this. There is only one cell left for the stack. -/
def reportingPlan : Plan := ⟨.assembleAndRun, "report.ftnt", "report.i", 5, true, true, ""⟩

theorem assembleAndRun_agrees_reporting :
    ofArguments workshop.files reporting = .ok reportingPlan ∧
      SameEnd (reportingPlan.carryOut 10 () workshop).1
        ({ reportingPlan with mode := .run }.carryOut 10 ()
          ({ reportingPlan with mode := .assemble }.carryOut 10 () workshop).2).1 := by
  have made : ofArguments workshop.files reporting = .ok reportingPlan := by decide +kernel
  have assembled : ({ reportingPlan with mode := .assemble }.carryOut 10 () workshop).1 =
      .ok ⟨some ⟨[1, -3, 21, 0], ⟨[]⟩, ⟨[(0, 1), (2, 2), (3, 3)]⟩⟩, none⟩ := by
    decide +kernel
  obtain ⟨-, -, -, alike, apart⟩ := assembleAndRun_agrees reportingPlan workshop 10 ()
  exact ⟨made, alike _ assembled (apart _ _ "" made)⟩

end Stackwright.Plan
