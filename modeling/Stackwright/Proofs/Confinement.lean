import Mathlib.Data.Set.Defs
import Stackwright.Proofs.Carrying

/-!
# What plans may change

A plan writes an image and listings, and only if the source could be assembled. Whatever comes of it
and wherever it stops, all other files stay as they are, the source among them
(`carryOut_confined`).

Files change one by one, so this is an invariant of the work (`Maintains`): from step to step, what
was there at the beginning differs only at the places that may be written to. The source is none of
them since its name ends otherwise, whatever names were asked for.
-/

namespace Stackwright

/-! ## Changes at some places -/

namespace FileTree

variable {places : Set Place} {before between after : FileTree}

/-- Nothing has changed but what stands at these places, and all paths lead where they led. -/
structure DiffersWithin (places : Set Place) (before after : FileTree) : Prop where
  /-- paths lead to the same places -/
  alike : before.LeadsAlike after
  /-- the same stands everywhere else -/
  node?_eq : ∀ place ∉ places, after.node? place = before.node? place

namespace DiffersWithin

theorem refl (places : Set Place) (tree : FileTree) : DiffersWithin places tree tree :=
  ⟨fun _ _ => .rfl, fun _ _ => rfl⟩

theorem trans (first : DiffersWithin places before between)
    (second : DiffersWithin places between after) : DiffersWithin places before after where
  alike path place := (second.alike path place).trans (first.alike path place)
  node?_eq place outside :=
    (second.node?_eq place outside).trans (first.node?_eq place outside)

/-- Saving to a path that leads to one of the places changes nothing elsewhere. -/
theorem save {path : String} (h : ∀ place, before.locate path = .ok place → place ∈ places)
    (text : String) : DiffersWithin places before (saveText before path text).2 := by
  rcases saveText_differsAt before path text with same | ⟨place, located, differs⟩
  · rw [same]
    exact .refl places before
  · refine ⟨differs.leadsAlike, fun other outside => differs.node?_eq other ?_⟩
    rintro rfl
    exact outside (h other located)

end DiffersWithin

end FileTree

namespace Plan

open FileTree

/-! ## Invariants of work -/

/-- Work on files as they should be leaves them as they should be, whether it fails or not. -/
def Maintains {α : Type} (inv : FileTree → Prop) (work : Work α) : Prop :=
  ∀ files, inv files → ∃ result files', Yields work files result files' ∧ inv files'

namespace Maintains

variable {α β : Type} {inv : FileTree → Prop} {work : Work α} {next : α → Work β}

/-- Work that leaves all files alone. -/
theorem of_yields (h : ∀ files, ∃ result, Yields work files result files) :
    Maintains inv work := by
  intro files here
  obtain ⟨result, yields⟩ := h files
  exact ⟨result, files, yields, here⟩

theorem pure (a : α) : Maintains inv (Pure.pure a : Work α) :=
  .of_yields fun files => ⟨_, yields_pure a files⟩

theorem throw (e : PlanError) : Maintains inv (MonadExcept.throw e : Work α) :=
  .of_yields fun files => ⟨_, yields_throw e files⟩

theorem say (line : String) : Maintains inv (liftM (Job.say line)) :=
  .of_yields fun files => ⟨_, yields_say line files⟩

theorem bind (first : Maintains inv work) (second : ∀ a, Maintains inv (next a)) :
    Maintains inv (work >>= next) := by
  intro files here
  obtain ⟨result, files', yields, left⟩ := first files here
  cases result with
  | error e => exact ⟨_, files', yields.bind_error, left⟩
  | ok a =>
    obtain ⟨result', files'', yields', left'⟩ := second a files' left
    exact ⟨result', files'', yields.bind yields', left'⟩

theorem map (f : α → β) (h : Maintains inv work) : Maintains inv (f <$> work) := by
  rw [map_eq_pure_bind]
  exact h.bind fun a => .pure (f a)

/-- The files that work looks at are as they should be. -/
theorem files_bind {next : FileTree → Work β}
    (h : ∀ files, inv files → Maintains inv (next files)) :
    Maintains inv (liftM Job.files >>= next) := by
  intro files here
  obtain ⟨result, files', yields, left⟩ := h files here files here
  exact ⟨result, files', (yields_files files).bind yields, left⟩

/-- Work that may be left out. -/
theorem if_bind {work : Work Unit} {next : Unit → Work β} {wanted : Bool}
    (first : wanted → Maintains inv work) (second : ∀ u, Maintains inv (next u)) :
    Maintains inv (if wanted then work >>= next else next ()) := by
  cases wanted with
  | false => exact second ()
  | true => exact (first rfl).bind second

theorem saveResult {path text : String}
    (h : ∀ files, inv files → inv (saveText files path text).2) :
    Maintains inv (Plan.saveResult path text) := by
  have saves : Maintains inv (liftM (Job.save path text)) := fun files here =>
    ⟨_, _, yields_save path text files, h files here⟩
  unfold Plan.saveResult
  refine (say _).bind fun _ => saves.bind fun result => ?_
  cases result with
  | error e => exact .throw _
  | ok u => exact .pure _

/-- The files are as they should be after the work in a shell. -/
theorem files (h : Maintains inv work) (shell : Shell) (here : inv shell.files) :
    inv (work shell).2.files := by
  obtain ⟨result, files', yields, left⟩ := h shell.files here
  rw [(yields.eq rfl).2]
  exact left

end Maintains

/-! ## Carrying out plans -/

section Plans

variable {σ : Type} [Observer σ] {inv : FileTree → Prop} {plan : Plan} {files : FileTree}

/-- A plan in its steps, each of which may be left out. -/
theorem carryOut_eq (plan : Plan) (fuel : Nat) (observer : σ) :
    plan.carryOut fuel observer =
      (if plan.ignoresFiles then
          liftM (Job.say (Report.remark "--sym and --lines can only be used during assembly"))
        else pure ()) >>= fun _ =>
      (if plan.mode.assembles then some <$> plan.assemble else pure none) >>= fun assembly? =>
      (if plan.mode.runs then some <$> plan.run fuel assembly? observer else pure none) >>=
        fun machine? => pure ⟨assembly?, machine?⟩ := by
  unfold carryOut
  cases plan.ignoresFiles <;> cases plan.mode <;> rfl

/-- A plan leaves files as they should be if assembling does. -/
theorem maintains_carryOut (fuel : Nat) (observer : σ)
    (h : plan.mode.assembles → Maintains inv plan.assemble) :
    Maintains inv (plan.carryOut fuel observer) := by
  rw [carryOut_eq]
  refine Maintains.bind ?remark fun _ => Maintains.bind ?assemble fun assembly? =>
    Maintains.bind ?run fun machine? => .pure _
  case remark =>
    split
    · exact .say _
    · exact .pure ()
  case assemble =>
    split
    · next assembles => exact (h assembles).map some
    · exact .pure none
  case run =>
    split
    · have runs : Maintains inv (plan.run fuel assembly? observer) :=
        .of_yields fun files => ⟨_, yields_run plan fuel assembly? observer files⟩
      exact runs.map some
    · exact .pure none

/-- Nothing is written for a source that does not assemble. -/
theorem maintains_assemble_of_error {e : AssemblyError}
    (bad : (Source.file plan.source).assemble files = .error e) :
    Maintains (· = files) plan.assemble := by
  unfold assemble
  refine (Maintains.say _).bind fun _ => (Maintains.say _).bind fun _ => .files_bind ?_
  rintro _ rfl
  dsimp only
  rw [bad]
  exact .throw _

/-- The places that are written to when assembling. -/
def writable (plan : Plan) (files : FileTree) : Set Place :=
  {place | ∃ path ∈ plan.image :: plan.listings, files.locate path = .ok place}

theorem maintains_saveResult {path : String} (mem : path ∈ plan.image :: plan.listings)
    (text : String) :
    Maintains (files.DiffersWithin (plan.writable files)) (saveResult path text) := by
  refine .saveResult fun files' before => before.trans (.save ?_ text)
  intro place located
  exact ⟨path, mem, (before.alike path place).mp located⟩

/-- Assembling writes to these places only. -/
theorem maintains_assemble (plan : Plan) (files : FileTree) :
    Maintains (files.DiffersWithin (plan.writable files)) plan.assemble := by
  unfold assemble
  refine (Maintains.say _).bind fun _ => (Maintains.say _).bind fun _ => .files_bind ?_
  intro now _
  dsimp only
  cases (Source.file plan.source).assemble now with
  | error e => exact .throw _
  | ok assembly =>
    refine (Maintains.say _).bind fun _ =>
      (maintains_saveResult List.mem_cons_self _).bind fun _ =>
      .if_bind (fun wanted => maintains_saveResult ?_ _) fun _ =>
      .if_bind (fun wanted => maintains_saveResult ?_ _) fun _ => .pure assembly
    · simp [listings, wanted]
    · simp [listings, wanted]

/-- What was to be assembled was assembled from its source, and is in the image. -/
def Delivers (plan : Plan) (files : FileTree) (assembly? : Option Assembly) (files' : FileTree) :
    Prop :=
  plan.mode.assembles → ∃ assembly, assembly? = some assembly ∧
    (Source.file plan.source).assemble files = .ok assembly ∧
    (plan.Separate files → files'.read plan.image = .ok (.ofText assembly.image))

/-- A plan that is carried out to its end delivers, since running changes no files. -/
theorem achieves_carryOut (plan : Plan) (fuel : Nat) (observer : σ) (files : FileTree) :
    Achieves (plan.carryOut fuel observer) files fun outcome files' =>
      plan.Delivers files outcome.assembly? files' := by
  have assembled : Achieves (if plan.mode.assembles then some <$> plan.assemble else pure none)
      files (plan.Delivers files) := by
    split
    · rw [map_eq_pure_bind]
      refine (achieves_assemble_source plan files).bind fun assembly files' reached => ?_
      exact (yields_pure _ files').achieves fun _ => ⟨assembly, rfl, reached⟩
    · next no => exact (yields_pure none files).achieves fun yes => absurd yes no
  have ran : ∀ assembly? files', Achieves
      (if plan.mode.runs then some <$> plan.run fuel assembly? observer else pure none) files'
        fun _ files'' => files'' = files' := by
    intro assembly? files'
    split
    · have yields := (yields_run plan fuel assembly? observer files').map some
      exact ⟨_, _, yields, fun _ _ => rfl⟩
    · exact (yields_pure none files').achieves rfl
  rw [carryOut_eq]
  refine (yields_remark plan files).then (assembled.bind fun assembly? files' delivered => ?_)
  refine (ran assembly? files').bind ?_
  rintro machine? _ rfl
  exact (yields_pure _ _).achieves delivered

/-! ## Sources -/

/-- A name that ends as sources do is neither that of an image, nor that of a listing, nor does it
lead up. -/
theorem source_ne (stem : List Char) :
    (∀ stem' : List Char,
      String.ofList (stem ++ '.' :: sourceExtension.toList) ≠ String.ofList (stem' ++ ['.', 'i'])) ∧
    ∀ file ∈ ["..", symbolsFile, lineMapFile],
      String.ofList (stem ++ '.' :: sourceExtension.toList) ≠ file := by
  constructor
  · intro stem' same
    have last := congrArg List.getLast? (String.ofList_injective same)
    simp [sourceExtension] at last
  · have others : ∀ file ∈ ["..", symbolsFile, lineMapFile],
        ¬ '.' :: sourceExtension.toList <:+ file.toList := by decide
    rintro _ mem rfl
    apply others _ mem
    rw [String.toList_ofList]
    exact ⟨stem, rfl⟩

/-- The source of a plan that was made is nowhere where the plan writes, in whatever directory. -/
theorem source_not_writable {before : FileTree} {args : PlanArguments} {place : Place}
    (made : ofArguments before args = .ok { plan with directory := "" })
    (located : files.locate plan.source = .ok place) : place ∉ plan.writable files := by
  obtain ⟨name, source, -⟩ := exists_of_ofArguments made
  obtain ⟨stem, sourceName⟩ :=
    @PathName.lastName?_append name sourceExtension (by decide) (by decide)
  obtain ⟨stem', imageName⟩ := namesImage_of_ofArguments made
  obtain ⟨notImage, notFile⟩ := source_ne stem
  have notUp := notFile ".." (by simp)
  dsimp only at source imageName
  rw [source] at located
  rintro ⟨path, mem, located'⟩
  rcases List.mem_cons.mp mem with rfl | listing
  · exact locate_ne_of_lastName? sourceName imageName notUp (ne_of_getLast? stem' (by decide))
      (notImage stem') located located'
  · obtain ⟨file, isListing, rfl⟩ := exists_file_of_mem_listings listing
    obtain ⟨noSlash, nonempty, leadsOn, notUp', -⟩ := ordinary_of_listing file isListing
    have listingName := PathName.lastName?_inDirectory plan.directory noSlash nonempty leadsOn
    exact locate_ne_of_lastName? sourceName listingName notUp notUp'
      (notFile file (List.mem_cons_of_mem _ isListing)) located located'

end Plans

/-- **What a plan may change.** A plan that was made from arguments may be given a directory for its
listings. Then if it only runs a program it changes no file, and neither does it if its source does
not assemble. Otherwise it changes at most its image and the listings that are wanted, and never its
source, however it ends. If it is carried out to its end, then what was assembled is in the
image. -/
theorem carryOut_confined {σ : Type} [Observer σ] {files : FileTree} {args : PlanArguments}
    {plan : Plan} (made : ofArguments files args = .ok { plan with directory := "" })
    (shell : Shell) (fuel : Nat) (observer : σ) :
    let after := plan.carryOut fuel observer shell
    (plan.mode = .run → after.2.files = shell.files) ∧
      (∀ e, (Source.file plan.source).assemble shell.files = .error e →
        after.2.files = shell.files) ∧
      (∀ place ∉ plan.writable shell.files,
        after.2.files.node? place = shell.files.node? place) ∧
      (∀ path place, shell.files.locate path = .ok place → place ∉ plan.writable shell.files →
        after.2.files.read path = shell.files.read path) ∧
      after.2.files.read plan.source = shell.files.read plan.source ∧
      ∀ outcome, plan.mode.assembles → after.1 = .ok outcome →
        ∃ assembly, outcome.assembly? = some assembly ∧
          (Source.file plan.source).assemble shell.files = .ok assembly ∧
          after.2.files.read plan.image = .ok (.ofText (Image.text assembly.program)) := by
  intro after
  have unchanged (h : plan.mode.assembles → Maintains (· = shell.files) plan.assemble) :
      after.2.files = shell.files :=
    (maintains_carryOut fuel observer h).files shell rfl
  have failing : ∀ e, (Source.file plan.source).assemble shell.files = .error e →
      after.2.files = shell.files := fun e bad =>
    unchanged fun _ => maintains_assemble_of_error bad
  have within : shell.files.DiffersWithin (plan.writable shell.files) after.2.files :=
    (maintains_carryOut fuel observer fun _ => maintains_assemble plan shell.files).files shell
      (.refl _ _)
  have reads : ∀ path place, shell.files.locate path = .ok place →
      place ∉ plan.writable shell.files → after.2.files.read path = shell.files.read path :=
    fun path place located outside => within.alike.read_eq located (within.node?_eq place outside)
  refine ⟨fun onlyRuns => unchanged ?_, failing, within.node?_eq, reads, ?_, ?_⟩
  · rw [onlyRuns]
    rintro ⟨⟩
  · cases located : shell.files.locate plan.source with
    | ok place => exact reads _ place located (source_not_writable made located)
    | error e =>
      -- what leads nowhere cannot be assembled
      have none : (Source.file plan.source).assemble shell.files =
          .error (.fileOpen plan.source e) := by
        rw [Source.assemble, Source.feed, FileTree.read, FileTree.find, located]
        rfl
      rw [failing _ none]
  · intro outcome assembles done
    obtain ⟨assembly, assembled, source, written⟩ :=
      (achieves_carryOut plan fuel observer shell.files).of_eq_ok rfl done assembles
    have named := namesImage_of_ofArguments made
    exact ⟨assembly, assembled, source, written (@NamesImage.separate plan named shell.files)⟩

/-- A source with an image of something else, and a directory. -/
def shelf : Shell :=
  ⟨⟨[(["prog.ftnt"], .file "start: push -1\nhalt".toUTF8), (["prog.i"], .file "0\n".toUTF8),
    (["logs"], .directory)], []⟩, #[]⟩

/-- The image is to have the name of the source. -/
def overwriting : PlanArguments := ⟨false, true, false, 9, some "prog", some "prog.ftnt"⟩

/-- The plan that is made of this, with a directory for its listing. -/
def overwritingPlan : Plan :=
  ⟨.assembleAndRun, "prog.ftnt", "prog.ftnt.i", 9, true, false, "logs"⟩

/-- What its source is assembled to. -/
def overwritingAssembly : Assembly := ⟨[1, -1, 0], ⟨[("start", ⟨0, 1⟩)]⟩, ⟨[(0, 1), (2, 2)]⟩⟩

theorem carryOut_confined_shelf :
    ofArguments shelf.files overwriting = .ok { overwritingPlan with directory := "" } ∧
      let after := overwritingPlan.carryOut 10 () shelf
      after.1.map PlanOutcome.assembly? = .ok (some overwritingAssembly) ∧
        after.2.files.read "prog.ftnt" = shelf.files.read "prog.ftnt" ∧
        after.2.files.read "prog.i" = shelf.files.read "prog.i" ∧
        after.2.files.read "prog.ftnt.i" = .ok (.ofText "1\n-1\n0\n") := by
  have made : ofArguments shelf.files overwriting =
      .ok { overwritingPlan with directory := "" } := by
    decide +kernel
  have gives : (overwritingPlan.carryOut 10 () shelf).1.map PlanOutcome.assembly? =
      .ok (some overwritingAssembly) := by
    decide +kernel
  have outside : ["prog.i"] ∉ overwritingPlan.writable shelf.files := by
    rintro ⟨path, mem, located⟩
    revert located
    revert path
    decide +kernel
  obtain ⟨-, -, -, others, source, delivers⟩ := carryOut_confined made shelf 10 ()
  refine ⟨made, ?_⟩
  generalize overwritingPlan.carryOut 10 () shelf = after at *
  refine ⟨gives, source, others "prog.i" ["prog.i"] (by decide +kernel) outside, ?_⟩
  obtain ⟨outcome, shell⟩ := after
  cases outcome with
  | error e => cases gives
  | ok outcome =>
    obtain ⟨assembly, assembled, -, written⟩ := delivers outcome rfl rfl
    obtain rfl : assembly = overwritingAssembly :=
      Option.some.inj (assembled.symm.trans (Except.ok.inj gives))
    have text : Image.text overwritingAssembly.program = "1\n-1\n0\n" := by decide +kernel
    rw [text] at written
    exact written

end Plan

end Stackwright
