import Stackwright.Proofs.Saving
import Stackwright.Tool.Plan

/-!
# Work and what comes of it

Work prints lines, reads and writes files, and fails or gives a result. What is printed makes no
difference to the rest, so it is left aside here: `Yields` says what work gives and which files it
leaves, and `Achieves` says what is true afterwards if it succeeds. Both are put together along the
sequence of the work, and the second also passes over all the places where the work may fail.
-/

namespace Stackwright.Plan

/-- Work on these files gives this result and leaves those files, whatever was printed before. -/
def Yields {α : Type} (work : Work α) (files : FileTree) (result : Except PlanError α)
    (files' : FileTree) : Prop :=
  ∀ shell : Shell, shell.files = files → ∃ printed, work shell = (result, ⟨files', printed⟩)

/-- Work on these files comes to an end that does not depend on what was printed before, and if it
succeeds, then its result and the files that it leaves are as they should be. -/
def Achieves {α : Type} (work : Work α) (files : FileTree) (goal : α → FileTree → Prop) : Prop :=
  ∃ result files', Yields work files result files' ∧ ∀ a, result = .ok a → goal a files'

variable {α β : Type} {work : Work α} {next : α → Work β} {files files' files'' : FileTree}
  {a : α} {e : PlanError}

/-! ## What work yields -/

theorem yields_pure (a : α) (files : FileTree) : Yields (pure a) files (.ok a) files := by
  rintro ⟨_, printed⟩ rfl
  exact ⟨printed, rfl⟩

theorem yields_throw (e : PlanError) (files : FileTree) :
    Yields (throw e : Work α) files (.error e) files := by
  rintro ⟨_, printed⟩ rfl
  exact ⟨printed, rfl⟩

theorem yields_say (line : String) (files : FileTree) :
    Yields (liftM (Job.say line)) files (.ok ()) files := by
  rintro ⟨_, printed⟩ rfl
  exact ⟨_, rfl⟩

theorem yields_sayAll (lines : List String) (files : FileTree) :
    Yields (liftM (Job.sayAll lines)) files (.ok ()) files := by
  rintro ⟨_, printed⟩ rfl
  exact ⟨_, rfl⟩

theorem yields_files (files : FileTree) : Yields (liftM Job.files) files (.ok files) files := by
  rintro ⟨_, printed⟩ rfl
  exact ⟨printed, rfl⟩

theorem yields_save (path text : String) (files : FileTree) :
    Yields (liftM (Job.save path text)) files (.ok (saveText files path text).1)
      (saveText files path text).2 := by
  rintro ⟨_, printed⟩ rfl
  exact ⟨printed, rfl⟩

namespace Yields

variable {result : Except PlanError β}

theorem eq {work : Work β} (h : Yields work files result files') {shell : Shell}
    (here : shell.files = files) : (work shell).1 = result ∧ (work shell).2.files = files' := by
  obtain ⟨printed, gives⟩ := h shell here
  rw [gives]
  exact ⟨rfl, rfl⟩

theorem bind (first : Yields work files (.ok a) files')
    (second : Yields (next a) files' result files'') :
    Yields (work >>= next) files result files'' := by
  intro shell here
  obtain ⟨between, gives⟩ := first shell here
  obtain ⟨printed, goesOn⟩ := second ⟨files', between⟩ rfl
  refine ⟨printed, ?_⟩
  change (match work shell with | (r, s) => ExceptT.bindCont next r s) = _
  rw [gives]
  exact goesOn

theorem bind_error (first : Yields work files (.error e) files') :
    Yields (work >>= next) files (.error e) files' := by
  intro shell here
  obtain ⟨between, gives⟩ := first shell here
  refine ⟨between, ?_⟩
  change (match work shell with | (r, s) => ExceptT.bindCont next r s) = _
  rw [gives]
  rfl

theorem map {result : Except PlanError α} (f : α → β) (h : Yields work files result files') :
    Yields (f <$> work) files (result.map f) files' := by
  rw [map_eq_pure_bind]
  cases result with
  | ok a => exact h.bind (yields_pure (f a) files')
  | error e => exact h.bind_error

/-- Work that may be left out. -/
theorem if_bind {work : Work Unit} {next : Unit → Work β} {wanted : Bool}
    (h : Yields ((if wanted then work else pure ()) >>= next) files result files') :
    Yields (if wanted then work >>= next else next ()) files result files' := by
  cases wanted with
  | false => exact h
  | true => exact h

end Yields

/-! ## What work achieves -/

section Achieves

variable {goal : α → FileTree → Prop} {goal' : β → FileTree → Prop}

theorem Yields.achieves (h : Yields work files (.ok a) files') (reached : goal a files') :
    Achieves work files goal := by
  refine ⟨_, _, h, ?_⟩
  rintro _ ⟨⟩
  exact reached

theorem Yields.achieves_of_error (h : Yields work files (.error e) files') :
    Achieves work files goal := by
  refine ⟨_, _, h, ?_⟩
  rintro _ ⟨⟩

/-- Work that does not fail comes first. -/
theorem Yields.then (first : Yields work files (.ok a) files')
    (second : Achieves (next a) files' goal') : Achieves (work >>= next) files goal' := by
  obtain ⟨result, last, yields, reached⟩ := second
  exact ⟨result, last, first.bind yields, reached⟩

namespace Achieves

/-- What was to be reached is reached if the work succeeded in this shell. -/
theorem of_eq_ok (h : Achieves work files goal) {shell : Shell} (here : shell.files = files)
    (done : (work shell).1 = .ok a) : goal a (work shell).2.files := by
  obtain ⟨result, files', yields, reached⟩ := h
  obtain ⟨same, left⟩ := yields.eq here
  rw [left]
  exact reached a (same.symm.trans done)

theorem imp {goal' : α → FileTree → Prop} (h : Achieves work files goal)
    (weaker : ∀ a files', goal a files' → goal' a files') : Achieves work files goal' := by
  obtain ⟨result, files', yields, reached⟩ := h
  exact ⟨result, files', yields, fun a done => weaker a files' (reached a done)⟩

/-- Work goes on only where it has not failed. -/
theorem bind (first : Achieves work files goal)
    (second : ∀ a files', goal a files' → Achieves (next a) files' goal') :
    Achieves (work >>= next) files goal' := by
  obtain ⟨result, files', yields, reached⟩ := first
  cases result with
  | error e => exact yields.bind_error.achieves_of_error
  | ok a => exact yields.then (second a files' (reached a rfl))

/-- Work that may be left out. -/
theorem if_bind {work : Work Unit} {next : Unit → Work β} {wanted : Bool}
    (h : Achieves ((if wanted then work else pure ()) >>= next) files goal') :
    Achieves (if wanted then work >>= next else next ()) files goal' := by
  obtain ⟨result, files', yields, reached⟩ := h
  exact ⟨result, files', yields.if_bind, reached⟩

end Achieves

end Achieves

/-- A result that was written is in its file. -/
theorem achieves_saveResult (path text : String) (files : FileTree) :
    Achieves (saveResult path text) files fun _ files' =>
      files'.read path = .ok (.ofText text) ∧
        ∃ place, files.locate path = .ok place ∧ files.DiffersAt place files' := by
  unfold saveResult
  refine (yields_say _ files).then ((yields_save path text files).then ?_)
  cases outcome : (saveText files path text).1 with
  | error e => exact (yields_throw _ _).achieves_of_error
  | ok u => exact (yields_pure _ _).achieves (saveText_eq_ok (Prod.ext outcome rfl))

end Stackwright.Plan
