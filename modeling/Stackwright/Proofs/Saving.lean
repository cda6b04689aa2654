import Stackwright.Proofs.Places
import Stackwright.Workbench

/-!
# Saving

What was saved to a file is read from it afterwards (`saveText_eq_ok`), and it stays there while
other files are saved (`FileTree.DiffersAt.read_eq`). Saving makes no directories and removes none,
so paths go on leading to where they led before (`FileTree.DiffersAt.leadsAlike`).
-/

namespace Stackwright

namespace FileTree

/-- What a path leads to is what stands where it leads. -/
theorem find_of_locate {tree : FileTree} {path : String} {place : Place}
    (located : tree.locate path = .ok place) :
    tree.find path =
      match tree.node? place with
      | none => .error .notFound
      | some .directory => .ok .directory
      | some node => if endsInSlash path then .error .notADirectory else .ok node := by
  rw [find, located]
  rfl

/-- Each path that leads somewhere leads to the same place as before. -/
def LeadsAlike (before after : FileTree) : Prop :=
  ∀ path place, after.locate path = .ok place ↔ before.locate path = .ok place

/-- If a path leads to the same place as before and the same stands there, then the same is read. -/
theorem LeadsAlike.read_eq {before after : FileTree} (h : before.LeadsAlike after) {path : String}
    {place : Place} (located : before.locate path = .ok place)
    (same : after.node? place = before.node? place) : after.read path = before.read path := by
  rw [read, find_of_locate ((h _ _).mpr located), same, ← find_of_locate located, read]

/-- There is a directory at the root. -/
theorem ne_nil_of_free {tree : FileTree} {place : Place}
    (free : tree.node? place ≠ some .directory) : place ≠ [] := by
  rintro rfl
  exact free rfl

/-- Nothing has changed but what stands at one place, which is no directory. -/
structure DiffersAt (place : Place) (before after : FileTree) : Prop where
  /-- the working directory is the same -/
  here_eq : after.here = before.here
  /-- the directories are the same -/
  directory_iff : ∀ other,
    after.node? other = some .directory ↔ before.node? other = some .directory
  /-- the same stands everywhere else -/
  node?_eq : ∀ other, other ≠ place → after.node? other = before.node? other

namespace DiffersAt

variable {place : Place} {before between after : FileTree}

theorem refl (place : Place) (tree : FileTree) : DiffersAt place tree tree :=
  ⟨rfl, fun _ => .rfl, fun _ _ => rfl⟩

theorem trans (first : DiffersAt place before between) (second : DiffersAt place between after) :
    DiffersAt place before after where
  here_eq := second.here_eq.trans first.here_eq
  directory_iff other := (second.directory_iff other).trans (first.directory_iff other)
  node?_eq other apart := (second.node?_eq other apart).trans (first.node?_eq other apart)

/-- A file is put where no directory is. -/
theorem put {tree : FileTree} (free : tree.node? place ≠ some .directory) (content : ByteArray) :
    DiffersAt place tree (tree.put place (.file content)) := by
  have inner := ne_nil_of_free free
  refine ⟨rfl, fun other => ?_, fun other apart => ?_⟩
  · rw [node?_put tree inner]
    split
    · next here =>
      rw [here]
      exact iff_of_false (by rintro ⟨⟩) free
    · rfl
  · rw [node?_put tree inner, if_neg apart]

theorem leadsAlike (h : DiffersAt place before after) : before.LeadsAlike after := by
  intro path there
  have walk : ∀ (steps : List String) (start : Place),
      steps.foldlM after.enter start = .ok there ↔ steps.foldlM before.enter start = .ok there := by
    intro steps
    induction steps with
    | nil => exact fun start => .rfl
    | cons step steps ih =>
      intro start
      rw [List.foldlM_cons, List.foldlM_cons, except_bind_eq_ok_iff, except_bind_eq_ok_iff]
      refine exists_congr fun next => and_congr ?_ (ih next)
      rw [enter_eq_ok_iff, enter_eq_ok_iff, h.directory_iff]
  unfold locate
  split
  · exact .rfl
  · have start : after.start path = before.start path := by
      rw [FileTree.start, FileTree.start, h.here_eq]
    rw [start]
    exact walk _ _

/-- What is read elsewhere is the same. -/
theorem read_eq (h : DiffersAt place before after) {path : String} {there : Place}
    (located : before.locate path = .ok there) (apart : there ≠ place) :
    after.read path = before.read path :=
  h.leadsAlike.read_eq located (h.node?_eq there apart)

end DiffersAt

/-- A file is created where no directory is. A device stays. -/
theorem create_eq_ok {tree created : FileTree} {path : String} {place : Place}
    (h : tree.create path = .ok (place, created)) :
    tree.locate path = .ok place ∧ endsInSlash path = false ∧
      (tree.node? place = some .fullDevice ∧ created = tree ∨
        tree.node? place ≠ some .directory ∧ created = tree.put place (.file .empty)) := by
  obtain ⟨there, located, h⟩ := except_bind_eq_ok_iff.mp h
  split at h
  · cases h
  · next noSlash =>
    split at h
    · cases h
    · next device =>
      cases h
      exact ⟨located, by simpa using noSlash, .inl ⟨device, rfl⟩⟩
    · next free _ =>
      cases h
      exact ⟨located, by simpa using noSlash, .inr ⟨free, rfl⟩⟩

/-- A device takes nothing, and anything else becomes a file. -/
theorem fill_eq_ok {tree filled : FileTree} {place : Place} {content : ByteArray}
    (h : tree.fill place content = .ok filled) :
    tree.node? place = some .fullDevice ∧ content = .empty ∧ filled = tree ∨
      tree.node? place ≠ some .fullDevice ∧ filled = tree.put place (.file content) := by
  unfold fill at h
  split at h
  · next device =>
    split at h
    · next empty =>
      cases h
      have size : content.size = 0 := eq_of_beq empty
      have none : content.data = #[] := Array.eq_empty_of_size_eq_zero size
      exact .inl ⟨device, ByteArray.ext none, rfl⟩
    · cases h
  · next noDevice =>
    cases h
    exact .inr ⟨noDevice, rfl⟩

/-- Creating a file changes only what stands where its path leads, and this is no directory. -/
theorem differsAt_of_create {tree created : FileTree} {path : String} {place : Place}
    (h : tree.create path = .ok (place, created)) :
    created.node? place ≠ some .directory ∧ DiffersAt place tree created := by
  obtain ⟨-, -, ⟨device, rfl⟩ | ⟨free, rfl⟩⟩ := create_eq_ok h
  · exact ⟨by simp [device], .refl place created⟩
  · have created := DiffersAt.put free .empty
    exact ⟨fun isDirectory => free ((created.directory_iff place).mp isDirectory), created⟩

/-- Filling a file changes only this file. -/
theorem differsAt_of_fill {tree filled : FileTree} {place : Place} {content : ByteArray}
    (free : tree.node? place ≠ some .directory) (h : tree.fill place content = .ok filled) :
    DiffersAt place tree filled := by
  rcases fill_eq_ok h with ⟨-, -, rfl⟩ | ⟨-, rfl⟩
  · exact .refl place filled
  · exact .put free content

/-- A path that does not end in a slash leads to whatever stands there. -/
theorem find_of_node {tree : FileTree} {path : String} {place : Place} {node : Node}
    (located : tree.locate path = .ok place) (noSlash : endsInSlash path = false)
    (here : tree.node? place = some node) : tree.find path = .ok node := by
  rw [find_of_locate located, here, noSlash]
  cases node <;> rfl

end FileTree

open FileTree

/-- **What was saved is there**, and nothing else has changed. -/
theorem saveText_eq_ok {files files' : FileTree} {path text : String}
    (h : saveText files path text = (.ok (), files')) :
    files'.read path = .ok (.ofText text) ∧
      ∃ place, files.locate path = .ok place ∧ DiffersAt place files files' := by
  unfold saveText at h
  split at h
  · cases h
  · next place created creates =>
    split at h
    · cases h
    · next filled fills =>
      cases h
      obtain ⟨located, noSlash, ⟨device, rfl⟩ | ⟨free, rfl⟩⟩ := create_eq_ok creates
      · rcases fill_eq_ok fills with ⟨-, empty, rfl⟩ | ⟨noDevice, -⟩
        · refine ⟨?_, place, located, .refl place files'⟩
          rw [FileTree.read, find_of_node located noSlash device, Stream.ofText, empty]
          rfl
        · exact absurd device noDevice
      · have inner := ne_nil_of_free free
        obtain ⟨noDirectory, created⟩ := differsAt_of_create creates
        have filled := created.trans (differsAt_of_fill noDirectory fills)
        refine ⟨?_, place, located, filled⟩
        rcases fill_eq_ok fills with ⟨device, -⟩ | ⟨-, rfl⟩
        · rw [node?_put files inner, if_pos rfl] at device
          cases device
        · rw [FileTree.read, find_of_node ((filled.leadsAlike _ _).mpr located) noSlash
            ((node?_put _ inner _ place).trans (if_pos rfl))]
          rfl

/-- Saving changes at most what stands where the path leads, also if it fails. -/
theorem saveText_differsAt (files : FileTree) (path text : String) :
    (saveText files path text).2 = files ∨
      ∃ place, files.locate path = .ok place ∧
        DiffersAt place files (saveText files path text).2 := by
  unfold saveText
  split
  · exact .inl rfl
  · next place created creates =>
    obtain ⟨noDirectory, differs⟩ := differsAt_of_create creates
    have located := (create_eq_ok creates).1
    split
    · exact .inr ⟨place, located, differs⟩
    · next filled fills =>
      exact .inr ⟨place, located, differs.trans (differsAt_of_fill noDirectory fills)⟩

end Stackwright
