import Stackwright.Proofs.ProgramNames
import Stackwright.Proofs.Saving

/-!
# Exchanged extensions

To exchange the extension of a path is to exchange that of its last name, in the same directory
(`PathName.toList_withExtension`). Two names in a directory lead to two places. So where a path
leads to a file, the path with another extension leads to this same file only if it is the same
path (`FileTree.withExtension_eq_of_locate`).

Which is the case if the extension was the other one already, but not always
(`PathName.withExtension_eq_self_iff`): of `..i` only `..` is left when it is exchanged.
-/

namespace Stackwright

namespace PathName

variable {directory name : List Char} {path extension : String}

/-! ## Names with other extensions -/

/-- What splitting a name can give. -/
inductive Split (name : List Char) : List Char × Option (List Char) → Prop where
  /-- there is no point in it, or only the first character is one -/
  | whole : Split name (name, none)
  /-- there is a point in it -/
  | extended {stem extension : List Char} (nonempty : stem ≠ [])
    (name_eq : name = stem ++ '.' :: extension) : Split name (stem, some extension)

theorem split (name : List Char) : Split name (splitName name) := by
  have joins := @splitName_eq_some name
  generalize made : splitName name = parts at joins
  obtain ⟨stem, extension⟩ := parts
  unfold splitName at made
  dsimp only at made
  split at made
  · cases made
    exact .whole
  · next nonempty =>
    cases made
    exact .extended nonempty (joins rfl)

/-- The name with another extension. Where only a point would be left before the extension, it is
cut off, and its point stays. -/
def exchanged (name extension : List Char) : List Char :=
  match splitName name with
  | (_, none) => name ++ '.' :: extension
  | (stem, some _) => if stem = ['.'] then ['.', '.'] else stem ++ '.' :: extension

/-- A path that goes up has no parts. -/
theorem parts?_of_up (whole : path.toList = directory ++ ['.', '.']) (closed : Closed directory) :
    parts? path = none := by
  have backwards : path.toList.reverse = '.' :: '.' :: directory.reverse := by simp [whole]
  unfold parts?
  dsimp only
  rw [backwards, dropClosing_eq_self (by simp) (by simp), List.takeWhile_cons_of_pos (by decide),
    List.takeWhile_cons_of_pos (by decide), closed.stops.1]
  rfl

/-- Cutting off the extension leaves the point. -/
theorem toList_cutExtension {stem cs : List Char}
    (found : extension? path = some (String.ofList cs))
    (whole : path.toList = directory ++ (stem ++ '.' :: cs)) :
    (cutExtension path).toList = directory ++ (stem ++ ['.']) := by
  have length :
      path.length - (String.ofList cs).length = (directory ++ (stem ++ ['.'])).length := by
    rw [← String.length_toList, ← String.length_toList, whole, String.toList_ofList]
    simp only [List.length_append, List.length_cons, List.length_nil]
    omega
  have front : path.toList = (directory ++ (stem ++ ['.'])) ++ cs := by simp [whole]
  rw [cutExtension, found]
  dsimp only
  rw [String.toList_ofList, length, front, List.take_left]

/-- The new extension goes behind the stem of what is left. -/
theorem toList_withExtension_of_parts? {parts : Parts}
    (found : parts? (cutExtension path) = some parts) (extension : String) :
    (withExtension path extension).toList =
      parts.directory ++ (parts.stem ++ '.' :: extension.toList) := by
  unfold withExtension withoutExtension
  dsimp only
  rw [found]
  change (String.ofList (parts.directory ++ parts.stem) ++ "." ++ extension).toList = _
  rw [String.toList_append, String.toList_append, String.toList_ofList, List.append_assoc,
    List.append_assoc]
  rfl

/-- **Exchanging the extension of a path** is to exchange that of its name. -/
theorem toList_withExtension (ends : EndsIn directory name path) (extension : String) :
    (withExtension path extension).toList = directory ++ exchanged name extension.toList := by
  have parts := ends.parts?_eq
  have found : extension? path = (splitName name).2.map String.ofList := by
    rw [extension?, parts, Option.bind_some]
  have view := split name
  rw [exchanged]
  generalize splitName name = cut at parts found view
  cases view with
  | whole =>
    have same : cutExtension path = path := by rw [cutExtension, found]; rfl
    exact toList_withExtension_of_parts? (same ▸ parts) extension
  | @extended stem cs nonempty name_eq =>
    have whole : path.toList = directory ++ (stem ++ '.' :: cs) := name_eq ▸ ends.toList_eq
    have cut := toList_cutExtension found whole
    dsimp only
    split
    · next point =>
      rw [point] at cut
      unfold withExtension
      rw [parts?_of_up cut ends.closed]
      exact cut
    · next other =>
      have noSlash : '/' ∉ stem := fun mem =>
        ends.noSlash (name_eq ▸ List.mem_append_left _ mem)
      have left : EndsIn directory (stem ++ ['.']) (cutExtension path) := by
        refine ⟨cut, ends.closed, by simp [noSlash], by simp,
          append_cons_ne_singleton nonempty, fun up => ?_⟩
        have same : stem ++ ['.'] = ['.'] ++ ['.'] := up
        exact other (List.append_cancel_right same)
      have leftParts := left.parts?_eq
      rw [splitName_append nonempty (by simp)] at leftParts
      exact toList_withExtension_of_parts? leftParts extension

/-- A name gets itself back if the extension was the same, and if more than its point is left when
it is cut off. -/
theorem exchanged_eq_self_iff {extension : List Char} (notUp : name ≠ ['.', '.']) :
    exchanged name extension = name ↔
      (splitName name).2 = some extension ∧ name ≠ '.' :: '.' :: extension := by
  have view := split name
  rw [exchanged]
  generalize splitName name = cut at view
  cases view with
  | whole => simp
  | @extended stem cs nonempty name_eq =>
    dsimp only
    rw [name_eq] at notUp ⊢
    by_cases point : stem = ['.']
    · subst point
      rw [if_pos rfl]
      constructor
      · intro same
        exact absurd same.symm notUp
      · rintro ⟨same, other⟩
        cases same
        exact absurd rfl other
    · rw [if_neg point, List.append_cancel_left_eq, List.cons.injEq, Option.some.injEq]
      constructor
      · rintro ⟨-, rfl⟩
        refine ⟨rfl, fun same => point ?_⟩
        have same : stem ++ '.' :: extension = ['.'] ++ '.' :: extension := same
        exact List.append_cancel_right same
      · rintro ⟨rfl, -⟩
        exact ⟨rfl, rfl⟩

/-- When a path is as before after its extension was exchanged. -/
theorem withExtension_eq_self_iff (ends : EndsIn directory name path) :
    withExtension path extension = path ↔
      extension? path = some extension ∧ name ≠ '.' :: '.' :: extension.toList := by
  have found : extension? path = some extension ↔
      (splitName name).2 = some extension.toList := by
    rw [extension?, ends.parts?_eq, Option.bind_some]
    cases (splitName name).2 with
    | none => simp
    | some cs => simp [← String.toList_inj]
  rw [← String.toList_inj, toList_withExtension ends, ends.toList_eq, List.append_cancel_left_eq,
    exchanged_eq_self_iff ends.notUp, found]

/-- What an extension is exchanged for leads on, to wherever the name is. -/
theorem exchanged_leadsOn {extension : List Char} (noSlash : '/' ∉ name) (nonempty : name ≠ [])
    (noSlash' : '/' ∉ extension) :
    '/' ∉ exchanged name extension ∧ exchanged name extension ≠ [] ∧
      exchanged name extension ≠ ['.'] := by
  have view := split name
  rw [exchanged]
  generalize splitName name = cut at view
  cases view with
  | whole => exact ⟨by simp [noSlash, noSlash'], by simp, append_cons_ne_singleton nonempty⟩
  | @extended stem cs stemSome name_eq =>
    dsimp only
    split
    · decide
    · have stemNoSlash : '/' ∉ stem := fun mem =>
        noSlash (name_eq ▸ List.mem_append_left _ mem)
      exact ⟨by simp [stemNoSlash, noSlash'], by simp, append_cons_ne_singleton stemSome⟩

end PathName

/-! ## Names in a directory -/

namespace FileTree

open PathName

variable {tree : FileTree} {directory name : List Char} {path extension : String} {place : Place}
  {node : Node}

/-- Where the directory of a path leads. -/
def walk (tree : FileTree) (directory : List Char) : Except IoError Place :=
  (components (String.ofList directory)).foldlM tree.enter
    (tree.start (String.ofList directory))

/-- **A path leads to its name** in its directory. -/
theorem locate_eq (whole : path.toList = directory ++ name) (closed : Closed directory)
    (noSlash : '/' ∉ name) (nonempty : name ≠ []) :
    tree.locate path =
      tree.walk directory >>= fun place => tree.enter place (String.ofList name) := by
  have steps (path : String) : components path =
      ((pieces path.toList).filter (! ·.isEmpty)).map String.ofList := rfl
  have alone : (pieces name).filter (! ·.isEmpty) = [name] := by
    rw [pieces, Text.breakAt_of_not_mem noSlash]
    exact List.filter_cons_of_pos (by simpa using nonempty)
  have more : components path = components (String.ofList directory) ++ [String.ofList name] := by
    rw [steps, steps, whole, String.toList_ofList]
    rcases closed with rfl | last
    · rw [List.nil_append, alone]
      rfl
    · obtain ⟨before, rfl⟩ := List.getLast?_eq_some_iff.mp last
      rw [List.append_assoc, List.singleton_append, pieces_append_slash, pieces_append_slash,
        List.filter_append, List.filter_append, alone, List.map_append]
      congr 2
      exact (List.append_nil _).symm
  have start : tree.start path = tree.start (String.ofList directory) := by
    obtain ⟨c, cs, rfl⟩ := List.exists_cons_of_ne_nil nonempty
    rw [FileTree.start, FileTree.start, whole, String.toList_ofList]
    cases directory with
    | nil =>
      have other : c ≠ '/' := fun same => noSlash (same ▸ List.mem_cons_self)
      simp [other]
    | cons d ds => rfl
  have present : path.isEmpty = false := by
    rw [Bool.eq_false_iff, Ne, String.isEmpty_iff, ← String.toList_inj, whole]
    simp [nonempty]
  rw [locate, present, if_neg Bool.false_ne_true, more, start, List.foldlM_append]
  simp only [List.foldlM_cons, List.foldlM_nil, bind_pure]
  rfl

/-- Two names of a directory lead to two places. -/
theorem name_eq_of_enter {there : Place} {name name' : String}
    (entered : tree.enter there name = .ok place) (entered' : tree.enter there name' = .ok place)
    (notHere : name ≠ ".") (notHere' : name' ≠ ".") : name = name' := by
  obtain ⟨-, here⟩ := enter_eq_ok_iff.mp entered
  obtain ⟨-, here'⟩ := enter_eq_ok_iff.mp entered'
  have apart (name : String) : there.dropLast ≠ there ++ [name] := by
    intro same
    have lengths := congrArg List.length same
    simp only [List.length_dropLast, List.length_append, List.length_singleton] at lengths
    omega
  rw [if_neg notHere] at here
  rw [if_neg notHere', here] at here'
  split at here'
  · next up =>
    split at here'
    · next up' => rw [up, up']
    · exact absurd here' (apart name')
  · split at here'
    · exact absurd here'.symm (apart name)
    · exact List.singleton_inj.mp (List.append_cancel_left here')

/-- A path to what is no directory has a name that leads on. -/
theorem exists_name_of_find (found : tree.find path = .ok node) (noDirectory : node ≠ .directory) :
    ∃ directory name, path.toList = directory ++ name ∧ Closed directory ∧ '/' ∉ name ∧
      name ≠ [] ∧ name ≠ ['.'] := by
  obtain ⟨directory, name, whole, -, closed, noSlash⟩ := exists_closed path.toList.reverse
  rw [List.reverse_reverse] at whole
  obtain ⟨place, located, here⟩ := except_bind_eq_ok_iff.mp found
  refine ⟨directory, name, whole, closed, noSlash, ?_, ?_⟩
  · rintro rfl
    rw [List.append_nil] at whole
    subst whole
    rcases closed with empty | slash
    · rw [locate, String.isEmpty_iff.mpr (String.toList_inj.mp empty)] at located
      cases located
    · have ends : endsInSlash path = true := by simp [endsInSlash, slash]
      rw [ends] at here
      split at here
      · cases here
      · exact noDirectory (Except.ok.inj here).symm
      · cases here
  · rintro rfl
    rw [locate_eq whole closed noSlash (by simp)] at located
    obtain ⟨there, -, entered⟩ := except_bind_eq_ok_iff.mp located
    obtain ⟨isDirectory, rfl⟩ := enter_eq_ok_iff.mp entered
    rw [isDirectory] at here
    exact noDirectory (Except.ok.inj here).symm

/-- **A file is not where its path with another extension leads**, unless this is the same path. -/
theorem withExtension_eq_of_locate (found : tree.find path = .ok node)
    (noDirectory : node ≠ .directory) (noSlash' : '/' ∉ extension.toList)
    (located : tree.locate path = .ok place)
    (located' : tree.locate (withExtension path extension) = .ok place) :
    withExtension path extension = path := by
  obtain ⟨directory, name, whole, closed, noSlash, nonempty, notHere⟩ :=
    exists_name_of_find found noDirectory
  by_cases up : name = ['.', '.']
  · -- what goes up has no extension, and gets none
    rw [up] at whole
    have none := parts?_of_up whole closed
    have same : cutExtension path = path := by rw [cutExtension, extension?, none]; rfl
    unfold withExtension
    rw [same, none]
  · have ends : EndsIn directory name path := ⟨whole, closed, noSlash, nonempty, notHere, up⟩
    have whole' := toList_withExtension ends extension
    obtain ⟨noSlash', nonempty', notHere'⟩ := exchanged_leadsOn noSlash nonempty noSlash'
    rw [locate_eq whole closed noSlash nonempty] at located
    rw [locate_eq whole' closed noSlash' nonempty'] at located'
    obtain ⟨there, walked, entered⟩ := except_bind_eq_ok_iff.mp located
    obtain ⟨there', walked', entered'⟩ := except_bind_eq_ok_iff.mp located'
    obtain rfl : there = there' := Except.ok.inj (walked.symm.trans walked')
    have dot {cs : List Char} (other : cs ≠ ['.']) : String.ofList cs ≠ "." :=
      fun same => other (String.ofList_injective same)
    have same := name_eq_of_enter entered entered' (dot notHere) (dot notHere')
    rw [← String.toList_inj, whole', whole, ← String.ofList_injective same]

end FileTree

end Stackwright
