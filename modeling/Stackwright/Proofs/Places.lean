import Mathlib.Data.List.Induction
import Mathlib.Data.List.TakeWhile
import Stackwright.FileTree
import Stackwright.Proofs.Printing
import Stackwright.Proofs.Sequencing

/-!
# Where paths lead

A path is a row of names with slashes between them, and the place that it leads to ends in the last
of these names, whatever the directories on the way are (`FileTree.getLast?_of_locate`). Empty
names and single dots do not count.

The last name can be told from the text of the path alone: from its extension, if it has one
(`lastName?_of_extension?`), or from what was appended to it.
-/

namespace Stackwright

namespace PathName

/-! ## Names on a path -/

/-- The pieces of a path between its slashes. -/
def pieces (cs : List Char) : List (List Char) :=
  (Text.breakAt '/' cs).1 ++ [(Text.breakAt '/' cs).2]

/-- The pieces that lead on. -/
def names (cs : List Char) : List (List Char) := (pieces cs).filter fun piece =>
  piece ≠ [] ∧ piece ≠ ['.']

/-- The last name on a path. -/
def lastName? (path : String) : Option String :=
  (names path.toList).getLast?.map String.ofList

theorem pieces_cons_slash (cs : List Char) : pieces ('/' :: cs) = [] :: pieces cs := rfl

theorem pieces_cons {c : Char} (h : c ≠ '/') (cs : List Char) :
    pieces (c :: cs) = (pieces cs).modifyHead (c :: ·) := by
  unfold pieces
  rw [Text.breakAt, if_neg (by simpa using h)]
  obtain ⟨closed, last⟩ := Text.breakAt '/' cs
  cases closed <;> rfl

/-- A path falls apart at each of its slashes. -/
theorem pieces_append_slash (cs ds : List Char) :
    pieces (cs ++ '/' :: ds) = pieces cs ++ pieces ds := by
  induction cs with
  | nil => rfl
  | cons c cs ih =>
    by_cases slash : c = '/'
    · subst slash
      rw [List.cons_append, pieces_cons_slash, pieces_cons_slash, ih, List.cons_append]
    · have some : pieces cs ≠ [] := List.append_ne_nil_of_right_ne_nil _ (List.cons_ne_nil _ _)
      obtain ⟨piece, others, shape⟩ := List.exists_cons_of_ne_nil some
      rw [List.cons_append, pieces_cons slash, pieces_cons slash, ih, shape]
      rfl

theorem names_append_slash (cs ds : List Char) :
    names (cs ++ '/' :: ds) = names cs ++ names ds := by
  rw [names, pieces_append_slash, List.filter_append]
  rfl

/-- Slashes and single dots at the end of a path make no difference. -/
theorem names_dropClosing (cs : List Char) :
    names (dropClosing cs).reverse = names cs.reverse := by
  fun_induction dropClosing cs with
  | case1 cs ih =>
    rw [ih, List.reverse_cons, names_append_slash]
    exact (List.append_nil _).symm
  | case2 cs ih =>
    have dot : ('.' :: '/' :: cs).reverse = cs.reverse ++ '/' :: ['.'] := by simp
    rw [ih, dot, names_append_slash]
    exact (List.append_nil _).symm
  | case3 cs _ _ => rfl

/-- The text ends with a slash, or it is empty. -/
def Closed (cs : List Char) : Prop := cs = [] ∨ cs.getLast? = some '/'

theorem names_append {cs : List Char} (closed : Closed cs) (ds : List Char) :
    names (cs ++ ds) = names cs ++ names ds := by
  rcases closed with rfl | last
  · rfl
  · obtain ⟨before, rfl⟩ := List.getLast?_eq_some_iff.mp last
    rw [List.append_assoc, List.singleton_append, names_append_slash, names_append_slash]
    exact congrArg (· ++ _) (List.append_nil _).symm

/-- What follows the last slash is the last name, if it leads on. -/
theorem getLast?_names {cs name : List Char} (closed : Closed cs) (noSlash : '/' ∉ name)
    (nonempty : name ≠ []) (leadsOn : name ≠ ['.']) :
    (names (cs ++ name)).getLast? = some name := by
  have split : Text.breakAt '/' name = ([], name) := Text.breakAt_of_not_mem noSlash
  have last : names name = [name] := by
    rw [names, pieces, split]
    exact List.filter_cons_of_pos (by simp [nonempty, leadsOn])
  rw [names_append closed, last, List.getLast?_concat]

/-- Each text is closed up to what follows its last slash. It is given from its end. -/
theorem exists_closed (cs : List Char) :
    ∃ before last, cs.reverse = before ++ last ∧ last = (cs.takeWhile (· != '/')).reverse ∧
      Closed before ∧ '/' ∉ last := by
  refine ⟨(cs.dropWhile (· != '/')).reverse, _, ?_, rfl, ?_, ?_⟩
  · rw [← List.reverse_append, List.takeWhile_append_dropWhile]
  · unfold Closed
    rw [List.reverse_eq_nil_iff, List.getLast?_reverse]
    cases rest : cs.dropWhile (· != '/') with
    | nil => exact .inl rfl
    | cons c rest' =>
      have stops := List.head?_dropWhile_not (· != '/') cs
      rw [rest] at stops
      exact .inr (congrArg some (by simpa using stops))
  · rw [List.mem_reverse]
    intro mem
    simpa using List.mem_takeWhile_imp mem

/-! ## Extensions -/

/-- A name with an extension is its stem, a point, and the extension. -/
theorem splitName_eq_some {name stem extension : List Char}
    (h : splitName name = (stem, some extension)) : name = stem ++ '.' :: extension := by
  have whole : name = (name.reverse.dropWhile (· != '.')).reverse ++
      (name.reverse.takeWhile (· != '.')).reverse := by
    rw [← List.reverse_append, List.takeWhile_append_dropWhile, List.reverse_reverse]
  have stops := List.head?_dropWhile_not (· != '.') name.reverse
  unfold splitName at h
  generalize name.reverse.dropWhile (· != '.') = upTo at h whole stops
  generalize name.reverse.takeWhile (· != '.') = after at h whole
  dsimp only at h
  cases upTo with
  | nil => cases h
  | cons c rest =>
    obtain rfl : c = '.' := by simpa using stops
    rw [List.reverse_cons, List.dropLast_concat] at h
    rw [whole, List.reverse_cons, List.append_assoc, List.singleton_append]
    split at h
    · cases h
    · cases h
      rfl

/-- The last name of a path with an extension. -/
theorem lastName?_of_extension? {path extension : String} (h : extension? path = some extension) :
    ∃ stem : List Char,
      lastName? path = some (String.ofList (stem ++ '.' :: extension.toList)) := by
  obtain ⟨parts, found, hasExtension⟩ := Option.bind_eq_some_iff.mp h
  obtain ⟨cs, here, rfl⟩ := Option.map_eq_some_iff.mp hasExtension
  unfold parts? at found
  obtain ⟨before, last, whole, isLast, closed, noSlash⟩ :=
    exists_closed (dropClosing path.toList.reverse)
  dsimp only at found
  rw [← isLast] at found
  split at found
  · cases found
  · next ordinary =>
    cases found
    simp only [not_or] at ordinary
    have split := splitName_eq_some (Prod.ext rfl here)
    have names := getLast?_names closed noSlash ordinary.1 ordinary.2.1
    rw [← whole, names_dropClosing, List.reverse_reverse] at names
    refine ⟨(splitName last).1, ?_⟩
    rw [lastName?, names, String.toList_ofList, ← split]
    rfl

/-- The last name of a path to which an extension was appended. -/
theorem lastName?_append (path : String) {extension : String} (noSlash : '/' ∉ extension.toList)
    (nonempty : extension.toList ≠ []) :
    ∃ stem : List Char,
      lastName? (path ++ "." ++ extension) =
        some (String.ofList (stem ++ '.' :: extension.toList)) := by
  obtain ⟨before, stem, whole, -, closed, stemNoSlash⟩ := exists_closed path.toList.reverse
  rw [List.reverse_reverse] at whole
  have split : (path ++ "." ++ extension).toList = before ++ (stem ++ '.' :: extension.toList) := by
    rw [String.toList_append, String.toList_append, whole, List.append_assoc, List.append_assoc]
    rfl
  refine ⟨stem, ?_⟩
  rw [lastName?, split, getLast?_names closed ?_ (by simp) ?_]
  · rfl
  · simp [stemNoSlash, noSlash]
  · intro dot
    have length := congrArg List.length dot
    have positive := List.length_pos_iff.mpr nonempty
    simp only [List.length_append, List.length_cons, List.length_nil] at length
    omega

/-- The last name of a path in a directory, wherever the directory is. -/
theorem lastName?_inDirectory (directory : String) {file : String} (noSlash : '/' ∉ file.toList)
    (nonempty : file ≠ "") (leadsOn : file ≠ ".") :
    lastName? (inDirectory directory file) = some file := by
  have split : ∃ before, Closed before ∧
      (inDirectory directory file).toList = before ++ file.toList := by
    unfold inDirectory
    split
    · next closed =>
      refine ⟨directory.toList, ?_, String.toList_append⟩
      exact closed.imp_left fun empty => by simpa using empty
    · refine ⟨directory.toList ++ ['/'], .inr List.getLast?_concat, ?_⟩
      change (directory ++ "/" ++ file).toList = _
      rw [String.toList_append, String.toList_append]
      rfl
  obtain ⟨before, closed, whole⟩ := split
  rw [lastName?, whole, getLast?_names closed noSlash (by simpa using nonempty) ?_]
  · exact congrArg some String.ofList_toList
  · intro dot
    exact leadsOn (String.toList_inj.mp dot)

end PathName

/-! ## Places -/

namespace FileTree

variable {tree : FileTree} {path : String} {place : Place}

/-- One leaves only directories. -/
theorem enter_eq_ok_iff {name : String} {place' : Place} :
    tree.enter place name = .ok place' ↔
      tree.node? place = some .directory ∧
        place' = if name = "." then place
          else if name = ".." then place.dropLast
          else place ++ [name] := by
  unfold enter
  split
  · next isDirectory =>
    rw [isDirectory]
    split
    · simp [eq_comm]
    · split <;> simp [eq_comm]
  · next node other isNode =>
    rw [isNode]
    constructor
    · rintro ⟨⟩
    · rintro ⟨⟨⟩, -⟩
      exact absurd rfl other
  · next none => simp [none]

/-- A walk from directory to directory ends where the last name says, unless it goes up. -/
theorem getLast?_of_foldlM {steps : List String} {start : Place} {name : String}
    (h : steps.foldlM tree.enter start = .ok place)
    (last : (steps.filter (· ≠ ".")).getLast? = some name) (notUp : name ≠ "..") :
    place.getLast? = some name := by
  induction steps using List.reverseRecOn generalizing place with
  | nil => cases last
  | append_singleton steps step ih =>
    rw [List.foldlM_append, except_bind_eq_ok_iff] at h
    obtain ⟨before, walked, h⟩ := h
    rw [List.foldlM_cons, except_bind_eq_ok_iff] at h
    obtain ⟨_, entered, done⟩ := h
    cases done
    obtain ⟨-, rfl⟩ := enter_eq_ok_iff.mp entered
    rw [List.filter_append] at last
    by_cases stays : step = "."
    · rw [if_pos stays]
      rw [stays] at last
      exact ih walked (by simpa using last)
    · rw [List.filter_cons_of_pos (by simpa using stays), List.filter_nil,
        List.getLast?_concat] at last
      cases last
      rw [if_neg stays, if_neg notUp, List.getLast?_concat]

/-- **A path leads to its last name**, unless that goes up. -/
theorem getLast?_of_locate {name : String} (h : tree.locate path = .ok place)
    (last : PathName.lastName? path = some name) (notUp : name ≠ "..") :
    place.getLast? = some name := by
  have steps : (PathName.components path).filter (· ≠ ".") =
      (PathName.names path.toList).map String.ofList := by
    change List.filter _ (((PathName.pieces path.toList).filter _).map String.ofList) = _
    rw [List.filter_map, List.filter_filter, PathName.names]
    congr 2
    funext piece
    have dot : String.ofList piece = "." ↔ piece = ['.'] := by
      rw [← String.toList_inj, String.toList_ofList]
      rfl
    rw [Bool.eq_iff_iff]
    simp only [Function.comp_apply, Bool.and_eq_true, decide_eq_true_eq, Ne, dot,
      Bool.not_eq_true', List.isEmpty_eq_false_iff]
    exact and_comm
  unfold locate at h
  split at h
  · cases h
  · refine getLast?_of_foldlM h ?_ notUp
    rw [steps, List.getLast?_map]
    exact last

/-- Paths with different last names lead to different places. -/
theorem locate_ne_of_lastName? {path' name name' : String}
    (last : PathName.lastName? path = some name) (last' : PathName.lastName? path' = some name')
    (notUp : name ≠ "..") (notUp' : name' ≠ "..") (apart : name ≠ name')
    (h : tree.locate path = .ok place) : tree.locate path' ≠ .ok place := by
  intro h'
  have here := getLast?_of_locate h last notUp
  rw [getLast?_of_locate h' last' notUp'] at here
  exact apart (Option.some.inj here).symm

end FileTree

end Stackwright
