import Stackwright.Proofs.Places
import Stackwright.Tool.Plan

/-!
# Names of programs

A program may be given by its name, by its source or by its image. It is the same program, and so
the same is planned for it (`Plan.ofArguments_alike`).

The extensions of source and image are appended to a name and exchanged for nothing again. That this
gives back the name is clear as long as there are no other points in it. But a name may have points
anywhere, and exchanging an extension leaves its point for a moment, so that it has to be seen that
what is left then is neither without a name nor one of the special names (`PathName.EndsIn`).
-/

namespace Stackwright

namespace PathName

/-! ## Ordinary names -/

/-- The path is this directory and then this name, which is an ordinary one. -/
structure EndsIn (directory name : List Char) (path : String) : Prop where
  toList_eq : path.toList = directory ++ name
  /-- the directory ends in a slash, if there is one -/
  closed : Closed directory
  noSlash : '/' ∉ name
  nonempty : name ≠ []
  notHere : name ≠ ['.']
  notUp : name ≠ ['.', '.']

/-- The last component of the path is an ordinary name, and no slash follows it. -/
def IsOrdinary (path : String) : Prop := ∃ directory name, EndsIn directory name path

variable {directory name : List Char} {path : String}

theorem bne_of_mem_reverse {d : Char} {cs : List Char} (h : d ∉ cs) :
    ∀ c ∈ cs.reverse, (c != d) = true := by
  intro c mem
  rw [bne_iff_ne]
  rintro rfl
  exact h (List.mem_reverse.mp mem)

/-- Nothing is dropped where no slash and no `/.` is at the end. -/
theorem dropClosing_eq_self {cs : List Char} (noSlash : ∀ rest, cs ≠ '/' :: rest)
    (noDot : ∀ rest, cs ≠ '.' :: '/' :: rest) : dropClosing cs = cs := by
  unfold dropClosing
  split
  · next rest => exact absurd rfl (noSlash rest)
  · next rest => exact absurd rfl (noDot rest)
  · rfl

/-- Nothing is dropped behind an ordinary name. -/
theorem EndsIn.dropClosing_eq (h : EndsIn directory name path) :
    dropClosing path.toList.reverse = name.reverse ++ directory.reverse := by
  obtain ⟨last, front, backwards⟩ : ∃ last front, name.reverse = last :: front :=
    List.exists_cons_of_ne_nil (by simpa using h.nonempty)
  have mem : ∀ c ∈ last :: front, c ≠ '/' := by
    rintro c mem rfl
    exact h.noSlash (List.mem_reverse.mp (backwards ▸ mem))
  rw [h.toList_eq, List.reverse_append, backwards]
  refine dropClosing_eq_self ?_ ?_
  · rintro rest ⟨⟩
    exact mem '/' List.mem_cons_self rfl
  · rintro rest shape
    cases front with
    | nil =>
      obtain ⟨rfl, -⟩ := List.cons.inj shape
      exact h.notHere (List.reverse_eq_iff.mp backwards)
    | cons c front =>
      cases shape
      exact mem '/' (by simp) rfl

/-- No name goes over from a directory to what follows it. -/
theorem Closed.stops (closed : Closed directory) :
    directory.reverse.takeWhile (· != '/') = [] ∧
      directory.reverse.dropWhile (· != '/') = directory.reverse := by
  rcases closed with rfl | last
  · exact ⟨rfl, rfl⟩
  · obtain ⟨before, rfl⟩ := List.getLast?_eq_some_iff.mp last
    rw [List.reverse_append]
    exact ⟨rfl, rfl⟩

/-- An ordinary name can be read off the path, with the directory before it. -/
theorem EndsIn.parts?_eq (h : EndsIn directory name path) :
    parts? path = some ⟨directory, (splitName name).1, (splitName name).2⟩ := by
  have inName := bne_of_mem_reverse h.noSlash
  have stops := h.closed.stops
  unfold parts?
  dsimp only
  rw [h.dropClosing_eq, List.takeWhile_append_of_pos inName, List.dropWhile_append_of_pos inName,
    stops.1, stops.2, List.append_nil, List.reverse_reverse, List.reverse_reverse]
  exact if_neg (by simp [h.nonempty, h.notHere, h.notUp])

/-! ## Extensions come and go -/

/-- A point that is not the first starts an extension, if no other point follows it. -/
theorem splitName_append {stem extension : List Char} (nonempty : stem ≠ [])
    (noPoint : '.' ∉ extension) :
    splitName (stem ++ '.' :: extension) = (stem, some extension) := by
  have after := bne_of_mem_reverse noPoint
  have backwards : (stem ++ '.' :: extension).reverse =
      extension.reverse ++ '.' :: stem.reverse := by simp
  unfold splitName
  dsimp only
  rw [backwards, List.takeWhile_append_of_pos after, List.dropWhile_append_of_pos after,
    List.takeWhile_cons_of_neg (by simp), List.dropWhile_cons_of_neg (by simp), List.append_nil,
    List.reverse_reverse, List.reverse_cons, List.reverse_reverse, List.dropLast_concat]
  obtain ⟨c, rest, rfl⟩ := List.exists_cons_of_ne_nil nonempty
  rfl

/-- There is more than one character where something is put behind others. -/
theorem append_cons_ne_singleton {stem cs : List Char} {c d : Char} (nonempty : stem ≠ []) :
    stem ++ c :: cs ≠ [d] := by
  intro same
  rcases List.append_eq_singleton_iff.mp same with ⟨empty, -⟩ | ⟨-, empty⟩
  · exact nonempty empty
  · cases empty

/-- An ordinary name stays one when an extension is appended, also the empty one. -/
theorem EndsIn.append (h : EndsIn directory name path) {extension : String}
    (noSlash : '/' ∉ extension.toList) :
    EndsIn directory (name ++ '.' :: extension.toList) (path ++ "." ++ extension) where
  toList_eq := by
    rw [String.toList_append, String.toList_append, h.toList_eq, List.append_assoc,
      List.append_assoc]
    rfl
  closed := h.closed
  noSlash := by simp [h.noSlash, noSlash]
  nonempty := by simp
  notHere := append_cons_ne_singleton h.nonempty
  notUp := by
    intro up
    obtain ⟨c, rest, rfl⟩ := List.exists_cons_of_ne_nil h.nonempty
    obtain ⟨rfl, onePoint⟩ := List.cons.inj up
    rcases List.append_eq_singleton_iff.mp onePoint with ⟨rfl, -⟩ | ⟨-, empty⟩
    · exact h.notHere rfl
    · cases empty

/-- The parts of a path that an extension was appended to. -/
theorem EndsIn.parts?_append (h : EndsIn directory name path) {extension : String}
    (noSlash : '/' ∉ extension.toList) (noPoint : '.' ∉ extension.toList) :
    parts? (path ++ "." ++ extension) = some ⟨directory, name, some extension.toList⟩ := by
  rw [(h.append noSlash).parts?_eq, splitName_append h.nonempty noPoint]

/-- An extension that was appended is the extension. -/
theorem extension?_append (ordinary : IsOrdinary path) {extension : String}
    (noSlash : '/' ∉ extension.toList) (noPoint : '.' ∉ extension.toList) :
    extension? (path ++ "." ++ extension) = some extension := by
  obtain ⟨directory, name, h⟩ := ordinary
  rw [extension?, h.parts?_append noSlash noPoint]
  exact congrArg some String.ofList_toList

/-- **What was appended is exchanged for nothing**, and the path is left. -/
theorem withoutExtension_append (ordinary : IsOrdinary path) {extension : String}
    (noSlash : '/' ∉ extension.toList) (noPoint : '.' ∉ extension.toList) :
    withoutExtension (path ++ "." ++ extension) = path := by
  have cut : cutExtension (path ++ "." ++ extension) = path ++ "." := by
    have whole : (path ++ "." ++ extension).toList = (path ++ ".").toList ++ extension.toList :=
      String.toList_append
    have length : (path ++ "." ++ extension).length - extension.length =
        (path ++ ".").toList.length := by
      rw [String.length_append, Nat.add_sub_cancel, String.length_toList]
    rw [cutExtension, extension?_append ordinary noSlash noPoint]
    dsimp only
    rw [length, whole, List.take_left, String.ofList_toList]
  obtain ⟨directory, name, h⟩ := ordinary
  have parts : parts? (path ++ "." ++ "") = _ := h.parts?_append (by simp) (by simp)
  rw [String.append_empty] at parts
  unfold withoutExtension
  rw [cut]
  dsimp only
  rw [parts]
  dsimp only
  rw [← h.toList_eq, String.ofList_toList]

end PathName

/-! ## The same plan -/

namespace Plan

variable {path extension : String}

/-- A path with neither of the two extensions is the name of the program itself. -/
theorem programName_eq_self
    (noExtension : ∀ extension ∈ [sourceExtension, imageExtension],
      PathName.extension? path ≠ some extension) :
    programName path = path := by
  unfold programName
  split
  · next extension found =>
    rw [found] at noExtension
    have other : ¬(extension = sourceExtension ∨ extension = imageExtension) := by
      rintro (rfl | rfl)
      · exact noExtension sourceExtension (by simp) rfl
      · exact noExtension imageExtension (by simp) rfl
    rw [if_neg other]
  · rfl

/-- Source and image of a program have its name. -/
theorem programName_appendExtension (ordinary : PathName.IsOrdinary path)
    (h : extension ∈ [sourceExtension, imageExtension]) :
    programName (appendExtension path extension) = path := by
  have noSlash : '/' ∉ extension.toList := by
    revert extension
    decide
  have noPoint : '.' ∉ extension.toList := by
    revert extension
    decide
  have either : extension = sourceExtension ∨ extension = imageExtension := by simpa using h
  change programName (path ++ "." ++ extension) = path
  rw [programName, PathName.extension?_append ordinary noSlash noPoint]
  dsimp only
  rw [if_pos either, PathName.withoutExtension_append ordinary noSlash noPoint]

/-- Where the image of a program goes when it is assembled: beside the source, or else where it
is asked for. -/
inductive WrittenTo (name : String) : Option String → String → Prop where
  | byDefault : WrittenTo name none (name ++ ".i")
  | asAsked {output : String} (isImage : PathName.extension? output = some "i") :
    WrittenTo name (some output) output
  | withExtension {output : String} (other : PathName.extension? output ≠ some "i") :
    WrittenTo name (some output) (output ++ ".i")

/-- What is planned for a program, by its name. -/
inductive Planned (files : FileTree) (args : PlanArguments) (name : String) :
    Except PlanError Plan → Prop where
  | refused (noSource : files.isFile (name ++ ".ftnt") = false)
      (noImage : files.isFile (name ++ ".i") = false) :
    Planned files args name
      (.error (.usage s!"Neither {name}.ftnt nor {name}.i exists"))
  | assembled {image : String} (source : files.isFile (name ++ ".ftnt"))
      (noImage : files.isFile (name ++ ".i") = false) (written : WrittenTo name args.output image) :
    Planned files args name
      (.ok ⟨.assemble, name ++ ".ftnt", image, args.memory, args.symbols, args.lineMap, ""⟩)
  | run (noSource : files.isFile (name ++ ".ftnt") = false) (image : files.isFile (name ++ ".i")) :
    Planned files args name
      (.ok ⟨.run, name ++ ".ftnt", name ++ ".i", args.memory, args.symbols, args.lineMap, ""⟩)
  | assembledAndRun {image : String} (source : files.isFile (name ++ ".ftnt"))
      (old : files.isFile (name ++ ".i")) (written : WrittenTo name args.output image) :
    Planned files args name
      (.ok ⟨.assembleAndRun, name ++ ".ftnt", image, args.memory, args.symbols, args.lineMap, ""⟩)

theorem sourceOf_eq (name : String) : sourceOf name = name ++ ".ftnt" := String.append_assoc

theorem imageOf_eq (name : String) : imageOf name = name ++ ".i" := String.append_assoc

variable {files : FileTree} {args : PlanArguments}

theorem writtenTo_imagePath (name output : String) :
    WrittenTo name (some output) (imagePath output) := by
  rw [imagePath, imageOf_eq]
  split
  · next isImage => exact .asAsked isImage
  · next other => exact .withExtension other

/-- An image that is written goes where it should. -/
theorem writtenTo (name : String) (output : Option String) :
    WrittenTo name output ((output.map imagePath).getD (name ++ ".i")) := by
  cases output with
  | none => exact .byDefault
  | some output => exact writtenTo_imagePath name output

theorem neither_eq (name : String) :
    "Neither " ++ (name ++ ".ftnt") ++ " nor " ++ (name ++ ".i") ++ " exists" =
      s!"Neither {name}.ftnt nor {name}.i exists" := by
  change _ = "Neither " ++ name ++ ".ftnt nor " ++ name ++ ".i exists"
  simp only [String.append_assoc]
  rfl

/-- What is planned for an input is what is planned for the program that it names. -/
theorem planned_ofArguments (files : FileTree) (args : PlanArguments) (input : String) :
    Planned files args (programName input)
      (ofArguments files { args with input := some input }) := by
  unfold ofArguments
  dsimp only
  generalize programName input = name
  rw [sourceOf_eq, imageOf_eq]
  have written := writtenTo name args.output
  cases source : files.isFile (name ++ ".ftnt") <;> cases image : files.isFile (name ++ ".i")
  case false.false =>
    have refused : Planned files args name _ := .refused source image
    rw [← neither_eq] at refused
    exact refused
  case false.true => exact .run source image
  case true.false => exact .assembled source image written
  case true.true => exact .assembledAndRun source image written

/-- The input counts only for the program that it names. -/
theorem ofArguments_eq_of_programName {input input' : String}
    (same : programName input = programName input') :
    ofArguments files { args with input := some input } =
      ofArguments files { args with input := some input' } := by
  simp only [ofArguments, same]

/-- **The three spellings of a program.** By its name, by its source or by its image, the same is
planned for it. -/
theorem ofArguments_alike (ordinary : PathName.IsOrdinary path)
    (noExtension : ∀ extension ∈ ["ftnt", "i"], PathName.extension? path ≠ some extension)
    (files : FileTree) (args : PlanArguments) :
    ∃ result, Planned files args path result ∧
      ∀ input ∈ [path, path ++ ".ftnt", path ++ ".i"],
        ofArguments files { args with input := some input } = result := by
  have named : programName path = path := programName_eq_self noExtension
  have planned := planned_ofArguments files args path
  rw [named] at planned
  refine ⟨_, planned, fun input mem => ofArguments_eq_of_programName ?_⟩
  rw [named]
  simp only [List.mem_cons, List.not_mem_nil, or_false] at mem
  rcases mem with rfl | rfl | rfl
  · exact named
  · rw [← sourceOf_eq]
    exact programName_appendExtension ordinary (by simp)
  · rw [← imageOf_eq]
    exact programName_appendExtension ordinary (by simp)

/-- A program with points all over its name, of which there is only the source. -/
def dotted : FileTree :=
  ⟨[(["lib"], .directory), (["lib", ".run.v2..ftnt"], .file "halt\n".toUTF8)], []⟩

theorem ofArguments_alike_dotted :
    PathName.IsOrdinary "lib/.run.v2." ∧
      ∀ input ∈ ["lib/.run.v2.", "lib/.run.v2..ftnt", "lib/.run.v2..i"],
        ofArguments dotted ⟨false, true, false, 64, some input, some "out.i.x"⟩ =
          .ok ⟨.assemble, "lib/.run.v2..ftnt", "out.i.x.i", 64, true, false, ""⟩ := by
  have ordinary : PathName.IsOrdinary "lib/.run.v2." :=
    ⟨['l', 'i', 'b', '/'], ['.', 'r', 'u', 'n', '.', 'v', '2', '.'],
      by decide, .inr rfl, by decide, by decide, by decide, by decide⟩
  have byName : ofArguments dotted ⟨false, true, false, 64, some "lib/.run.v2.", some "out.i.x"⟩ =
      .ok ⟨.assemble, "lib/.run.v2..ftnt", "out.i.x.i", 64, true, false, ""⟩ := by
    decide +kernel
  obtain ⟨result, -, alike⟩ := ofArguments_alike ordinary (by decide +kernel) dotted
    ⟨false, true, false, 64, none, some "out.i.x"⟩
  have isResult := alike "lib/.run.v2." List.mem_cons_self
  refine ⟨ordinary, fun input mem => ?_⟩
  rw [← byName, isResult]
  exact alike input mem

end Plan

end Stackwright
