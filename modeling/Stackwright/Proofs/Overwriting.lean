import Stackwright.Proofs.Confinement
import Stackwright.Proofs.Exchange
import Stackwright.Tool.Assembler

/-!
# What the assembler overwrites

The assembler writes an image and, if they are wanted, a symbol table and a line map, one after the
other. It has no regard for what was at their paths. So the files that it leaves are those that are
left by saving these texts (`Assembler.leaves_assemble`), and where several of them go to one place,
the last one is found there.

The source may be at one of these places. Unless another path was chosen, the image goes to the path
of the source with the extension of images, and this is the source itself if it has this extension
already. The other two have fixed names, which may be that of the source. In all other cases the
source is kept (`Assembler.source_overwritten`).
-/

namespace Stackwright

/-! ## Files that a job leaves -/

/-- A job on these files leaves those files, whatever was printed before. -/
def Job.Leaves {α : Type} (job : Job α) (files files' : FileTree) : Prop :=
  ∀ shell : Shell, shell.files = files → (job shell).2.files = files'

namespace Job.Leaves

variable {α β : Type} {job : Job α} {next : α → Job β} {files files' files'' : FileTree}

theorem pure (a : α) (files : FileTree) : Leaves (Pure.pure a) files files :=
  fun _ here => here

theorem say (line : String) (files : FileTree) : Leaves (Job.say line) files files :=
  fun _ here => here

theorem sayAll (lines : List String) (files : FileTree) : Leaves (Job.sayAll lines) files files :=
  fun _ here => here

theorem bind (first : Leaves job files files') (second : ∀ a, Leaves (next a) files' files'') :
    Leaves (job >>= next) files files'' :=
  fun shell here => second _ _ (first shell here)

theorem files_bind {next : FileTree → Job β} (h : Leaves (next files) files files') :
    Leaves (Job.files >>= next) files files' := by
  rintro shell rfl
  exact h shell rfl

theorem save_bind {path text : String} {next : Except AssemblyError Unit → Job β}
    (h : Leaves (next (saveText files path text).1) (saveText files path text).2 files') :
    Leaves (Job.save path text >>= next) files files' := by
  rintro ⟨_, printed⟩ rfl
  exact h ⟨_, printed⟩ rfl

/-- One of two jobs comes first. -/
theorem choice {job' : Job α} {wanted : Bool}
    (first : Leaves (if wanted then job else job') files files')
    (second : ∀ a, Leaves (next a) files' files'') :
    Leaves (if wanted then job >>= next else job' >>= next) files files'' := by
  cases wanted with
  | false => exact first.bind second
  | true => exact first.bind second

end Job.Leaves

/-! ## Texts that are saved one after the other -/

/-- The files after texts were saved to paths, whatever came of each. -/
def saveAll (files : FileTree) (texts : List (String × String)) : FileTree :=
  texts.foldl (fun files entry => (saveText files entry.1 entry.2).2) files

theorem saveAll_cons (files : FileTree) (entry : String × String) (texts : List (String × String)) :
    saveAll files (entry :: texts) = saveAll (saveText files entry.1 entry.2).2 texts := rfl

namespace FileTree

variable {files : FileTree} {place : Place} {content : ByteArray} {path text : String}
  {texts : List (String × String)}

/-- Paths lead to the same places after a text was saved. -/
theorem leadsAlike_saveText (files : FileTree) (path text : String) :
    files.LeadsAlike (saveText files path text).2 := by
  rcases saveText_differsAt files path text with same | ⟨_, -, differs⟩
  · rw [same]
    exact fun _ _ => .rfl
  · exact differs.leadsAlike

/-- Where a text could not be saved, nothing has changed, since there is room in a file that was
just made. -/
theorem saveText_eq_error {e : AssemblyError} (fails : (saveText files path text).1 = .error e) :
    (saveText files path text).2 = files := by
  unfold saveText at fails ⊢
  split at fails
  · rfl
  · next place created creates =>
    split at fails
    · next bad =>
      obtain ⟨-, -, ⟨-, same⟩ | ⟨free, same⟩⟩ := create_eq_ok creates
      · exact same
      · rw [fill, same, node?_put _ (ne_nil_of_free free), if_pos rfl] at bad
        cases bad
    · cases fails

/-- What is saved to a regular file is found there. -/
theorem saveText_of_file (regular : files.node? place = some (.file content))
    (located : files.locate path = .ok place) (noSlash : endsInSlash path = false)
    (text : String) :
    (saveText files path text).1 = .ok () ∧
      (saveText files path text).2.node? place = some (.file text.toUTF8) := by
  have inner : place ≠ [] := ne_nil_of_free (by rw [regular]; rintro ⟨⟩)
  have created : files.create path = .ok (place, files.put place (.file .empty)) := by
    rw [create, located]
    dsimp only [bind, Except.bind]
    rw [noSlash, regular]
    rfl
  have filled : (files.put place (.file .empty)).fill place text.toUTF8 =
      .ok ((files.put place (.file .empty)).put place (.file text.toUTF8)) := by
    rw [fill, node?_put _ inner, if_pos rfl]
  rw [saveText, created]
  dsimp only
  rw [filled]
  exact ⟨rfl, (node?_put _ inner _ place).trans (if_pos rfl)⟩

/-- A regular file stays one, whatever is saved to wherever. -/
theorem exists_file_saveText (regular : files.node? place = some (.file content))
    (path text : String) :
    ∃ content', (saveText files path text).2.node? place = some (.file content') := by
  rcases saveText_differsAt files path text with same | ⟨there, located, differs⟩
  · exact ⟨content, by rw [same, regular]⟩
  · by_cases here : place = there
    · subst here
      cases slash : endsInSlash path with
      | false => exact ⟨_, (saveText_of_file regular located slash text).2⟩
      | true =>
        have refused : files.create path = .error .isADirectory := by
          rw [create, located]
          dsimp only [bind, Except.bind]
          rw [slash, if_pos rfl]
        exact ⟨content, by rw [saveText, refused, regular]⟩
    · exact ⟨content, (differs.node?_eq place here).trans regular⟩

/-- Saving texts to some places changes nothing elsewhere. -/
theorem differsWithin_saveAll {places : Set Place}
    (within : ∀ entry ∈ texts, ∀ place, files.locate entry.1 = .ok place → place ∈ places) :
    files.DiffersWithin places (saveAll files texts) := by
  induction texts generalizing files with
  | nil => exact .refl places files
  | cons entry texts ih =>
    obtain ⟨here, later⟩ := List.forall_mem_cons.mp within
    refine (DiffersWithin.save here entry.2).trans (ih fun entry' mem place located => ?_)
    exact later entry' mem place ((leadsAlike_saveText files _ _ _ place).mp located)

/-- **Of the texts that are saved to a regular file the last one is found there.** Whatever is saved
before, it is still a regular file, and paths lead where they led. -/
theorem node?_saveAll_of_last {before after : List (String × String)}
    (regular : files.node? place = some (.file content)) (located : files.locate path = .ok place)
    (noSlash : endsInSlash path = false)
    (others : ∀ entry ∈ after, files.locate entry.1 ≠ .ok place) :
    (saveAll files (before ++ (path, text) :: after)).node? place = some (.file text.toUTF8) := by
  induction before generalizing files content with
  | nil =>
    have saved := (saveText_of_file regular located noSlash text).2
    have alike := leadsAlike_saveText files path text
    have elsewhere : (saveText files path text).2.DiffersWithin {other | other ≠ place}
        (saveAll (saveText files path text).2 after) := by
      refine differsWithin_saveAll fun entry mem there located' => ?_
      rintro rfl
      exact others entry mem ((alike _ _).mp located')
    exact (elsewhere.node?_eq place fun apart => apart rfl).trans saved
  | cons entry before ih =>
    obtain ⟨content', regular'⟩ := exists_file_saveText regular entry.1 entry.2
    have alike := leadsAlike_saveText files entry.1 entry.2
    exact ih regular' ((alike _ _).mpr located) fun other mem located' =>
      others other mem ((alike _ _).mp located')

end FileTree

/-! ## Files that the assembler leaves -/

namespace Assembler

/-- What is written besides the image. -/
def artifacts (args : AssemblerArguments) (assembly : Assembly) : List (String × String) :=
  (if args.symbols then [(symbolsFile, assembly.symbols.write)] else []) ++
    if args.lineMap then [(lineMapFile, assembly.lineMap.write)] else []

/-- The files after all was written. Without an image there is nothing else. -/
def written (args : AssemblerArguments) (files : FileTree) (assembly : Assembly) : FileTree :=
  match saveText files (imagePath args) assembly.image with
  | (.error _, files') => files'
  | (.ok (), files') => saveAll files' (artifacts args assembly)

open Job

theorem leaves_saveListed (path text : String) (files : FileTree) :
    Leaves (saveListed path text) files (saveText files path text).2 := by
  unfold saveListed
  refine (Leaves.say _ files).bind fun _ => .save_bind ?_
  cases (saveText files path text).1 with
  | error e => exact .pure _ _
  | ok u => exact .pure _ _

theorem leaves_wanted (wanted : Bool) (path text : String) (files : FileTree) :
    Leaves (if wanted then saveListed path text else pure none) files
      (saveAll files (if wanted then [(path, text)] else [])) := by
  cases wanted with
  | false => exact .pure none files
  | true => exact leaves_saveListed path text files

theorem leaves_finish (args : AssemblerArguments) (source : Source) (assembly : Assembly)
    (files : FileTree) :
    Leaves (finish args source assembly) files (saveAll files (artifacts args assembly)) := by
  rw [artifacts, saveAll, List.foldl_append]
  unfold finish
  refine (leaves_wanted args.symbols _ _ files).choice fun first => ?_
  refine (leaves_wanted args.lineMap _ _ _).choice fun second => ?_
  refine (Leaves.sayAll _ _).bind fun _ => ?_
  dsimp only
  split
  · exact .files_bind ((Leaves.sayAll _ _).bind fun _ => (Leaves.say _ _).bind fun _ => .pure _ _)
  · exact (Leaves.say _ _).bind fun _ => .pure _ _

/-- **What the assembler leaves**: all files as they were if the source does not assemble, and else
with what was written. -/
theorem leaves_assemble (args : AssemblerArguments) (files : FileTree) :
    Leaves (assemble args) files
      (match (Source.file args.input).assemble files with
        | .error _ => files
        | .ok assembly => written args files assembly) := by
  unfold assemble
  refine (Leaves.say _ _).bind fun _ => (Leaves.say _ _).bind fun _ =>
    (Leaves.say _ _).bind fun _ => .files_bind ?_
  cases (Source.file args.input).assemble files with
  | error e => exact (Leaves.sayAll _ _).bind fun _ => .pure _ _
  | ok assembly =>
    refine (Leaves.say _ _).bind fun _ => ?_
    unfold saveListed written
    simp only [bind_assoc]
    refine (Leaves.say _ _).bind fun _ => .save_bind ?_
    obtain ⟨result, files'⟩ := saveText files (imagePath args) assembly.image
    cases result with
    | error e => exact (Leaves.sayAll _ _).bind fun _ => .pure _ _
    | ok u => exact leaves_finish args _ assembly files'

/-! ## What becomes of the source -/

/-- The path is that of an artifact that was asked for. -/
def Wants (args : AssemblerArguments) (path : String) : Prop :=
  args.symbols ∧ path = symbolsFile ∨ args.lineMap ∧ path = lineMapFile

section

variable {args : AssemblerArguments} {files : FileTree} {assembly : Assembly} {place : Place}
  {content : ByteArray}

theorem mem_artifacts_iff {entry : String × String} :
    entry ∈ artifacts args assembly ↔
      args.symbols ∧ entry = (symbolsFile, assembly.symbols.write) ∨
        args.lineMap ∧ entry = (lineMapFile, assembly.lineMap.write) := by
  rw [artifacts, List.mem_append, List.mem_ite_nil_right, List.mem_ite_nil_right,
    List.mem_singleton, List.mem_singleton]

theorem wants_of_mem {entry : String × String} (mem : entry ∈ artifacts args assembly) :
    Wants args entry.1 :=
  (mem_artifacts_iff.mp mem).imp (And.imp_right (congrArg Prod.fst))
    (And.imp_right (congrArg Prod.fst))

/-- If the image could be written, then so is all the rest. -/
theorem written_eq_saveAll (saved : (saveText files (imagePath args) assembly.image).1 = .ok ()) :
    written args files assembly =
      saveAll files ((imagePath args, assembly.image) :: artifacts args assembly) := by
  unfold written
  split
  · next fails =>
    rw [fails] at saved
    cases saved
  · next saves =>
    rw [saveAll_cons, saves]

/-- If the image could not be written, then nothing is. -/
theorem written_eq_self {e : AssemblyError}
    (fails : (saveText files (imagePath args) assembly.image).1 = .error e) :
    written args files assembly = files := by
  have same := FileTree.saveText_eq_error fails
  unfold written
  split
  · next unsaved => rwa [unsaved] at same
  · next saves =>
    rw [saves] at fails
    cases fails

/-- Nothing is written but the image and what is wanted. -/
theorem differsWithin_written (assembly : Assembly) (places : Set Place)
    (image : ∀ place, files.locate (imagePath args) = .ok place → place ∈ places)
    (wanted : ∀ path, Wants args path → ∀ place, files.locate path = .ok place → place ∈ places) :
    files.DiffersWithin places (written args files assembly) := by
  cases saved : (saveText files (imagePath args) assembly.image).1 with
  | ok u =>
    rw [written_eq_saveAll saved]
    refine FileTree.differsWithin_saveAll (List.forall_mem_cons.mpr ⟨image, ?_⟩)
    exact fun entry mem => wanted entry.1 (wants_of_mem mem)
  | error e =>
    rw [written_eq_self saved]
    exact .refl places files

theorem leadsAlike_written (args : AssemblerArguments) (files : FileTree) (assembly : Assembly) :
    files.LeadsAlike (written args files assembly) :=
  (differsWithin_written assembly Set.univ (fun _ _ => trivial) fun _ _ _ _ => trivial).alike

/-- What stands where nothing is written stays. -/
theorem node?_written (assembly : Assembly) (image : files.locate (imagePath args) ≠ .ok place)
    (artifacts : ∀ path, Wants args path → files.locate path ≠ .ok place) :
    (written args files assembly).node? place = files.node? place := by
  refine (differsWithin_written assembly {other | other ≠ place} ?_ ?_).node?_eq place
    fun apart => apart rfl
  · rintro there located rfl
    exact image located
  · rintro path wants there located rfl
    exact artifacts path wants located

/-- An artifact is the last one that goes where it goes. -/
theorem exists_split_of_mem_artifacts {path text : String}
    (mem : (path, text) ∈ artifacts args assembly) (located : files.locate path = .ok place) :
    ∃ before after, artifacts args assembly = before ++ (path, text) :: after ∧
      ∀ entry ∈ after, files.locate entry.1 ≠ .ok place := by
  rcases mem_artifacts_iff.mp mem with ⟨wanted, ⟨⟩⟩ | ⟨wanted, ⟨⟩⟩
  · refine ⟨[], _, by rw [artifacts, if_pos wanted]; rfl, fun entry later => ?_⟩
    obtain ⟨-, only⟩ := List.mem_ite_nil_right.mp later
    rw [List.mem_singleton.mp only]
    have name : PathName.lastName? symbolsFile = some symbolsFile := by decide
    have name' : PathName.lastName? lineMapFile = some lineMapFile := by decide
    exact FileTree.locate_ne_of_lastName? name name' (by decide) (by decide) (by decide) located
  · exact ⟨_, [], by rw [artifacts, if_pos wanted], by rintro _ ⟨⟩⟩

theorem Wants.noSlash {path : String} (wants : Wants args path) :
    FileTree.endsInSlash path = false := by
  rcases wants with ⟨-, rfl⟩ | ⟨-, rfl⟩ <;> decide

/-- What assembles is no directory. -/
theorem exists_find_of_assemble {path : String}
    (assembled : (Source.file path).assemble files = .ok assembly) :
    ∃ node, files.find path = .ok node ∧ node ≠ .directory := by
  cases found : files.find path with
  | error e =>
    rw [Source.assemble, Source.feed, FileTree.read, found] at assembled
    cases assembled
  | ok node =>
    refine ⟨node, rfl, ?_⟩
    rintro rfl
    have unread : files.read path = .ok ⟨.empty, some .isADirectory⟩ := by
      rw [FileTree.read, found]
      rfl
    have bad : Assembly.ofFeed (Stream.feed ⟨.empty, some .isADirectory⟩) =
        .error (.read .isADirectory) := by
      decide +kernel
    rw [Source.assemble, Source.feed, unread] at assembled
    exact absurd (bad.symm.trans assembled) (by rintro ⟨⟩)

end

/-- The path of a regular file does not end in a slash. -/
theorem noSlash_of_find {files : FileTree} {path : String} {place : Place} {node : Node}
    {content : ByteArray} (found : files.find path = .ok node)
    (located : files.locate path = .ok place) (regular : files.node? place = some (.file content)) :
    FileTree.endsInSlash path = false := by
  rw [FileTree.find_of_locate located, regular] at found
  by_contra slash
  rw [Bool.not_eq_false] at slash
  rw [slash] at found
  cases found

/-- What becomes of the files, and of the source in particular, when it is assembled without a path
that was chosen for the image. -/
structure Treats (args : AssemblerArguments) (before after : FileTree) : Prop where
  /-- a source that does not assemble leaves all files -/
  failed : ∀ e, (Source.file args.input).assemble before = .error e → after = before
  /-- neither does anything change if there is no writing the image: a regular file has room, so
  what fails is to create it, or it is a full device -/
  unwritten : ∀ assembly e, (Source.file args.input).assemble before = .ok assembly →
    (saveText before (imagePath args) assembly.image).1 = .error e → after = before
  /-- nothing changes but the image and what is wanted -/
  elsewhere : ∀ place, before.locate (imagePath args) ≠ .ok place →
    (∀ path, Wants args path → before.locate path ≠ .ok place) →
    after.node? place = before.node? place
  /-- the source is kept, unless it has the path of its image or is where an artifact goes -/
  kept : imagePath args ≠ args.input →
    (∀ path place, Wants args path → before.locate path = .ok place →
      before.locate args.input ≠ .ok place) →
    after.read args.input = before.read args.input
  /-- a source with an ordinary name has the path of its image just if its extension is that of
  images, except for `..i`, of which only `..` is left when it is exchanged -/
  samePath_iff : ∀ directory name, PathName.EndsIn directory name args.input →
    (imagePath args = args.input ↔
      PathName.extension? args.input = some "i" ∧ name ≠ ['.', '.', 'i'])
  /-- a source that has the path of its image becomes its image, unless an artifact follows -/
  becomesImage : ∀ assembly place content, (Source.file args.input).assemble before = .ok assembly →
    before.locate args.input = .ok place → before.node? place = some (.file content) →
    imagePath args = args.input → (∀ path, Wants args path → before.locate path ≠ .ok place) →
    after.read args.input = .ok (.ofText assembly.image)
  /-- a source where an artifact goes becomes this artifact, if there is an image -/
  becomesArtifact : ∀ assembly place content path text,
    (Source.file args.input).assemble before = .ok assembly →
    before.locate args.input = .ok place → before.node? place = some (.file content) →
    (saveText before (imagePath args) assembly.image).1 = .ok () →
    (path, text) ∈ artifacts args assembly → before.locate path = .ok place →
    after.read args.input = .ok (.ofText text)

theorem imagePath_eq {args : AssemblerArguments} (unchosen : args.output = none) :
    imagePath args = PathName.withExtension args.input "i" := by
  rw [imagePath, unchosen, Option.getD_none]

theorem imagePath_eq_input_iff {args : AssemblerArguments} (unchosen : args.output = none)
    {directory name : List Char} (ends : PathName.EndsIn directory name args.input) :
    imagePath args = args.input ↔
      PathName.extension? args.input = some "i" ∧ name ≠ ['.', '.', 'i'] := by
  rw [imagePath_eq unchosen, PathName.withExtension_eq_self_iff ends]
  rfl

theorem treats_written {args : AssemblerArguments} {before : FileTree} {assembly : Assembly}
    (unchosen : args.output = none)
    (assembled : (Source.file args.input).assemble before = .ok assembly) :
    Treats args before (written args before assembly) := by
  obtain ⟨node, found, noDirectory⟩ := exists_find_of_assemble assembled
  have alike := leadsAlike_written args before assembly
  have becomes {place : Place} {content : ByteArray} {text : String}
      (located : before.locate args.input = .ok place)
      (regular : before.node? place = some (.file content))
      (holds : (written args before assembly).node? place = some (.file text.toUTF8)) :
      (written args before assembly).read args.input = .ok (.ofText text) := by
    have noSlash := noSlash_of_find found located regular
    rw [FileTree.read, FileTree.find_of_node ((alike _ _).mpr located) noSlash holds]
    rfl
  constructor
  case failed =>
    intro e bad
    cases bad.symm.trans assembled
  case unwritten =>
    intro assembly' e assembled' fails
    obtain rfl : assembly = assembly' := Except.ok.inj (assembled.symm.trans assembled')
    exact written_eq_self fails
  case elsewhere => exact fun place image artifacts => node?_written assembly image artifacts
  case kept =>
    intro apart artifacts
    obtain ⟨place, located, -⟩ := except_bind_eq_ok_iff.mp found
    refine alike.read_eq located (node?_written assembly ?_ ?_)
    · intro image
      rw [imagePath_eq unchosen] at image apart
      exact apart (FileTree.withExtension_eq_of_locate found noDirectory (by decide) located image)
    · exact fun path wants there => artifacts path place wants there located
  case samePath_iff => exact fun _ _ ends => imagePath_eq_input_iff unchosen ends
  case becomesImage =>
    intro assembly' place content assembled' located regular same others
    obtain rfl : assembly = assembly' := Except.ok.inj (assembled.symm.trans assembled')
    have noSlash := noSlash_of_find found located regular
    refine becomes located regular ?_
    rw [← same] at located noSlash
    have saved := (FileTree.saveText_of_file regular located noSlash assembly.image).1
    rw [written_eq_saveAll saved, ← List.nil_append (_ :: _)]
    exact FileTree.node?_saveAll_of_last regular located noSlash
      fun entry mem => others entry.1 (wants_of_mem mem)
  case becomesArtifact =>
    intro assembly' place content path text assembled' located regular saved mem leads
    obtain rfl : assembly = assembly' := Except.ok.inj (assembled.symm.trans assembled')
    obtain ⟨first, rest, split, others⟩ := exists_split_of_mem_artifacts mem leads
    refine becomes located regular ?_
    rw [written_eq_saveAll saved, split, ← List.cons_append]
    exact FileTree.node?_saveAll_of_last regular leads (wants_of_mem mem).noSlash others

theorem treats_self {args : AssemblerArguments} {files : FileTree} {e : AssemblyError}
    (unchosen : args.output = none)
    (bad : (Source.file args.input).assemble files = .error e) : Treats args files files where
  failed _ _ := rfl
  unwritten _ _ _ _ := rfl
  elsewhere _ _ _ := rfl
  kept _ _ := rfl
  samePath_iff _ _ ends := imagePath_eq_input_iff unchosen ends
  becomesImage _ _ _ assembled := absurd (bad.symm.trans assembled) (by rintro ⟨⟩)
  becomesArtifact _ _ _ _ _ assembled := absurd (bad.symm.trans assembled) (by rintro ⟨⟩)

/-- **When the assembler overwrites its source.** Without a path that was chosen for the image, the
source is kept if it does not assemble or if there is no writing its image, and else unless its path
is that of the image or leads to where a symbol table or line map goes. In these cases it becomes
what is written there last. A command line that means this does this. -/
theorem source_overwritten {args : AssemblerArguments} (unchosen : args.output = none)
    (shell : Shell) :
    Treats args shell.files (assemble args shell).2.files ∧
      ∀ commandLine given, grammar.read commandLine = .given given → arguments given = args →
        Treats args shell.files (main commandLine shell).2.files := by
  have treats : Treats args shell.files (assemble args shell).2.files := by
    rw [leaves_assemble _ _ shell rfl]
    cases assembled : (Source.file args.input).assemble shell.files with
    | error e => exact treats_self unchosen assembled
    | ok assembly => exact treats_written unchosen assembled
  refine ⟨treats, ?_⟩
  rintro commandLine given reads rfl
  rw [main, reads]
  exact treats

/-- Three sources, where two have names that the assembler writes to. -/
def desk : Shell :=
  ⟨⟨[(["prog.ftnt"], .file "halt".toUTF8), (["prog.i"], .file "top: out".toUTF8),
    (["symbols.txt"], .file "main: halt\n".toUTF8)], []⟩, #[]⟩

/-- The first is kept, though all is wanted of it, and the second becomes its image. -/
theorem source_overwritten_desk :
    (main ["--sym", "--lines", "prog.ftnt"] desk).2.files.read "prog.ftnt" =
        desk.files.read "prog.ftnt" ∧
      (assemble ⟨"prog.i", none, false, false, true⟩ desk).2.files.read "prog.i" =
        .ok (.ofText "21\n") := by
  constructor
  · have treats := (@source_overwritten ⟨"prog.ftnt", none, true, true, false⟩ rfl desk).2
      ["--sym", "--lines", "prog.ftnt"]
      [("sym", ""), ("lines", ""), ("input", "prog.ftnt")] rfl rfl
    have source : desk.files.locate "prog.ftnt" = .ok ["prog.ftnt"] := by decide +kernel
    have apart : ∀ path ∈ [symbolsFile, lineMapFile],
        desk.files.locate path ≠ .ok ["prog.ftnt"] := by
      decide +kernel
    refine treats.kept (by decide +kernel) ?_
    rintro path place wants located located'
    cases source.symm.trans located'
    refine apart path ?_ located
    rcases wants with ⟨-, rfl⟩ | ⟨-, rfl⟩ <;> simp
  · have treats := (@source_overwritten ⟨"prog.i", none, false, false, true⟩ rfl desk).1
    have assembled : (Source.file "prog.i").assemble desk.files =
        .ok ⟨[21], ⟨[("top", ⟨0, 1⟩)]⟩, ⟨[(0, 1)]⟩⟩ := by
      decide +kernel
    have image := treats.becomesImage _ ["prog.i"] _ assembled (by decide +kernel) rfl
      (by decide +kernel) (by rintro _ (⟨⟨⟩, -⟩ | ⟨⟨⟩, -⟩))
    have text : Assembly.image ⟨[21], ⟨[("top", ⟨0, 1⟩)]⟩, ⟨[(0, 1)]⟩⟩ = "21\n" := by
      decide +kernel
    rw [text] at image
    exact image

/-- Not every source is kept. One with the name of the symbol table becomes its own symbol table,
before it is read once more for the listing. -/
theorem source_lost :
    ¬∀ (commandLine : List String) (given : Given) (shell : Shell),
      grammar.read commandLine = .given given → (arguments given).output = none →
        (main commandLine shell).2.files.read (arguments given).input =
          shell.files.read (arguments given).input := by
  intro all
  have same := all ["--sym", "--dump", "symbols.txt"]
    [("sym", ""), ("dump", ""), ("input", "symbols.txt")] desk rfl rfl
  have bytes := congrArg (Except.map fun stream : Stream => stream.bytes.data) same
  exact absurd bytes (by decide +kernel)

end Assembler

end Stackwright
