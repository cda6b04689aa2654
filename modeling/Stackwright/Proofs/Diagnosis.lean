import Mathlib.Tactic.Push
import Stackwright.Proofs.Layout

/-!
# What is wrong with a source

A source is *sound* if each statement parses, no label is defined twice, and each label that is
used is defined somewhere. If it is not sound, then there is one error that has to be reported:

* If the source is *spoiled*, that is if a statement is malformed or defines a label again, then
  it is the error of the first statement of this kind, whatever labels are used before it.
* Otherwise a label is *dangling*, that is used but not defined, and its first use is blamed.

Nothing here looks at how sources are assembled, nor at addresses.
-/

namespace Stackwright

/-! ## Labels and operands of a source -/

/-- The label that a statement defines, with its line. -/
def SourceStatement.definition? (s : SourceStatement) : Option (String × Nat) :=
  match s.statement with
  | .label name => some (name, s.line)
  | _ => none

/-- The labels that statements define, each with the line of its definition, in order. -/
def definitions (statements : List SourceStatement) : Bindings String Nat :=
  statements.filterMap SourceStatement.definition?

/-- The operands of statements, each with the line of its statement, in order. -/
def uses (statements : List SourceStatement) : List (Operand × Nat) :=
  statements.flatMap fun s => s.statement.operands.map (·, s.line)

/-- If the operand names a label, then it is one of these. -/
def Operand.IsBound (names : List String) : Operand → Prop
  | literal _ => True
  | label name => name ∈ names

instance (names : List String) : DecidablePred (Operand.IsBound names)
  | .literal _ => inferInstanceAs (Decidable True)
  | .label name => inferInstanceAs (Decidable (name ∈ names))

/-- All statements are good, no label is defined twice, and each that is used is defined. -/
def Sound (items : List Parsed) : Prop :=
  ∃ statements : List SourceStatement,
    items = statements.map .ok ∧ (definitions statements).keys.Nodup ∧
      ∀ use ∈ uses statements, use.1.IsBound (definitions statements).keys

/-- There is a statement that is malformed or defines a label again, and this is the error of the
first. -/
inductive Spoiled (items : List Parsed) : AssemblyError → Prop where
  /-- the first is malformed -/
  | malformed {before : List SourceStatement} {e : AssemblyError} {after : List Parsed}
    (split : items = before.map .ok ++ .error e :: after)
    (distinct : (definitions before).keys.Nodup) : Spoiled items e
  /-- the first defines a label again -/
  | redefined {before : List SourceStatement} {name : String} {line first : Nat}
    {after : List Parsed} (split : items = before.map .ok ++ .ok ⟨.label name, line⟩ :: after)
    (distinct : (definitions before).keys.Nodup)
    (defined : (definitions before).lookup name = some first) :
    Spoiled items (.duplicateSymbol name line first)

/-- All statements are good and no label is defined twice, but there is an operand that names a
label defined nowhere, and this is the error of the first. -/
inductive Dangling (items : List Parsed) : AssemblyError → Prop where
  /-- the first such operand belongs to a statement on this line -/
  | use {statements : List SourceStatement} {before after : List (Operand × Nat)}
    {name : String} {line : Nat} (good : items = statements.map .ok)
    (distinct : (definitions statements).keys.Nodup)
    (split : uses statements = before ++ (.label name, line) :: after)
    (earlier : ∀ use ∈ before, use.1.IsBound (definitions statements).keys)
    (missing : name ∉ (definitions statements).keys) :
    Dangling items (.undefinedSymbol name line)

/-! ## One of the three is the case -/

theorem definitions_append (before after : List SourceStatement) :
    definitions (before ++ after) = definitions before ++ definitions after :=
  List.filterMap_append

/-- A statement after others keeps the labels apart just if it defines none of theirs. -/
theorem nodup_keys_definitions_append_iff {before : List SourceStatement} {s : SourceStatement} :
    (definitions (before ++ [s])).keys.Nodup ↔
      (definitions before).keys.Nodup ∧
        ∀ name line, s = ⟨.label name, line⟩ → (definitions before).lookup name = none := by
  rw [definitions_append]
  obtain ⟨statement, line⟩ := s
  cases statement with
  | label name =>
    have one : definitions [⟨.label name, line⟩] = [(name, line)] := rfl
    rw [one, Bindings.nodup_keys_append_iff, ← Bindings.lookup_eq_none_iff]
    refine and_congr_right fun _ => ⟨?_, fun new => new name line rfl⟩
    rintro new _ _ ⟨⟩
    exact new
  | instruction op operands =>
    have none : definitions [⟨.instruction op operands, line⟩] = [] := rfl
    rw [none, List.append_nil]
    exact (and_iff_left fun _ _ other => by cases other).symm
  | data operand =>
    have none : definitions [⟨.data operand, line⟩] = [] := rfl
    rw [none, List.append_nil]
    exact (and_iff_left fun _ _ other => by cases other).symm

/-- A source that goes on after good statements is spoiled, or it is good to its end. Each good
statement moves over to those before, until one is bad or none is left. -/
theorem spoiled_or_good (before : List SourceStatement)
    (distinct : (definitions before).keys.Nodup) (items : List Parsed) :
    (∃ e, Spoiled (before.map .ok ++ items) e) ∨
      ∃ statements : List SourceStatement, before.map .ok ++ items = statements.map .ok ∧
        (definitions statements).keys.Nodup := by
  induction items generalizing before with
  | nil => exact .inr ⟨before, List.append_nil _, distinct⟩
  | cons item after ih =>
    cases item with
    | error e => exact .inl ⟨e, .malformed rfl distinct⟩
    | ok s =>
      by_cases new : ∀ name line, s = ⟨.label name, line⟩ → (definitions before).lookup name = none
      · have longer := ih (before ++ [s]) (nodup_keys_definitions_append_iff.mpr ⟨distinct, new⟩)
        rwa [List.map_append, List.map_singleton, List.append_assoc] at longer
      · push Not at new
        obtain ⟨name, line, rfl, defined⟩ := new
        obtain ⟨first, defined⟩ := Option.ne_none_iff_exists'.mp defined
        exact .inl ⟨_, .redefined rfl distinct defined⟩

/-- Good statements without a label twice are a sound source, or a label dangles. -/
theorem sound_or_dangling {statements : List SourceStatement}
    (distinct : (definitions statements).keys.Nodup) :
    Sound (statements.map .ok) ∨ ∃ e, Dangling (statements.map .ok) e := by
  cases first : (uses statements).find? fun use =>
      ¬ use.1.IsBound (definitions statements).keys with
  | none =>
    refine .inl ⟨statements, rfl, distinct, fun use mem => ?_⟩
    simpa using List.find?_eq_none.mp first use mem
  | some use =>
    obtain ⟨operand, line⟩ := use
    obtain ⟨loose, before, after, split, earlier⟩ := List.find?_eq_some_iff_append.mp first
    cases operand with
    | literal w => simp [Operand.IsBound] at loose
    | label name =>
      refine .inr ⟨_, .use rfl distinct split (fun use mem => ?_) ?_⟩
      · simpa using earlier use mem
      · exact of_decide_eq_true loose

/-- Every source is sound or has an error. -/
theorem sound_or_error (items : List Parsed) :
    Sound items ∨ ∃ e, Spoiled items e ∨ Dangling items e := by
  rcases spoiled_or_good [] .nil items with ⟨e, spoiled⟩ | ⟨statements, good, distinct⟩
  · exact .inr ⟨e, .inl spoiled⟩
  · obtain rfl : items = statements.map .ok := good
    rcases sound_or_dangling distinct with sound | ⟨e, dangling⟩
    · exact .inl sound
    · exact .inr ⟨e, .inr dangling⟩

end Stackwright
