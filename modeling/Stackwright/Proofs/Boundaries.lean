import Stackwright.Proofs.Control
import Stackwright.Proofs.Labels
import Stackwright.Proofs.Reachable

/-!
# Instruction boundaries

The assembler lays statements out one after the other, by the operands that they are written
with. The machine knows nothing of statements: it fetches as many words as it finds an
operation to need. They agree on where instructions begin and end. A machine that is at the
start of an instruction of the source executes this instruction, and is at the start of the
next one then, or of the one that the source says (`step_of_instruction`).

Where statements start is taken from the line map, which has an entry for each statement
that puts words into memory.
-/

namespace Stackwright

open Layout

/-! ## Statements and the line map -/

/-- The good statements of a source. A source that assembles has no others. -/
def Feed.statements (feed : Feed) : List SourceStatement :=
  match tokenize feed with
  | .ok tokens => (Statement.parse tokens).filterMap Except.toOption
  | .error _ => []

/-- How many of the statements put words into memory. -/
def emitting (statements : List SourceStatement) : Nat :=
  statements.countP (·.statement.emits)

/-- The start of the statement that comes after `n` others that put words into memory, and
does so itself. If there is none this is the end of the program. -/
def Assembly.startOf (assembly : Assembly) (n : Nat) : Word :=
  match assembly.lineMap.entries[n]? with
  | some (address, _) => address
  | none => Word.ofNat assembly.program.length

/-- Whether `before` are the statements in front of the definition of a label. -/
def Feed.Defines (feed : Feed) (name : String) (before : List SourceStatement) : Prop :=
  ∃ line after, feed.statements = before ++ ⟨.label name, line⟩ :: after

/-- As many pieces are emitted as put words into memory. -/
theorem length_emitted (address : Nat) (pieces : List Piece) :
    ((placedFrom address pieces).filterMap emitted?).length =
      emitting (pieces.map Piece.toSourceStatement) := by
  induction pieces generalizing address with
  | nil => rfl
  | cons p rest ih =>
    rw [filterMap_placedFrom_cons, List.length_append, ih, List.map_cons, emitting, emitting,
      List.countP_cons, Nat.add_comm]
    unfold emitted?
    cases p.statement.emits <;> rfl

/-- The emitted pieces come from the lines of the statements that put words into memory. -/
theorem lines_emitted (address : Nat) (pieces : List Piece) :
    ((placedFrom address pieces).filterMap emitted?).map (·.line) =
      ((pieces.map Piece.toSourceStatement).filter (·.statement.emits)).map (·.line) := by
  induction pieces generalizing address with
  | nil => rfl
  | cons p rest ih =>
    rw [filterMap_placedFrom_cons, List.map_append, ih, List.map_cons, List.filter_cons]
    unfold emitted?
    cases p.statement.emits <;> rfl

variable {symbols : SymbolTable}

/-- The first piece that is emitted starts where the pieces start, since labels have no words. -/
theorem head?_emitted (address : Nat) {pieces : List Piece}
    (written : ∀ p ∈ pieces, p.Written symbols) :
    match ((placedFrom address pieces).filterMap emitted?).head? with
    | some e => e.address = address
    | none => program pieces = [] := by
  induction pieces with
  | nil => rfl
  | cons p rest ih =>
    obtain ⟨here, later⟩ := List.forall_mem_cons.mp written
    rw [filterMap_placedFrom_cons]
    cases emits : p.statement.emits with
    | true =>
      simp only [emitted?, emits]
      rfl
    | false =>
      have empty := words_eq_nil here emits
      have next := ih later
      rw [program_cons, empty]
      simp only [emitted?, emits]
      exact next

namespace IsLayout

variable {feed : Feed} {tokens : List Token} {assembly : Assembly} {pieces : List Piece}

/-- The pieces are the statements of the source. -/
theorem statements_eq (layout : IsLayout tokens assembly pieces)
    (tokenized : tokenize feed = .ok tokens) :
    feed.statements = pieces.map Piece.toSourceStatement := by
  unfold Feed.statements
  rw [tokenized]
  dsimp only
  rw [layout.parse_eq, List.filterMap_map, ← List.filterMap_eq_map]
  rfl

/-- Each statement that puts words into memory starts where the words before it end. -/
theorem startOf_emitting (layout : IsLayout tokens assembly pieces)
    {before after : List Piece} (split : pieces = before ++ after) :
    assembly.startOf (emitting (before.map Piece.toSourceStatement)) =
      Word.ofNat (program before).length := by
  have written : ∀ p ∈ after, p.Written assembly.symbols := fun p mem =>
    layout.written p (split ▸ List.mem_append_right _ mem)
  have first := head?_emitted (program before).length written
  have entry : assembly.lineMap.entries[emitting (before.map Piece.toSourceStatement)]? =
      ((placedFrom (program before).length after).filterMap emitted?).head?.map Emitted.entry := by
    rw [layout.lineMap_eq, split, placedFrom_append, List.filterMap_append, Nat.zero_add]
    rw [List.getElem?_map, ← length_emitted 0, List.getElem?_append_right (Nat.le_refl _),
      Nat.sub_self, List.head?_eq_getElem?]
  unfold Assembly.startOf
  rw [entry]
  cases head : ((placedFrom (program before).length after).filterMap emitted?).head? with
  | some e =>
    rw [head] at first
    exact congrArg Word.ofNat first
  | none =>
    rw [head] at first
    dsimp only [Option.map]
    rw [layout.program_eq, split, program_append, first, List.append_nil]

/-- The line map has an entry for each statement that puts words into memory, in order. -/
theorem lines_lineMap (layout : IsLayout tokens assembly pieces)
    (tokenized : tokenize feed = .ok tokens) :
    assembly.lineMap.entries.map (·.2) =
      (feed.statements.filter (·.statement.emits)).map (·.line) := by
  rw [layout.statements_eq tokenized, ← lines_emitted 0, layout.lineMap_eq, List.map_map]
  rfl

/-- The statements of a source fall apart where its pieces do. -/
theorem exists_split (layout : IsLayout tokens assembly pieces)
    (tokenized : tokenize feed = .ok tokens) {before after : List SourceStatement}
    {s : SourceStatement} (here : feed.statements = before ++ s :: after) :
    ∃ before' p after', pieces = before' ++ p :: after' ∧
      before'.map Piece.toSourceStatement = before ∧ p.toSourceStatement = s := by
  rw [layout.statements_eq tokenized] at here
  obtain ⟨before', rest, rfl, first, second⟩ := List.map_eq_append_iff.mp here
  obtain ⟨p, after', rfl, isHere, -⟩ := List.map_eq_cons_iff.mp second
  exact ⟨before', p, after', rfl, first, isHere⟩

/-- The words of a statement stand in memory where it starts. -/
theorem words_prefix (layout : IsLayout tokens assembly pieces) {cells : List Word}
    (holds : cells.take assembly.program.length = assembly.program) {before after : List Piece}
    {p : Piece} (split : pieces = before ++ p :: after) :
    p.words <+: cells.drop (program before).length := by
  refine ⟨program after ++ cells.drop assembly.program.length, ?_⟩
  have cells_eq := List.take_append_drop assembly.program.length cells
  rw [holds] at cells_eq
  conv_rhs => rw [← cells_eq, layout.program_eq, split, program_append, program_cons]
  rw [List.append_assoc, List.drop_left, layout.program_eq, List.append_assoc, split,
    program_append, program_cons]

/-- A name that becomes an address is defined in the source, and it becomes the address of
what follows the definition. -/
theorem resolve_label (layout : IsLayout tokens assembly pieces)
    (tokenized : tokenize feed = .ok tokens) {name : String} {line : Nat} {w : Word}
    (resolved : (Operand.label name).resolve assembly.symbols line = .ok w) :
    (∃ before, feed.Defines name before) ∧
      ∀ before, feed.Defines name before → w = assembly.startOf (emitting before) := by
  rw [Operand.resolve, SymbolTable.address?] at resolved
  constructor
  · cases found : assembly.symbols.find? name with
    | none =>
      rw [found] at resolved
      cases resolved
    | some symbol =>
      obtain ⟨before, p, after, split, isLabel⟩ :=
        layout.exists_label (Bindings.mem_of_lookup found)
      refine ⟨before.map Piece.toSourceStatement, p.line, after.map Piece.toSourceStatement, ?_⟩
      rw [layout.statements_eq tokenized, split, List.map_append, List.map_cons, ← isLabel]
  · rintro _ ⟨line', after, defined⟩
    obtain ⟨before, p, after', split, rfl, isLabel⟩ := layout.exists_split tokenized defined
    have found := layout.find?_label split (congrArg SourceStatement.statement isLabel)
    rw [found] at resolved
    rw [layout.startOf_emitting split]
    exact (Except.ok.inj resolved).symm

/-- An instruction of the source has become its code and the words of its operands, as many
as the operation takes. -/
theorem words_instruction (layout : IsLayout tokens assembly pieces) {p : Piece} (mem : p ∈ pieces)
    {op : Opcode} {operands : List Operand} (isHere : p.statement = .instruction op operands) :
    ∃ arguments, p.words = op.code :: arguments ∧ arguments.length = op.operands.length ∧
      List.Forall₂ (fun operand w => operand.resolve assembly.symbols p.line = .ok w)
        operands arguments := by
  have wellFormed := wellFormed_of_parse layout.parse_eq p mem
  have written := layout.written p mem
  unfold Piece.Written at written
  rw [isHere] at written wellFormed
  obtain ⟨arguments, resolved, last⟩ := except_bind_eq_ok_iff.mp written
  have related := mapM_eq_ok_iff.mp resolved
  exact ⟨arguments, (Except.ok.inj last).symm, related.length_eq.symm.trans wellFormed.1, related⟩

/-- The address behind an instruction is the start of what comes next. -/
theorem startOf_next (layout : IsLayout tokens assembly pieces) {before after : List Piece}
    {p : Piece} (split : pieces = before ++ p :: after) (emits : p.statement.emits = true)
    {w : Word} (behind : w.toInt = ((program before).length + p.words.length : Nat)) :
    w = assembly.startOf (emitting (before.map Piece.toSourceStatement) + 1) := by
  have split' : pieces = (before ++ [p]) ++ after := by
    rw [split, List.append_assoc]
    rfl
  have count : emitting ((before ++ [p]).map Piece.toSourceStatement) =
      emitting (before.map Piece.toSourceStatement) + 1 := by
    simp [emitting, List.countP_append, emits]
  have length : (program (before ++ [p])).length = (program before).length + p.words.length := by
    rw [program_append, List.length_append, length_program_cons]
    rfl
  rw [← count, layout.startOf_emitting split', ← Int32.toInt_inj, layout.toInt_place split', behind,
    length]

end IsLayout

/-! ## Steps -/

/-- **Assembler and machine agree on instruction boundaries.** A machine that holds the
program and is at the start of an instruction executes this one, if it executes any. Then it
is at the start of the next statement, unless the instruction transfers control. A call leaves
the start of the next statement on the stack, and what goes to a label goes to the start of
the statement after its definition. -/
theorem Machine.step_of_instruction {feed : Feed} {assembly : Assembly}
    (assembled : Assembly.ofFeed feed = .ok assembly) {config : MachineConfig} {m m' : Machine}
    (reachable : Reachable config m)
    (holds : m.memory.cells.toList.take assembly.program.length = assembly.program)
    {before after : List SourceStatement} {op : Opcode} {operands : List Operand} {line : Nat}
    (here : feed.statements = before ++ ⟨.instruction op operands, line⟩ :: after)
    (at_start : m.pc = assembly.startOf (emitting before)) {executed : Executed}
    (stepped : step m = .ok executed m') :
    executed = ⟨m.pc, op⟩ ∧
      (¬op.Transfers m.top? → m'.pc = assembly.startOf (emitting before + 1)) ∧
      (op = .call →
        m'.stack = assembly.startOf (emitting before + 1) :: m.stack ∧
        ∃ operand, operands = [operand] ∧
          operand.resolve assembly.symbols line = .ok m'.pc) ∧
      ∀ name, operands = [.label name] → op.Transfers m.top? →
        (∃ before', feed.Defines name before') ∧
          ∀ before', feed.Defines name before' → m'.pc = assembly.startOf (emitting before') := by
  obtain ⟨tokens, tokenized, assembled⟩ := except_bind_eq_ok_iff.mp assembled
  obtain ⟨pieces, layout⟩ := exists_layout assembled
  obtain ⟨before', p, after', split, rfl, isHere⟩ := layout.exists_split tokenized here
  have isInstruction : p.statement = .instruction op operands :=
    congrArg SourceStatement.statement isHere
  have line_eq : p.line = line := congrArg SourceStatement.line isHere
  have mem : p ∈ pieces := split ▸ List.mem_append_right _ List.mem_cons_self
  obtain ⟨arguments, words, count, resolved⟩ := layout.words_instruction mem isInstruction
  rw [line_eq] at resolved
  rw [layout.startOf_emitting split] at at_start
  have ahead := layout.words_prefix holds split
  rw [words] at ahead
  have bounded := reachable.invariant.bounded
  have pc : m.pc.toInt = (program before').length := by
    rw [at_start, layout.toInt_place split]
  obtain ⟨rfl, pc', m₁, behind, acted, pc_eq, stack_eq⟩ :=
    step_of_words bounded pc count ahead stepped
  have next : pc' = assembly.startOf (emitting (before'.map Piece.toSourceStatement) + 1) := by
    refine layout.startOf_next split (by rw [isInstruction]; rfl) ?_
    rw [behind, words, List.length_cons, count, Opcode.width, Nat.add_comm 1]
  refine ⟨rfl, fun stays => ?_, ?_, ?_⟩
  · rw [pc_eq, ← next]
    exact pc_act (m := { m with status := .running, pc := pc' }) count stays acted
  · rintro rfl
    obtain ⟨target, rfl⟩ := List.length_eq_one_iff.mp count
    obtain ⟨operand, rest, resolves, noMore, rfl⟩ := List.forall₂_cons_right_iff.mp resolved
    obtain rfl := List.forall₂_nil_right_iff.mp noMore
    have called := stack_act_call (m := { m with status := .running, pc := pc' })
      (bounded.of_eq rfl rfl) acted
    refine ⟨?_, operand, rfl, ?_⟩
    · rw [stack_eq, called, ← next]
      rfl
    · have transfers : Opcode.Transfers .call m.top? := trivial
      have arrived := pc_act_of_transfers (m := { m with status := .running, pc := pc' }) rfl
        transfers acted
      rw [pc_eq, arrived]
      exact resolves
  · rintro name rfl transfers
    obtain ⟨target, rest, resolves, noMore, rfl⟩ := List.forall₂_cons_left_iff.mp resolved
    obtain rfl := List.forall₂_nil_left_iff.mp noMore
    have arrived := pc_act_of_transfers (m := { m with status := .running, pc := pc' })
      count.symm transfers acted
    rw [pc_eq, arrived]
    exact layout.resolve_label tokenized resolves

/-- A source with a call over a word of data. -/
def overData : Feed := ⟨["call there", ".word 7", "there: out"], none⟩

/-- What it assembles to. -/
def overDataAssembly : Assembly where
  program := [19, 3, 7, 21]
  symbols := ⟨[("there", ⟨3, 3⟩)]⟩
  lineMap := ⟨[(0, 1), (2, 2), (3, 3)]⟩

/-- A machine that was loaded with it. -/
def overDataMachine : Machine := after (Machine.load [19, 3, 7, 21]) (Machine.fresh ⟨6, none⟩)

theorem Machine.step_of_instruction_overData :
    Assembly.ofFeed overData = .ok overDataAssembly ∧
      step overDataMachine = .ok ⟨0, .call⟩ (after step overDataMachine) ∧
      (after step overDataMachine).stack = [overDataAssembly.startOf 1] ∧
      (after step overDataMachine).pc = overDataAssembly.startOf 2 := by
  have assembled : Assembly.ofFeed overData = .ok overDataAssembly := by decide +kernel
  have reachable : Reachable ⟨6, none⟩ overDataMachine := .load _ (.made rfl)
  have here : overData.statements = [] ++ ⟨.instruction .call [.label "there"], 1⟩ ::
      [⟨.data (.literal 7), 2⟩, ⟨.label "there", 3⟩, ⟨.instruction .out [], 3⟩] := by
    decide +kernel
  have stepped : step overDataMachine = .ok ⟨0, .call⟩ (after step overDataMachine) := rfl
  have target : overData.Defines "there"
      [⟨.instruction .call [.label "there"], 1⟩, ⟨.data (.literal 7), 2⟩] := ⟨3, _, here⟩
  obtain ⟨-, -, call, transfer⟩ :=
    step_of_instruction assembled reachable (by decide +kernel) here (by decide +kernel) stepped
  exact ⟨assembled, stepped, (call rfl).1, (transfer "there" rfl trivial).2 _ target⟩

end Stackwright
