import Stackwright.Proofs.OnTrack

/-!
# Straight programs

A program of straight instructions runs from its first word to its last. It ends there at the
latest, because memory goes on with zeros, and zero is the code for halting. That the stack could
come down on the program or on this zero is the one danger. Each instruction makes the stack longer
by one word at most, so it is enough to have room for as many words as there are instructions that
put a word on the stack and take none off it.

The machine is on track from statement to statement (`PassesTo`), until it comes to a halt
instruction or to the end of the program, or until an instruction goes wrong (`exists_stop`). So
there are few ways for a run to end, and there is no other (`straight_stops`).
-/

namespace Stackwright

open Layout

namespace Machine

variable {m m' : Machine}

theorem Executes.trans {j k : Nat} {m₁ : Machine} (h : Executes j m m₁)
    (h' : Executes k m₁ m') : Executes (j + k) m m' := by
  induction h with
  | refl => rwa [Nat.zero_add]
  | next first _ ih =>
    rw [Nat.add_right_comm]
    exact .next first (ih h')

section Runs

variable {config : MachineConfig} {tokens : List Token} {assembly : Assembly}
  {pieces done todo : List Piece}

/-- The instructions among the pieces `before` are executed, none of which halts the machine, and
then it is on track at the pieces `after`. -/
structure PassesTo (config : MachineConfig) (code : List Word) (done before after : List Piece)
    (m m' : Machine) : Prop where
  goesOn : ∀ p ∈ before, ¬ p.statement.Halts
  executes : Executes (emitting (before.map Piece.toSourceStatement)) m m'
  onTrack : OnTrack config code (program (done ++ before)).length
    (raising (after.map Piece.toSourceStatement)) m'

theorem PassesTo.cons {code : List Word} {before after : List Piece} {m₁ : Machine} {p : Piece}
    (goesOn : ¬ p.statement.Halts)
    (first : Executes (emitting ([p].map Piece.toSourceStatement)) m m₁)
    (h : PassesTo config code (done ++ [p]) before after m₁ m') :
    PassesTo config code done (p :: before) after m m' := by
  refine ⟨List.forall_mem_cons.mpr ⟨goesOn, h.goesOn⟩, ?_, ?_⟩
  · have count : emitting ((p :: before).map Piece.toSourceStatement) =
        emitting ([p].map Piece.toSourceStatement) +
          emitting (before.map Piece.toSourceStatement) := by
      rw [emitting, emitting, emitting, ← List.countP_append, ← List.map_append,
        List.singleton_append]
    rw [count]
    exact first.trans h.executes
  · rw [List.append_cons]
    exact h.onTrack

/-- A run keeps on track until it comes to the first halt instruction or to the end of the program,
or until an instruction goes wrong. -/
theorem exists_stop (layout : IsLayout tokens assembly pieces) (split : pieces = done ++ todo)
    (straight : ∀ p ∈ todo, p.statement.Straight)
    (h : OnTrack config assembly.program (program done).length
      (raising (todo.map Piece.toSourceStatement)) m) :
    ∃ before after m₁, todo = before ++ after ∧
      PassesTo config assembly.program done before after m m₁ ∧
      ((∀ p ∈ after.head?, p.statement.Halts) ∨
        ∃ p rest op operands fault m', after = p :: rest ∧
          p.statement = .instruction op operands ∧ step m₁ = .error (.fault fault) m') := by
  induction todo generalizing done m with
  | nil =>
    rw [← List.append_nil done] at h
    exact ⟨[], [], m, rfl, ⟨by simp, .refl, h⟩, .inl (by simp)⟩
  | cons p rest ih =>
    obtain ⟨here, later⟩ := List.forall_mem_cons.mp straight
    have mem : p ∈ pieces := split ▸ List.mem_append_right _ List.mem_cons_self
    have split' : pieces = (done ++ [p]) ++ rest := by rw [split, List.append_cons]
    have stay : PassesTo config assembly.program done [] (p :: rest) m m := by
      refine ⟨by simp, .refl, ?_⟩
      rwa [List.append_nil]
    have place : (program (done ++ [p])).length = (program done).length + p.words.length := by
      rw [program_append, List.length_append, program_cons]
      simp [program]
    cases kind : p.statement with
    | data operand =>
      rw [kind] at here
      exact here.elim
    | label name =>
      have empty := words_eq_nil (layout.written p mem) (by rw [kind]; rfl)
      have h' : OnTrack config assembly.program (program (done ++ [p])).length
          (raising (rest.map Piece.toSourceStatement)) m := by
        rw [List.map_cons, raising_cons, kind] at h
        rw [place, empty]
        exact h
      obtain ⟨before, after, m₁, rfl, passes, stops⟩ := ih split' later h'
      have nothing : emitting ([p].map Piece.toSourceStatement) = 0 := by
        simp [emitting, kind, Statement.emits]
      exact ⟨p :: before, after, m₁, rfl, .cons (by rw [kind]; exact id) (nothing ▸ .refl) passes,
        stops⟩
    | instruction op operands =>
      by_cases halt : op = .halt
      · refine ⟨[], p :: rest, m, rfl, stay, .inl fun q next => ?_⟩
        obtain rfl := Option.some.inj next
        rw [kind]
        exact halt
      · obtain ⟨arguments, words, count, -⟩ := layout.words_instruction mem kind
        have ahead : op.code :: arguments <+:
            (assembly.program ++ [0]).drop (program done).length :=
          words ▸ layout.words_prefix (List.take_left' rfl) split
        cases stepped : step m with
        | error e m' =>
          obtain ⟨fault, rfl⟩ := exists_fault_of_step h.active stepped
          exact ⟨[], p :: rest, m, rfl, stay,
            .inr ⟨p, rest, op, operands, fault, m', rfl, kind, stepped⟩⟩
        | ok executed m' =>
          have h' : OnTrack config assembly.program (program (done ++ [p])).length
              (raising (rest.map Piece.toSourceStatement)) m' := by
            rw [List.map_cons, raising_cons, kind] at h
            rw [kind] at here
            rw [place, words, List.length_cons, count, Nat.add_comm _ 1]
            exact h.step here halt count ahead (Nat.le_refl _) stepped
          obtain ⟨before, after, m₁, rfl, passes, stops⟩ := ih split' later h'
          have one : emitting ([p].map Piece.toSourceStatement) = 1 := by
            simp [emitting, kind, Statement.emits]
          exact ⟨p :: before, after, m₁, rfl,
            .cons (by rw [kind]; exact halt) (one ▸ .next stepped .refl) passes, stops⟩

/-- At the end of the program, as at a halt instruction, there is the code for halting. -/
theorem halt_ahead (layout : IsLayout tokens assembly pieces) (split : pieces = done ++ todo)
    (stops : ∀ p ∈ todo.head?, p.statement.Halts) :
    [Opcode.halt.code] <+: (assembly.program ++ [0]).drop (program done).length := by
  cases todo with
  | nil =>
    rw [List.append_nil] at split
    rw [layout.program_eq, split, List.drop_left]
    exact List.prefix_rfl
  | cons p rest =>
    have halts := stops p rfl
    cases kind : p.statement with
    | instruction op operands =>
      rw [kind] at halts
      obtain rfl : op = .halt := halts
      have mem : p ∈ pieces := split ▸ List.mem_append_right _ List.mem_cons_self
      obtain ⟨arguments, words, count, -⟩ := layout.words_instruction mem kind
      obtain rfl := List.length_eq_zero_iff.mp count
      exact words ▸ layout.words_prefix (List.take_left' rfl) split
    | label name => rw [kind] at halts; exact halts.elim
    | data operand => rw [kind] at halts; exact halts.elim

/-- A machine with enough memory is on track when a program has been loaded. -/
theorem onTrack_holding {code : List Word} {room : Nat} (order : Invariant config m)
    (enough : code.length + 1 + room ≤ config.capacity) :
    OnTrack config code 0 room (m.holding code) := by
  have fits : code.length ≤ config.capacity := by omega
  have holds : Invariant config (m.holding code) :=
    .holding order.config_eq order.capacity_eq fits (by rintro ⟨⟩)
  refine ⟨holds, .inl rfl, rfl, ?_, ?_⟩
  · obtain ⟨n, more⟩ : ∃ n, m.memory.capacity - code.length = n + 1 := by
      rw [order.capacity_eq]
      exact Nat.exists_eq_add_one.mpr (by omega)
    refine ⟨List.replicate n 0, ?_⟩
    have cells := Memory.toList_holding (order.capacity_eq.symm ▸ fits)
    simp only [holding]
    rw [cells, more, List.replicate_succ, List.append_assoc]
    rfl
  · have sp := (holds.unstarted (.inr rfl)).sp_eq
    have size : (m.holding code).capacity = config.capacity := holds.capacity_eq
    omega

end Runs

/-- How the run of a straight program ends. -/
inductive StopsStraight (feed : Feed) (assembly : Assembly) (run : Run Unit) : Prop where
  /-- it halts at the first halt instruction, or at the end of the program if there is none -/
  | halts {before after : List SourceStatement} (split : feed.statements = before ++ after)
    (goesOn : ∀ s ∈ before, ¬ s.statement.Halts) (stops : ∀ s ∈ after.head?, s.statement.Halts)
    (ending : run.ending = .halted) (status_eq : run.machine.status = .halted)
    (steps_eq : run.machine.steps = emitting before + 1)
    (pc_eq : run.machine.pc = assembly.startOf (emitting before) + 1)
  /-- an instruction before finds too few words on the stack, divides by zero, or loads from an
  address outside memory -/
  | faults {before after : List SourceStatement} {op : Opcode} {operands : List Operand}
    {line : Nat} {trap : Trap}
    (split : feed.statements = before ++ ⟨.instruction op operands, line⟩ :: after)
    (goesOn : ∀ s ∈ before, ¬ s.statement.Halts)
    (ending : run.ending = .failed (.fault ⟨trap, assembly.startOf (emitting before)⟩))
    (steps_eq : run.machine.steps = emitting before)
    (reason : trap = .stackUnderflow ∨ (op.Divides ∧ trap = .divideByZero) ∨
      ∃ address, op = .load ∧ trap = .outOfBounds address ∧ ¬ run.machine.memory.Contains address)

namespace StopsStraight

variable {feed : Feed} {assembly : Assembly} {r : Run Unit}

/-- No instruction is executed twice, and one more at most than there are in the source. -/
theorem steps_le (h : StopsStraight feed assembly r) :
    r.machine.steps ≤ emitting feed.statements + 1 := by
  cases h with
  | halts split _ _ _ _ steps_eq _ =>
    rw [split, emitting, List.countP_append]
    exact steps_eq.trans_le (Nat.succ_le_succ (Nat.le_add_right _ _))
  | faults split _ _ steps_eq _ =>
    rw [split, emitting, List.countP_append]
    exact steps_eq.trans_le (Nat.le_succ_of_le (Nat.le_add_right _ _))

/-- The machine always finds an instruction. -/
theorem finds_instruction (h : StopsStraight feed assembly r) {fault : Fault}
    (failed : r.ending = .failed (.fault fault)) :
    (∀ w, fault.trap ≠ .invalidOpcode w) ∧ ∀ address, fault.trap ≠ .fetchOutOfBounds address := by
  cases h with
  | halts _ _ _ ending _ _ _ =>
    rw [ending] at failed
    cases failed
  | faults _ _ ending _ reason =>
    rw [ending] at failed
    cases failed
    rcases reason with rfl | ⟨-, rfl⟩ | ⟨address, -, rfl, -⟩ <;> simp

end StopsStraight

section Stops

variable {config : MachineConfig} {feed : Feed} {tokens : List Token} {assembly : Assembly}
  {pieces before after : List Piece} {m₁ : Machine} {fuel : Nat}
  (layout : IsLayout tokens assembly pieces)
  (statements : feed.statements = pieces.map Piece.toSourceStatement)
  (unlimited : config.maxSteps = none) (active : m.Active) (fresh : m.steps = 0)
  (split : pieces = before ++ after)
  (passes : PassesTo config assembly.program [] before after m m₁)
  (enough : emitting feed.statements < fuel)

include statements split enough in
theorem emitting_before_lt : emitting (before.map Piece.toSourceStatement) < fuel := by
  rw [statements, split, emitting, List.map_append, List.countP_append] at enough
  exact Nat.lt_of_le_of_lt (Nat.le_add_right _ _) enough

include layout split passes in
theorem pc_eq_startOf :
    m₁.pc = assembly.startOf (emitting (before.map Piece.toSourceStatement)) := by
  rw [layout.startOf_emitting split]
  exact Word.eq_ofNat passes.onTrack.pc_eq

include passes in
theorem goesOn_of_passes : ∀ s ∈ before.map Piece.toSourceStatement, ¬ s.statement.Halts :=
  List.forall_mem_map.mpr passes.goesOn

include layout statements unlimited fresh split passes enough

include active in
/-- Where the run comes to a halt instruction or to the end of the program, there it halts. -/
theorem stops_of_halt (stops : ∀ p ∈ after.head?, p.statement.Halts) :
    StopsStraight feed assembly (runFrom fuel m () #[]) ∧
      assembly.program ++ [0] <+: (runFrom fuel m () #[]).machine.memory.cells.toList := by
  have less := emitting_before_lt statements split enough
  obtain ⟨executed, m', stepped, halted, pc, memory⟩ :=
    passes.onTrack.halts unlimited (halt_ahead layout split stops)
  have executes := passes.executes.trans (.next stepped .refl)
  obtain ⟨ending, machine⟩ := runFrom_of_halted executes active halted less () #[]
  have split' : feed.statements =
      before.map Piece.toSourceStatement ++ after.map Piece.toSourceStatement := by
    rw [statements, split, List.map_append]
  have stops' : ∀ s ∈ (after.map Piece.toSourceStatement).head?, s.statement.Halts := by
    rw [List.head?_map]
    rintro s here
    obtain ⟨p, next, rfl⟩ := Option.map_eq_some_iff.mp here
    exact stops p next
  refine ⟨.halts split' (goesOn_of_passes passes) stops' ending ?_ ?_ ?_, ?_⟩
  · rw [machine, halted]
  · rw [machine, executes.steps_eq.1, fresh, Nat.zero_add]
  · rw [machine, Word.eq_ofNat pc, layout.startOf_emitting split]
    exact (Word.ofNat_add _ 1).symm
  · rw [machine, memory]
    exact passes.onTrack.holds

/-- Where an instruction goes wrong, there the run ends. -/
theorem stops_of_fault (straight : ∀ p ∈ after, p.statement.Straight) {p : Piece}
    {rest : List Piece} {op : Opcode} {operands : List Operand} {fault : Fault}
    (next : after = p :: rest) (kind : p.statement = .instruction op operands)
    (failed : step m₁ = .error (.fault fault) m') :
    StopsStraight feed assembly (runFrom fuel m () #[]) ∧
      assembly.program ++ [0] <+: (runFrom fuel m () #[]).machine.memory.cells.toList := by
  have less := emitting_before_lt statements split enough
  have place := pc_eq_startOf layout split passes
  subst next
  have mem : p ∈ pieces := split ▸ List.mem_append_right _ List.mem_cons_self
  obtain ⟨arguments, words, count, -⟩ := layout.words_instruction mem kind
  have here : op.code :: arguments <+:
      (assembly.program ++ [0]).drop (program before).length :=
    words ▸ layout.words_prefix (List.take_left' rfl) split
  have isStraight : op.Straight := by
    have this := straight p List.mem_cons_self
    rwa [kind] at this
  obtain ⟨pc, reason⟩ := passes.onTrack.reason_of_fault unlimited isStraight count here failed
  obtain ⟨ending, machine⟩ := runFrom_of_fault passes.executes failed less () #[]
  obtain ⟨trap, address⟩ := fault
  obtain rfl : address = m₁.pc := pc
  obtain ⟨pc', sp', -, -, moved, -⟩ :=
    exists_moved_on_of_fault passes.onTrack.order.bounded failed
  have isHere : p.toSourceStatement = ⟨.instruction op operands, p.line⟩ := by rw [← kind]
  have split' : feed.statements = before.map Piece.toSourceStatement ++
      ⟨.instruction op operands, p.line⟩ :: rest.map Piece.toSourceStatement := by
    rw [statements, split, List.map_append, List.map_cons, isHere]
  rw [place] at ending
  refine ⟨.faults split' (goesOn_of_passes passes) ending ?_ ?_, ?_⟩
  · rw [machine, moved]
    exact passes.executes.steps_eq.1.trans (by rw [fresh, Nat.zero_add])
  · rw [machine, moved]
    exact reason
  · rw [machine, moved]
    exact passes.onTrack.holds

end Stops

/-- **Straight programs stop.** A program without jumps, calls, returns, stores and words of data is
loaded into a machine with room for the program, a zero and a word for each instruction that puts
one on the stack and takes none off it. Then a run without a limit on the number of steps executes
no instruction twice, and one more than there are at most. It halts or fails for want of what an
instruction needs, never for want of an instruction, and leaves the program as it was. -/
theorem straight_stops {feed : Feed} {assembly : Assembly}
    (assembled : Assembly.ofFeed feed = .ok assembly)
    (straight : ∀ s ∈ feed.statements, s.statement.Straight) {capacity K : Nat}
    (few : raising feed.statements ≤ K) (room : assembly.program.length + 1 + K ≤ capacity)
    (reachable : Reachable ⟨capacity, none⟩ m) (loadable : m.Loadable) {fuel : Nat}
    (enough : emitting feed.statements < fuel) :
    ∃ loaded, load assembly.program m = .ok () loaded ∧
      StopsStraight feed assembly (run fuel loaded) ∧
      (run fuel loaded).machine.steps ≤ emitting feed.statements + 1 ∧
      assembly.program ++ [0] <+: (run fuel loaded).machine.memory.cells.toList ∧
      ∀ fault, (run fuel loaded).ending = .failed (.fault fault) →
        (∀ w, fault.trap ≠ .invalidOpcode w) ∧
          ∀ address, fault.trap ≠ .fetchOutOfBounds address := by
  obtain ⟨tokens, tokenized, assembled⟩ := except_bind_eq_ok_iff.mp assembled
  obtain ⟨pieces, layout⟩ := exists_layout assembled
  have statements := layout.statements_eq tokenized
  rw [statements] at straight few
  have straight : ∀ p ∈ pieces, p.statement.Straight :=
    fun p mem => straight _ (List.mem_map_of_mem mem)
  have order := reachable.invariant
  have start : OnTrack ⟨capacity, none⟩ assembly.program (program ([] : List Piece)).length
      (raising (pieces.map Piece.toSourceStatement)) (m.holding assembly.program) :=
    onTrack_holding order (by dsimp only; omega)
  have fits : assembly.program.length ≤ m.capacity := by
    have size : m.capacity = capacity := order.capacity_eq
    omega
  refine ⟨_, load_eq_ok loadable fits, ?_⟩
  rw [run_of_loaded rfl]
  obtain ⟨before, after, m₁, rfl, passes, stops⟩ :=
    exists_stop layout (List.nil_append pieces).symm straight start
  obtain ⟨stopsStraight, holds⟩ : _ ∧ _ := by
    rcases stops with stops | ⟨p, rest, op, operands, fault, m', next, kind, failed⟩
    · exact stops_of_halt layout statements rfl (.inl rfl) rfl rfl passes enough stops
    · have ahead := (List.forall_mem_append.mp straight).2
      exact stops_of_fault layout statements rfl rfl rfl passes enough ahead next kind
        failed
  exact ⟨stopsStraight, stopsStraight.steps_le, holds, fun fault failed =>
    stopsStraight.finds_instruction failed⟩

/-- A source without a halt instruction, that writes out the square of a number. -/
def squaring : Feed := ⟨["push 6", "dup", "square: mul", "out"], none⟩

/-- What it assembles to. -/
def squaringAssembly : Assembly where
  program := [1, 6, 3, 7, 21]
  symbols := ⟨[("square", ⟨3, 3⟩)]⟩
  lineMap := ⟨[(0, 1), (2, 2), (3, 3), (4, 4)]⟩

theorem straight_stops_squaring :
    Assembly.ofFeed squaring = .ok squaringAssembly ∧
      (∀ s ∈ squaring.statements, s.statement.Straight) ∧ raising squaring.statements ≤ 2 ∧
      squaringAssembly.program.length + 1 + 2 ≤ 8 ∧ emitting squaring.statements < 5 ∧
      ∃ loaded, load squaringAssembly.program (fresh ⟨8, none⟩) = .ok () loaded ∧
        StopsStraight squaring squaringAssembly (run 5 loaded) ∧
        (run 5 loaded).machine.steps ≤ emitting squaring.statements + 1 := by
  have assembled : Assembly.ofFeed squaring = .ok squaringAssembly := by decide +kernel
  have straight : ∀ s ∈ squaring.statements, s.statement.Straight := by decide +kernel
  have few : raising squaring.statements ≤ 2 := by decide +kernel
  have room : squaringAssembly.program.length + 1 + 2 ≤ 8 := by decide
  have enough : emitting squaring.statements < 5 := by decide +kernel
  obtain ⟨loaded, loads, stops, steps, -⟩ :=
    straight_stops assembled straight few room (.made rfl) (.inl rfl) enough
  exact ⟨assembled, straight, few, room, enough, loaded, loads, stops, steps⟩

end Machine

end Stackwright
