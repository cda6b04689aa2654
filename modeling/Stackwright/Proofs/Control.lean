import Stackwright.Proofs.Stack

/-!
# Where instructions lead

An instruction fetches all of its words first, and then the program counter is just behind
it (`fetches_eq_ok`). There it stays while the operation acts, except for the operations
that go on elsewhere: jumps, calls and returns always do, branches if they are taken
(`Opcode.Transfers`).
-/

namespace Stackwright

/-- Whether an operation goes on elsewhere than behind its instruction. A branch is taken or
not by the topmost word of the stack. -/
def Opcode.Transfers (op : Opcode) (top? : Option Word) : Prop :=
  match op with
  | .jmp | .call | .ret => True
  | .jz => ∃ w, top? = some w ∧ w = 0
  | .jnz => ∃ w, top? = some w ∧ w ≠ 0
  | _ => False

namespace Machine

variable {m m' : Machine}

/-! ## Fetching operands -/

/-- The program counter goes on by one place when a word is fetched. -/
theorem toInt_pc_next (bounded : m.Bounded) {n : Nat} (pc : m.pc.toInt = n) {w : Word}
    (there : m.memory.read m.pc = .ok w) : (m.pc + 1).toInt = (n + 1 : Nat) := by
  rw [bounded.toInt_pc_add_one (Memory.contains_of_read there), pc]
  rfl

/-- Operands are the words at the program counter, which goes on behind them. By induction on the
operands, for the program counter of each. -/
theorem fetches_eq_ok (bounded : m.Bounded) {kinds : List OperandKind} {words : List Word} {n : Nat}
    (pc : m.pc.toInt = n) (h : (kinds.mapM fun _ => fetch) m = .ok words m') :
    ∃ pc', m' = { m with pc := pc' } ∧ pc'.toInt = n + kinds.length ∧
      words.length = kinds.length ∧ words <+: m.memory.cells.toList.drop n := by
  induction kinds generalizing m words n with
  | nil =>
    cases h
    exact ⟨_, rfl, pc, rfl, List.nil_prefix⟩
  | cons kind kinds ih =>
    rw [List.mapM_cons] at h
    obtain ⟨w, m₁, fetched, h⟩ := bind_eq_ok_iff.mp h
    obtain ⟨there, rfl⟩ := fetch_eq_ok_iff.mp fetched
    obtain ⟨rest, m₂, later, last⟩ := bind_eq_ok_iff.mp h
    cases last
    obtain ⟨pc', rfl, place, length, ahead⟩ :=
      ih (m := { m with pc := m.pc + 1 }) (bounded.of_eq rfl rfl) (toInt_pc_next bounded pc there)
        later
    obtain ⟨-, here⟩ := Memory.read_eq_ok_iff.mp there
    rw [pc, Int.toNat_natCast] at here
    obtain ⟨bound, rfl⟩ := List.getElem?_eq_some_iff.mp here
    refine ⟨pc', rfl, ?_, congrArg (· + 1) length, ?_⟩
    · rw [place, List.length_cons]
      omega
    · rw [List.drop_eq_getElem_cons bound]
      exact List.cons_prefix_cons.mpr ⟨rfl, ahead⟩

/-- What is executed at the words of an instruction is this instruction: the operation acts
on the operands, with the program counter behind them. -/
theorem execute_of_words (bounded : m.Bounded) {op op' : Opcode} {operands : List Word} {n : Nat}
    (pc : m.pc.toInt = n) (count : operands.length = op.operands.length)
    (words : op.code :: operands <+: m.memory.cells.toList.drop n)
    (h : execute m = .ok op' m') :
    op' = op ∧
      ∃ pc' : Word, pc'.toInt = (n + op.width : Nat) ∧
        act op operands { m with pc := pc' } = .ok () m' := by
  obtain ⟨there, performed⟩ := execute_eq_ok_iff.mp h
  obtain ⟨rest, ahead⟩ := words
  obtain ⟨-, here⟩ := Memory.read_eq_ok_iff.mp there
  rw [pc, Int.toNat_natCast, ← Nat.add_zero n, ← List.getElem?_drop, ← ahead] at here
  obtain rfl : op = op' := Opcode.code_inj (Option.some.inj here)
  refine ⟨rfl, ?_⟩
  rw [perform_eq] at performed
  obtain ⟨fetched, m₁, fetches, acted⟩ := bind_eq_ok_iff.mp performed
  obtain ⟨pc', rfl, place, length, fetchedAhead⟩ :=
    fetches_eq_ok (m := { m with pc := m.pc + 1 }) (bounded.of_eq rfl rfl)
      (toInt_pc_next bounded pc there) fetches
  have later : operands <+: m.memory.cells.toList.drop (n + 1) := by
    rw [← List.drop_drop, ← ahead]
    exact List.prefix_append _ _
  have equal : fetched = operands :=
    (List.prefix_of_prefix_length_le fetchedAhead later (by omega)).eq_of_length (by omega)
  refine ⟨pc', ?_, equal ▸ acted⟩
  rw [place, Opcode.width]
  omega

/-- A step that succeeds at the words of an instruction executes this instruction. -/
theorem step_of_words (bounded : m.Bounded) {op : Opcode} {operands : List Word} {n : Nat}
    (pc : m.pc.toInt = n) (count : operands.length = op.operands.length)
    (words : op.code :: operands <+: m.memory.cells.toList.drop n) {executed : Executed}
    (h : step m = .ok executed m') :
    executed = ⟨m.pc, op⟩ ∧
      ∃ (pc' : Word) (m₁ : Machine), pc'.toInt = (n + op.width : Nat) ∧
        act op operands { m with status := .running, pc := pc' } = .ok () m₁ ∧
        m'.pc = m₁.pc ∧ m'.stack = m₁.stack := by
  obtain ⟨op', m₁, -, -, executes, rfl, rfl⟩ := exists_execute_of_step h
  obtain ⟨rfl, pc', behind, acted⟩ :=
    execute_of_words (m := { m with status := .running }) (bounded.of_eq rfl rfl) pc count words
      executes
  exact ⟨rfl, pc', m₁, behind, acted, rfl, rfl⟩

/-! ## Staying -/

/-- A part of an instruction does not touch the program counter. -/
def Stays {α : Type} (x : Move α) : Prop := ∀ ⦃m a m'⦄, x m = .ok a m' → m'.pc = m.pc

variable {α β : Type}

theorem stays_pure (a : α) : Stays (pure a : Move α) := by
  rintro m _ _ ⟨⟩
  rfl

theorem stays_throw (trap : Trap) : Stays (throw trap : Move α) := by
  rintro m _ _ ⟨⟩

theorem stays_bind {x : Move α} {f : α → Move β} (hx : Stays x) (hf : ∀ a, Stays (f a)) :
    Stays (x >>= f) := by
  intro m b m' h
  obtain ⟨a, m₁, first, second⟩ := bind_eq_ok_iff.mp h
  rw [hf a second, hx first]

theorem stays_push (w : Word) : Stays (push w) := by
  intro m _ m' h
  obtain ⟨-, rfl⟩ := push_eq_ok_iff.mp h
  rfl

theorem stays_pop : Stays pop := by
  intro m w m' h
  obtain ⟨-, rfl⟩ := pop_eq_ok_iff.mp h
  rfl

theorem stays_look : Stays look := by
  intro m w m' h
  obtain ⟨-, rfl⟩ := look_eq_ok_iff.mp h
  rfl

theorem stays_readCell (address : Word) : Stays (readCell address) := by
  intro m w m' h
  obtain ⟨-, rfl⟩ := readCell_eq_ok_iff.mp h
  rfl

theorem stays_writeCell (address w : Word) : Stays (writeCell address w) := by
  intro m _ m' h
  obtain ⟨-, rfl⟩ := writeCell_eq_ok_iff.mp h
  rfl

theorem stays_emitWord (w : Word) : Stays (emitWord w) := by
  rintro m _ _ ⟨⟩
  rfl

theorem stays_combine (op : BinaryOp) : Stays (combine op) := by
  refine stays_bind stays_pop fun b => stays_bind stays_pop fun a => ?_
  cases op.apply a b with
  | none => exact stays_throw _
  | some w => exact stays_push w

/-- A branch that is not taken stays, and one that is taken goes to its target. -/
theorem pc_of_branch (taken : Word → Prop) [DecidablePred taken] {target : Word}
    (h : (pop >>= fun w => if taken w then jump target else pure ()) m = .ok () m') :
    ∃ w, m.top? = some w ∧ m'.pc = if taken w then target else m.pc := by
  obtain ⟨w, m₁, popped, h⟩ := bind_eq_ok_iff.mp h
  obtain ⟨topmost, rfl⟩ := pop_eq_ok_iff.mp popped
  refine ⟨w, by rw [top?, topmost]; rfl, ?_⟩
  by_cases ht : taken w
  · rw [if_pos ht] at h ⊢
    cases h
    rfl
  · rw [if_neg ht] at h ⊢
    cases h
    rfl

/-- **What does not transfer control stays** just behind its instruction. -/
theorem pc_act {op : Opcode} {operands : List Word} (count : operands.length = op.operands.length)
    (stays : ¬op.Transfers m.top?) (h : act op operands m = .ok () m') : m'.pc = m.pc := by
  cases op with
  | halt => exact stays_pure () h
  | push =>
    obtain ⟨value, rfl⟩ := List.length_eq_one_iff.mp count
    exact stays_push value h
  | pop => exact stays_bind stays_pop (fun _ => stays_pure ()) h
  | dup => exact stays_bind stays_look stays_push h
  | swap =>
    exact stays_bind stays_pop (fun b => stays_bind stays_pop fun a =>
      stays_bind (stays_push b) fun _ => stays_push a) h
  | add => exact stays_combine .add h
  | sub => exact stays_combine .sub h
  | mul => exact stays_combine .mul h
  | div => exact stays_combine .div h
  | mod => exact stays_combine .mod h
  | eq => exact stays_combine .eq h
  | lt => exact stays_combine .lt h
  | gt => exact stays_combine .gt h
  | neg => exact stays_bind stays_pop (fun value => stays_push (-value)) h
  | jmp => exact absurd trivial stays
  | jz =>
    obtain ⟨target, rfl⟩ := List.length_eq_one_iff.mp count
    obtain ⟨w, topmost, pc⟩ := pc_of_branch (fun w => w = 0) h
    rw [pc, if_neg fun zero => stays ⟨w, topmost, zero⟩]
  | jnz =>
    obtain ⟨target, rfl⟩ := List.length_eq_one_iff.mp count
    obtain ⟨w, topmost, pc⟩ := pc_of_branch (fun w => w ≠ 0) h
    rw [pc, if_neg fun nonzero => stays ⟨w, topmost, nonzero⟩]
  | load =>
    obtain ⟨address, rfl⟩ := List.length_eq_one_iff.mp count
    exact stays_bind (stays_readCell address) stays_push h
  | store =>
    obtain ⟨address, rfl⟩ := List.length_eq_one_iff.mp count
    exact stays_bind stays_pop (fun value => stays_writeCell address value) h
  | call => exact absurd trivial stays
  | ret => exact absurd trivial stays
  | out => exact stays_bind stays_pop stays_emitWord h

/-! ## Going elsewhere -/

/-- A call leaves the address behind its instruction on the stack. -/
theorem stack_act_call (bounded : m.Bounded) {target : Word}
    (h : act .call [target] m = .ok () m') : m'.stack = m.pc :: m.stack := by
  obtain ⟨_, m₁, pushed, last⟩ :=
    bind_eq_ok_iff (x := push m.pc) (f := fun _ => jump target) |>.mp h
  cases last
  obtain ⟨inside, rfl⟩ := push_eq_ok_iff.mp pushed
  exact bounded.stack_pushed (bounded.contains_sp_sub_one_iff.mp inside) m.pc

/-- **What transfers control to an operand goes there.** -/
theorem pc_act_of_transfers {op : Opcode} {target : Word} (one : op.operands.length = 1)
    (transfers : op.Transfers m.top?) (h : act op [target] m = .ok () m') : m'.pc = target := by
  cases op with
  | jmp =>
    cases h
    rfl
  | jz =>
    obtain ⟨w, topmost, zero⟩ := transfers
    obtain ⟨w', topmost', pc⟩ := pc_of_branch (fun w => w = 0) h
    obtain rfl : w = w' := Option.some.inj (topmost.symm.trans topmost')
    rw [pc, if_pos zero]
  | jnz =>
    obtain ⟨w, topmost, nonzero⟩ := transfers
    obtain ⟨w', topmost', pc⟩ := pc_of_branch (fun w => w ≠ 0) h
    obtain rfl : w = w' := Option.some.inj (topmost.symm.trans topmost')
    rw [pc, if_pos nonzero]
  | call =>
    obtain ⟨_, m₁, pushed, last⟩ :=
      bind_eq_ok_iff (x := push m.pc) (f := fun _ => jump target) |>.mp h
    cases last
    rfl
  | ret => cases one
  | _ => exact transfers.elim

end Machine

end Stackwright
