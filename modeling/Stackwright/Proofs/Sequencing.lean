import Mathlib.Data.List.Forall2

/-!
# Sequencing

The assembler sequences computations that may fail, and the machine sequences moves
that may fail and leave a state behind. Both are taken apart here, once: what a sequence
gives is what its second part gives after the first.
-/

namespace Stackwright

universe u

variable {ε σ α β : Type u}

/-! ## Computations that may fail -/

theorem except_bind_eq_ok_iff {x : Except ε α} {f : α → Except ε β} {b : β} :
    (x >>= f) = .ok b ↔ ∃ a, x = .ok a ∧ f a = .ok b := by
  cases x with
  | error e => simp [bind, Except.bind]
  | ok a => simp [bind, Except.bind]

/-- A computation for each member of a list succeeds just if each of them does. -/
theorem mapM_eq_ok_iff {f : α → Except ε β} {as : List α} {bs : List β} :
    as.mapM f = .ok bs ↔ List.Forall₂ (fun a b => f a = .ok b) as bs := by
  induction as generalizing bs with
  | nil =>
    rw [List.mapM_nil, List.forall₂_nil_left_iff]
    exact ⟨fun h => (Except.ok.inj h).symm, fun h => congrArg _ h.symm⟩
  | cons a as ih =>
    rw [List.mapM_cons, except_bind_eq_ok_iff, List.forall₂_cons_left_iff]
    constructor
    · rintro ⟨b, hb, h⟩
      obtain ⟨rest, hrest, last⟩ := except_bind_eq_ok_iff.mp h
      exact ⟨b, rest, hb, ih.mp hrest, (Except.ok.inj last).symm⟩
    · rintro ⟨b, rest, hb, hrest, rfl⟩
      exact ⟨b, hb, except_bind_eq_ok_iff.mpr ⟨rest, ih.mpr hrest, rfl⟩⟩

/-- The error of a computation, if it fails. -/
def failure? : Except ε α → Option ε
  | .ok _ => none
  | .error e => some e

theorem failure?_eq_some_iff {x : Except ε α} {e : ε} : failure? x = some e ↔ x = .error e := by
  cases x <;> simp [failure?]

theorem failure?_eq_none_iff {x : Except ε α} : failure? x = none ↔ ∃ a, x = .ok a := by
  cases x <;> simp [failure?]

/-- What is done with a result at the end does not matter to the failure. -/
theorem failure?_bind_pure (x : Except ε α) (f : α → β) :
    failure? (x >>= fun a => pure (f a)) = failure? x := by
  cases x <;> rfl

/-- A computation for each member of a list fails as the first of them that does. -/
theorem failure?_mapM (f : α → Except ε β) (as : List α) :
    failure? (as.mapM f) = as.findSome? fun a => failure? (f a) := by
  induction as with
  | nil => rfl
  | cons a as ih =>
    rw [List.mapM_cons, List.findSome?_cons]
    cases f a with
    | error e => rfl
    | ok b =>
      rw [← ih]
      exact failure?_bind_pure (as.mapM f) (b :: ·)

/-- Do something to the result of a computation, or else to its error. -/
def recast {δ γ : Type u} (onError : ε → δ) (onResult : α → γ) : Except ε α → Except δ γ
  | .ok a => .ok (onResult a)
  | .error e => .error (onError e)

section Recast

variable {δ α' β' : Type u} {onError : ε → δ} {onFirst : α → α'} {onSecond : β → β'}

/-- What is done to both parts of a sequence is done to the whole. -/
theorem recast_bind {next : α → Except ε β} {next' : α' → Except δ β'}
    (h : ∀ a, next' (onFirst a) = recast onError onSecond (next a)) (x : Except ε α) :
    recast onError onFirst x >>= next' = recast onError onSecond (x >>= next) := by
  cases x with
  | error e => rfl
  | ok a => exact h a

/-- What is done to the computation for each member of a list is done to all of them. -/
theorem recast_mapM {f : α → Except ε β} {f' : α → Except δ β'}
    (h : ∀ a, f' a = recast onError onSecond (f a)) (as : List α) :
    as.mapM f' = recast onError (List.map onSecond) (as.mapM f) := by
  induction as with
  | nil => rfl
  | cons a as ih =>
    rw [List.mapM_cons, List.mapM_cons, h, ih]
    refine recast_bind (fun b => ?_) (f a)
    cases as.mapM f <;> rfl

end Recast

/-- Two lists that correspond have corresponding members in the same place. -/
theorem exists_getElem?_of_forall₂ {R : α → β → Prop} {as : List α} {bs : List β}
    (h : List.Forall₂ R as bs) {k : Nat} {a : α} (ha : as[k]? = some a) :
    ∃ b, bs[k]? = some b ∧ R a b := by
  induction h generalizing k with
  | nil => cases ha
  | cons first _ ih =>
    cases k with
    | zero =>
      cases ha
      exact ⟨_, rfl, first⟩
    | succ k => exact ih ha

/-! ## Moves that may fail and leave a state behind -/

/-- The state that a move leaves behind, whether it succeeds or not. -/
def after (x : EStateM ε σ α) (s : σ) : σ :=
  match x s with
  | .ok _ s' => s'
  | .error _ s' => s'

variable {x : EStateM ε σ α} {f : α → EStateM ε σ β} {s s' : σ}

theorem bind_of_ok {a : α} (h : x s = .ok a s') : (x >>= f) s = f a s' := by
  change EStateM.bind x f s = _
  rw [EStateM.bind, h]

theorem bind_of_error {e : ε} (h : x s = .error e s') : (x >>= f) s = .error e s' := by
  change EStateM.bind x f s = _
  rw [EStateM.bind, h]

theorem bind_eq_ok_iff {b : β} {t : σ} :
    (x >>= f) s = .ok b t ↔ ∃ a s', x s = .ok a s' ∧ f a s' = .ok b t := by
  cases h : x s with
  | ok a s' => simp [bind_of_ok h]
  | error e s' => simp [bind_of_error h]

end Stackwright
