import Stackwright.Statement

/-!
# Parsing token by token

Between two tokens the parser remembers nothing but the statement that still waits for operands, if
any. A token leaves such a statement behind again, or it yields an item of the source, and it does
nothing else (`Statement.parseFrom_cons`).

So a change that can be told for each token by itself, and for what the token leaves or yields, can
be told for whole sources (`Statement.Translates.parse_map`).
-/

namespace Stackwright

/-- What a token makes of the statement that waits for it as an operand. -/
def Pending.take (p : Pending) (t : Token) : Pending ⊕ Parsed :=
  match Operand.parse t.text t.line with
  | .error e => .inr (.error e)
  | .ok operand => (p.supply operand).map id fun s => .ok ⟨s, p.head.line⟩

namespace Statement

/-- What a token makes of the statement that waits, or starts if none does. -/
def advance (before : Option Pending) (t : Token) : Pending ⊕ Parsed :=
  match before with
  | none => start t
  | some p => p.take t

/-- One step of the parser. -/
theorem parseFrom_cons (before : Option Pending) (t : Token) (ts : List Token) :
    parseFrom before (t :: ts) =
      match advance before t with
      | .inl p => parseFrom (some p) ts
      | .inr item => item :: parseFrom none ts := by
  cases before with
  | none => rfl
  | some p =>
    rw [parseFrom, advance, Pending.take]
    cases Operand.parse t.text t.line with
    | error e => rfl
    | ok operand =>
      dsimp only
      cases p.supply operand <;> rfl

/-- What is done to each token is done to what it leaves behind and to what it yields. -/
structure Translates (token : Token → Token) (pending : Pending → Pending)
    (item : Parsed → Parsed) : Prop where
  /-- at the first token of a statement -/
  start_map : ∀ t, start (token t) = (start t).map pending item
  /-- at an operand -/
  take_map : ∀ p t, (pending p).take (token t) = (p.take t).map pending item
  /-- at the end of the source -/
  missing_map : ∀ p : Pending, .error (pending p).missing = item (.error p.missing)

namespace Translates

variable {token : Token → Token} {pending : Pending → Pending} {item : Parsed → Parsed}

theorem parseFrom_map (h : Translates token pending item) (before : Option Pending)
    (tokens : List Token) :
    parseFrom (before.map pending) (tokens.map token) = (parseFrom before tokens).map item := by
  induction tokens generalizing before with
  | nil =>
    cases before with
    | none => rfl
    | some p => exact congrArg ([·]) (h.missing_map p)
  | cons t ts ih =>
    have step : advance (before.map pending) (token t) = (advance before t).map pending item := by
      cases before with
      | none => exact h.start_map t
      | some p => exact h.take_map p t
    rw [List.map_cons, parseFrom_cons, parseFrom_cons, step]
    cases advance before t with
    | inl p => exact ih (some p)
    | inr i => exact congrArg (item i :: ·) (ih none)

/-- **What is done to all tokens of a source is done to all its items.** -/
theorem parse_map (h : Translates token pending item) (tokens : List Token) :
    parse (tokens.map token) = (parse tokens).map item :=
  h.parseFrom_map none tokens

end Translates

end Statement

end Stackwright
