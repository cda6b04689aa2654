import Stackwright.AssemblyError
import Stackwright.Text.Blank

/-!
# Tokens

The words of a source text, each with the number of the line it stands on. A
semicolon starts a comment, which lasts to the end of its line; what is left of
the line falls apart at blanks. Line breaks mean nothing beyond that.

Tokens are read one at a time. A `TokenReader` asks the source for its next line only when
all tokens before it are handed out, and so a source that breaks off still gives the tokens of
the lines before.
-/

namespace Stackwright

/-- A blank-free piece of source text. -/
structure Token where
  /-- the piece itself, never empty -/
  text : String
  /-- the number of its line, counted from one -/
  line : Nat
  deriving DecidableEq, Repr

namespace Token

/-- The character that starts a comment. -/
def commentMark : Char := ';'

/-- The part of a line before its comment. -/
def code (line : List Char) : List Char := line.takeWhile (· != commentMark)

/-- The comment of a line, from its mark on; empty if there is none. -/
def comment (line : List Char) : List Char := line.dropWhile (· != commentMark)

/-- The tokens on the line with number `n`. -/
def ofLine (n : Nat) (line : String) : List Token :=
  (Text.words (code line.toList)).map fun w => ⟨String.ofList w, n⟩

/-- The tokens on successive lines, the first of which has number `n`. -/
def ofLines (n : Nat) : List String → List Token
  | [] => []
  | line :: rest => ofLine n line ++ ofLines (n + 1) rest

end Token

/-! ## Reading on demand -/

/-- A reader that hands out the tokens of a source one at a time. -/
structure TokenReader where
  /-- what the source answers when it is asked for its next lines; then it has ended -/
  answers : List (Except IoError String)
  /-- the number of lines that were read -/
  line : Nat
  /-- the tokens of the last of them that were not handed out yet -/
  pending : List Token
  /-- whether the source has failed or ended, so that it is asked no more -/
  done : Bool

namespace TokenReader

/-- A reader that has not asked for anything yet. -/
def ofAnswers (answers : List (Except IoError String)) : TokenReader := ⟨answers, 0, [], false⟩

/-- Ask for lines until one has tokens, and hand out the first of these. -/
def ask (line : Nat) :
    List (Except IoError String) → Option (Except AssemblyError Token) × TokenReader
  | [] => (none, ⟨[], line, [], true⟩)
  | .error e :: answers => (some (.error (.read e)), ⟨answers, line, [], true⟩)
  | .ok text :: answers =>
    match Token.ofLine (line + 1) text with
    | [] => ask (line + 1) answers
    | t :: pending => (some (.ok t), ⟨answers, line + 1, pending, false⟩)

/-- Hand out the next token, or the failure of the source. -/
def next (r : TokenReader) : Option (Except AssemblyError Token) × TokenReader :=
  match r.pending with
  | t :: pending => (some (.ok t), { r with pending := pending })
  | [] => if r.done then (none, r) else ask r.line r.answers

/-- What is handed out for an answer of the source uses this answer up. -/
theorem length_answers_of_ask {line : Nat} {answers : List (Except IoError String)}
    {item : Except AssemblyError Token} {r : TokenReader}
    (h : ask line answers = (some item, r)) : r.answers.length < answers.length := by
  fun_induction ask line answers with
  | case1 line => cases h
  | case2 line e answers =>
    cases h
    exact Nat.lt_succ_self _
  | case3 line text answers none ih => exact Nat.lt_succ_of_lt (ih h)
  | case4 line text answers t pending some =>
    cases h
    exact Nat.lt_succ_self _

/-- All that is handed out from here on. -/
def rest (r : TokenReader) : List (Except AssemblyError Token) :=
  match _ : r.next with
  | (none, _) => []
  | (some item, r') => item :: r'.rest
termination_by (r.answers.length, r.pending.length)
decreasing_by
  rename_i handed
  unfold next at handed
  split at handed
  · next t pending waiting =>
    -- a token that was waiting leaves the source alone
    cases handed
    rw [waiting]
    exact Prod.Lex.right _ (Nat.lt_succ_self _)
  · split at handed
    · cases handed
    · exact Prod.Lex.left _ _ (length_answers_of_ask handed)

end TokenReader

/-- The tokens of a source, one after the other, and after those of all complete
lines the error that ends it, if it breaks off. -/
def Token.ofFeed (feed : Feed) : List (Except AssemblyError Token) :=
  (TokenReader.ofAnswers feed.answers).rest

/-- The tokens of a source, provided that it can be read to its end. -/
def tokenize (feed : Feed) : Except AssemblyError (List Token) :=
  match feed.failure with
  | some e => .error (.read e)
  | none => .ok (Token.ofLines 1 feed.lines)

end Stackwright
