import Mathlib.Logic.Function.Iterate
import Stackwright.Proofs.Bytes
import Stackwright.Proofs.Images
import Stackwright.Proofs.Sequencing
import Stackwright.Proofs.Whereabouts
import Stackwright.Workbench

/-!
# Reading tokens on demand

A token reader holds back the tokens of a line until they are asked for, counts the lines that it
has read, and remembers that its source has nothing more to give. What it hands out is described by
one equation for each answer of the source (`TokenReader.rest_line`, `rest_failure`, `rest_end`).
From these it follows that it hands out the tokens of all lines up to the first failure, and then
this failure (`TokenReader.rest_eq`).

A caller sees one answer for each call, and may go on calling when there is nothing left
(`TokenReader.call_eq`). Together with the two ways of cutting a source into lines, which come to
the same (`Source.lines_eq_ok_iff`), this gives the main result: the tokens of a source are the
words on the lines that are shown of it (`TokenReader.call_exact`).
-/

namespace Stackwright

namespace TokenReader

variable {r s : TokenReader}

/-! ## What is left to hand out -/

theorem rest_of_next_none (h : r.next = (none, s)) : r.rest = [] := by
  rw [rest]
  split
  · rfl
  · next handed => rw [h] at handed; cases handed

theorem rest_of_next_some {item : Except AssemblyError Token} (h : r.next = (some item, s)) :
    r.rest = item :: s.rest := by
  rw [rest]
  split
  · next handed => rw [h] at handed; cases handed
  · next handed => rw [h] at handed; cases handed; rfl

/-- What is handed out depends on the next call only. -/
theorem rest_congr (h : r.next = s.next) : r.rest = s.rest := by
  rcases next : s.next with ⟨_ | item, r'⟩
  · rw [rest_of_next_none (h.trans next), rest_of_next_none next]
  · rw [rest_of_next_some (h.trans next), rest_of_next_some next]

/-- Once a call gave nothing, the source is asked no more and no token is waiting. -/
theorem next_of_none (h : r.next = (none, s)) : s.next = (none, s) := by
  have ended : ∀ line answers, ask line answers = (none, s) → s.next = (none, s) := by
    intro line answers handed
    fun_induction ask line answers with
    | case1 line => cases handed; rfl
    | case2 line e answers => cases handed
    | case3 line text answers none ih => exact ih handed
    | case4 line text answers t pending some => cases handed
  obtain ⟨answers, line, pending, done⟩ := r
  cases pending with
  | cons t pending => cases h
  | nil =>
    cases done with
    | true => cases h; rfl
    | false => exact ended line answers h

section

variable {answers : List (Except IoError String)} {line : Nat}

/-- Tokens that are waiting come first. -/
theorem rest_pending (pending : List Token) (done : Bool) :
    (⟨answers, line, pending, done⟩ : TokenReader).rest =
      pending.map .ok ++ (⟨answers, line, [], done⟩ : TokenReader).rest := by
  induction pending with
  | nil => rfl
  | cons t pending ih =>
    have handed : (⟨answers, line, t :: pending, done⟩ : TokenReader).next =
        (some (.ok t), ⟨answers, line, pending, done⟩) := rfl
    rw [rest_of_next_some handed, ih]
    rfl

theorem rest_done : (⟨answers, line, [], true⟩ : TokenReader).rest = [] := rest_of_next_none rfl

theorem rest_end : (⟨[], line, [], false⟩ : TokenReader).rest = [] := rest_of_next_none rfl

/-- A failure is handed out, and then nothing. -/
theorem rest_failure (e : IoError) :
    (⟨.error e :: answers, line, [], false⟩ : TokenReader).rest = [.error (.read e)] := by
  have handed : (⟨.error e :: answers, line, [], false⟩ : TokenReader).next =
      (some (.error (.read e)), ⟨answers, line, [], true⟩) := rfl
  rw [rest_of_next_some handed, rest_done]

/-- The tokens of a line are handed out before the source is asked again. -/
theorem rest_line (text : String) :
    (⟨.ok text :: answers, line, [], false⟩ : TokenReader).rest =
      (Token.ofLine (line + 1) text).map .ok ++
        (⟨answers, line + 1, [], false⟩ : TokenReader).rest := by
  have asked : (⟨.ok text :: answers, line, [], false⟩ : TokenReader).next =
      ask line (.ok text :: answers) := rfl
  rw [ask] at asked
  cases found : Token.ofLine (line + 1) text with
  | nil =>
    rw [found] at asked
    have passed : _ = (⟨answers, line + 1, [], false⟩ : TokenReader).next := asked
    rw [rest_congr passed]
    rfl
  | cons t pending =>
    rw [found] at asked
    rw [rest_of_next_some asked, rest_pending]
    rfl

/-- What is handed out are the tokens of the lines up to the first failure, and this failure. -/
theorem rest_eq (line : Nat) (answers : List (Except IoError String)) :
    (⟨answers, line, [], false⟩ : TokenReader).rest =
      (Token.ofLines (line + 1) (Feed.ofAnswers answers).lines).map .ok ++
        (Feed.ofAnswers answers).failure.toList.map fun e => .error (.read e) := by
  induction answers generalizing line with
  | nil => exact rest_end
  | cons answer answers ih =>
    cases answer with
    | error e => exact rest_failure e
    | ok text =>
      rw [rest_line, ih, Feed.ofAnswers, Token.ofLines, List.map_append, List.append_assoc]

end

/-! ## Calling again and again -/

/-- What a call gives after `n` calls. -/
def call (r : TokenReader) (n : Nat) : Option (Except AssemblyError Token) :=
  ((fun r => r.next.2)^[n] r).next.1

/-- Calls give what there is to hand out, one after the other, and then nothing for ever. -/
theorem call_eq (r : TokenReader) (n : Nat) : r.call n = r.rest[n]? := by
  unfold call
  induction n generalizing r with
  | zero =>
    rcases handed : r.next with ⟨_ | item, s⟩
    · rw [rest_of_next_none handed, Function.iterate_zero_apply, handed]
      rfl
    · rw [rest_of_next_some handed, Function.iterate_zero_apply, handed]
      rfl
  | succ n ih =>
    rw [Function.iterate_succ_apply, ih]
    rcases handed : r.next with ⟨_ | item, s⟩
    · rw [rest_of_next_none handed, rest_of_next_none (next_of_none handed)]
      rfl
    · rw [rest_of_next_some handed, List.getElem?_cons_succ]

end TokenReader

/-! ## The tokens of a source -/

theorem Feed.ofAnswers_answers (feed : Feed) : ofAnswers feed.answers = feed := by
  obtain ⟨lines, failure⟩ := feed
  rw [answers, ofAnswers_append]
  cases failure <;> exact congrArg (Feed.mk · _) (List.append_nil lines)

namespace Token

theorem ofFeed_eq (feed : Feed) :
    ofFeed feed = (ofLines 1 feed.lines).map .ok ++
      feed.failure.toList.map fun e => .error (.read e) := by
  have all := TokenReader.rest_eq 0 feed.answers
  rwa [Feed.ofAnswers_answers] at all

/-- A stream is read as its feed says, though it is asked for one line at a time. -/
theorem ofFeed_feed (s : Stream) : ofFeed s.feed = (TokenReader.ofAnswers s.answers).rest := by
  rw [ofFeed_eq, Stream.feed_eq]
  exact (TokenReader.rest_eq 0 s.answers).symm

end Token

namespace Source

variable {files : FileTree} {source : Source} {lines : List String}

/-- A source whose lines can be shown can be read to its end, and the other way round. The lines to
read are those that are shown. -/
theorem lines_eq_ok_iff :
    source.lines files = .ok lines ↔ source.feed files = .ok ⟨lines, none⟩ := by
  cases source with
  | text content =>
    rw [Source.lines, Source.feed, Feed.ofText, Except.ok.injEq, Except.ok.injEq, Feed.mk.injEq]
    exact (and_iff_left rfl).symm
  | file path =>
    dsimp only [Source.lines, Source.feed]
    cases opened : files.read path with
    | error e =>
      constructor
      · intro shown
        cases shown
      · intro fed
        cases fed
    | ok stream =>
      dsimp only [bind, Except.bind]
      constructor
      · intro shown
        cases read : stream.text with
        | error e =>
          rw [read] at shown
          cases shown
        | ok content =>
          rw [read] at shown
          cases shown
          rw [Stream.text_eq_ok_iff.mp read, Stream.feed_ofText]
          rfl
      · intro fed
        have same : stream.feed = ⟨lines, none⟩ := Except.ok.inj fed
        obtain ⟨content, rfl⟩ := Stream.eq_ofText_of_failure_eq_none (congrArg Feed.failure same)
        rw [Stream.feed_ofText, Feed.ofText, Feed.mk.injEq] at same
        rw [Stream.text_eq_ok_iff.mpr rfl]
        exact congrArg Except.ok same.1

/-- To assemble a source is to take its tokens and to assemble these. -/
theorem assemble_eq (files : FileTree) (source : Source) :
    source.assemble files = (source.feed files >>= tokenize) >>= Assembly.ofTokens :=
  (bind_assoc _ _ _).symm

/-- A source has tokens if its lines can be shown, and then they are the tokens of these lines. -/
theorem tokenize_eq_ok_iff {tokens : List Token} :
    source.feed files >>= tokenize = .ok tokens ↔
      ∃ lines, source.lines files = .ok lines ∧ tokens = Token.ofLines 1 lines := by
  constructor
  · intro tokenized
    obtain ⟨⟨lines, failure⟩, fed, read⟩ := except_bind_eq_ok_iff.mp tokenized
    cases failure with
    | some e => cases read
    | none => exact ⟨lines, lines_eq_ok_iff.mpr fed, (Except.ok.inj read).symm⟩
  · rintro ⟨lines, shown, rfl⟩
    rw [lines_eq_ok_iff.mp shown]
    rfl

end Source

namespace TokenReader

/-- **Reading is exact.** The tokens of a text, and of any source, are the words on the lines that
are shown of it, and a source has tokens if its lines can be shown, and only then. A reader hands
out these tokens and nothing else, however often it is called. If its source fails, it hands out the
tokens of the lines before, then the failure, and then nothing, whatever the source would have given
after that. -/
theorem call_exact :
    (∀ text : String, ∃ tokens, Token.TakenFrom (Text.lines text) tokens ∧
      tokenize (Stream.ofText text).feed = .ok tokens ∧
      ∀ n, (ofAnswers (Stream.ofText text).answers).call n = (tokens.map .ok)[n]?) ∧
    (∀ (files : FileTree) (source : Source),
      (∀ lines, source.lines files = .ok lines →
        ∃ tokens, Token.TakenFrom lines tokens ∧ source.feed files >>= tokenize = .ok tokens) ∧
      ∀ tokens, source.feed files >>= tokenize = .ok tokens →
        ∃ lines, Token.TakenFrom lines tokens ∧ source.lines files = .ok lines) ∧
    ∀ (lines : List String) (e : IoError) (later : List (Except IoError String)),
      ∃ tokens, Token.TakenFrom lines tokens ∧
        ∀ n, (ofAnswers (lines.map .ok ++ .error e :: later)).call n =
          (tokens.map .ok ++ [.error (.read e)])[n]? := by
  refine ⟨fun text => ?_, fun files source => ⟨fun lines shown => ?_, fun tokens tokenized => ?_⟩,
    fun lines e later => ?_⟩
  · refine ⟨_, Token.takenFrom_ofLines _, ?_, fun n => ?_⟩
    · rw [Stream.feed_ofText]
      rfl
    · rw [call_eq, ← Token.ofFeed_feed, Stream.feed_ofText, Token.ofFeed_eq]
      exact congrArg (·[n]?) (List.append_nil _)
  · exact ⟨_, Token.takenFrom_ofLines lines, Source.tokenize_eq_ok_iff.mpr ⟨lines, shown, rfl⟩⟩
  · obtain ⟨lines, shown, rfl⟩ := Source.tokenize_eq_ok_iff.mp tokenized
    exact ⟨lines, Token.takenFrom_ofLines lines, shown⟩
  · refine ⟨_, Token.takenFrom_ofLines lines, fun n => ?_⟩
    have all := rest_eq 0 (lines.map .ok ++ .error e :: later)
    rw [Feed.ofAnswers_append] at all
    rw [call_eq, ofAnswers, all]
    simp only [Feed.ofAnswers, List.append_nil]
    rfl

/-- Lines that end in all ways. -/
def mixed : String := "push 3\r\n\tadd;x\n\ny\rz ;\r"

theorem call_exact_mixed :
    (Source.text mixed).lines ⟨[], []⟩ = .ok ["push 3", "\tadd;x", "", "y\rz ;\r"] ∧
      ∃ tokens, Token.TakenFrom ["push 3", "\tadd;x", "", "y\rz ;\r"] tokens ∧
        (Source.text mixed).feed ⟨[], []⟩ >>= tokenize = .ok tokens := by
  have cut : Text.lines mixed = ["push 3", "\tadd;x", "", "y\rz ;\r"] := by decide +kernel
  have shown : (Source.text mixed).lines ⟨[], []⟩ = .ok ["push 3", "\tadd;x", "", "y\rz ;\r"] :=
    congrArg Except.ok cut
  exact ⟨shown, (call_exact.2.1 _ _).1 _ shown⟩

end TokenReader

end Stackwright
