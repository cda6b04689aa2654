import Stackwright.Token

/-!
# Where tokens stand

The tokens of a source are the words of its lines, each with the number of its line
(`Token.takenFrom_ofLines`). What the words of a line are is said here once more, without cutting
the line: they stand in it one after the other, and there are nothing but blanks around them, up to
the comment.

So a token can be found again in the line whose number it has (`Token.TakenFrom.standsIn`), which
is what line numbers are good for in reports and listings.
-/

namespace Stackwright

/-! ## Words of a text -/

namespace Text

/-- A text falls apart into words: they follow each other in it, without a blank in them, and what
stands before, between and behind them are blanks. -/
inductive FallsApart : List Char → List (List Char) → Prop where
  /-- there are nothing but blanks -/
  | blank {cs : List Char} (blanks : ∀ c ∈ cs, isBlank c) : FallsApart cs []
  /-- after some blanks there is a word, and what follows does not go on with it -/
  | word {gap w cs : List Char} {ws : List (List Char)} (blanks : ∀ c ∈ gap, isBlank c)
    (nonempty : w ≠ []) (solid : ∀ c ∈ w, isBlank c = false) (ends : ∀ c ∈ cs.head?, isBlank c)
    (rest : FallsApart cs ws) : FallsApart (gap ++ w ++ cs) (w :: ws)

namespace FallsApart

variable {c : Char} {cs : List Char} {w : List Char} {ws : List (List Char)}

theorem cons_blank (h : FallsApart cs ws) (isBlank : isBlank c) : FallsApart (c :: cs) ws := by
  cases h with
  | blank blanks => exact .blank (List.forall_mem_cons.mpr ⟨isBlank, blanks⟩)
  | @word gap w cs ws blanks nonempty solid ends rest =>
    have longer : ∀ d ∈ c :: gap, Text.isBlank d := List.forall_mem_cons.mpr ⟨isBlank, blanks⟩
    exact .word longer nonempty solid ends rest

/-- A character in front of a text that starts with a word belongs to this word. -/
theorem cons_solid {d : Char} (h : FallsApart (d :: cs) (w :: ws)) (solid : isBlank c = false)
    (next : isBlank d = false) : FallsApart (c :: d :: cs) ((c :: w) :: ws) := by
  generalize shape : d :: cs = text at h
  cases h with
  | @word gap w cs' ws blanks nonempty solid' ends rest =>
    cases gap with
    | nil =>
      exact @word [] (c :: w) cs' ws (fun _ none => by cases none) (List.cons_ne_nil c w)
        (List.forall_mem_cons.mpr ⟨solid, solid'⟩) ends rest
    | cons e gap =>
      obtain rfl : d = e := (List.cons.inj shape).1
      have blank := blanks d List.mem_cons_self
      rw [next] at blank
      cases blank

/-- A text falls apart in no other way than into its words. -/
theorem words_eq (h : FallsApart cs ws) : words cs = ws := by
  have skip : ∀ {gap : List Char}, (∀ c ∈ gap, isBlank c) → ∀ cs, words (gap ++ cs) = words cs := by
    intro gap blanks cs
    induction gap with
    | nil => rfl
    | cons c gap ih =>
      obtain ⟨here, later⟩ := List.forall_mem_cons.mp blanks
      rw [List.cons_append, words_cons_blank here, ih later]
  induction h with
  | @blank cs blanks =>
    have none := skip blanks []
    rwa [List.append_nil] at none
  | @word gap w cs ws blanks nonempty solid ends rest ih =>
    rw [List.append_assoc, skip blanks]
    cases cs with
    | nil => rw [List.append_nil, words_eq_singleton nonempty solid, ← ih]; rfl
    | cons c cs =>
      have blank : isBlank c := ends c rfl
      rw [words_append_blank w blank, words_eq_singleton nonempty solid, ← ih,
        words_cons_blank blank]
      rfl

end FallsApart

/-- A text falls apart into its words. -/
theorem fallsApart_words (cs : List Char) : FallsApart cs (words cs) := by
  fun_induction words cs with
  | case1 => exact .blank fun _ none => by cases none
  | case2 c blank => exact .blank (List.forall_mem_singleton.mpr blank)
  | case3 c solid =>
    exact @FallsApart.word [] [c] [] [] (fun _ none => by cases none) (by simp)
      (by simpa using solid) (by simp) (.blank fun _ none => by cases none)
  | case4 c d cs blank ih => exact ih.cons_blank blank
  | case5 c d cs solid blank ih =>
    exact @FallsApart.word [] [c] (d :: cs) _ (fun _ none => by cases none) (by simp)
      (by simpa using solid) (by simpa using blank) ih
  | case6 c d cs solid next ih =>
    have solid : isBlank c = false := Bool.eq_false_iff.mpr solid
    have next : isBlank d = false := Bool.eq_false_iff.mpr next
    cases first : words (d :: cs) with
    | nil => exact absurd first (words_cons_ne_nil next cs)
    | cons w ws =>
      rw [first] at ih
      exact ih.cons_solid solid next

end Text

/-! ## Tokens of lines -/

namespace Token

/-- What stands in front of the first comment mark of a line, if there is one. -/
def IsCode (code line : List Char) : Prop :=
  commentMark ∉ code ∧ (code = line ∨ code ++ [commentMark] <+: line)

theorem isCode_code (line : List Char) : IsCode (code line) line := by
  unfold code
  induction line with
  | nil => exact ⟨List.not_mem_nil, .inl rfl⟩
  | cons c cs ih =>
    by_cases mark : c = commentMark
    · rw [List.takeWhile_cons_of_neg (by simp [mark]), mark]
      exact ⟨List.not_mem_nil, .inr ⟨cs, rfl⟩⟩
    · rw [List.takeWhile_cons_of_pos (by simp [mark])]
      obtain ⟨none, ends⟩ := ih
      refine ⟨List.not_mem_cons_of_ne_of_not_mem (Ne.symm mark) none, ?_⟩
      rcases ends with all | before
      · exact .inl (congrArg (c :: ·) all)
      · exact .inr (List.cons_prefix_cons.mpr ⟨rfl, before⟩)

/-- The tokens are those of some lines: they come line by line, and those of a line are the words
in front of its comment. -/
structure TakenFrom (lines : List String) (tokens : List Token) : Prop where
  /-- no token comes before one of an earlier line -/
  ascending : tokens.Pairwise fun s t => s.line ≤ t.line
  /-- lines are counted from one -/
  inside : ∀ t ∈ tokens, 1 ≤ t.line ∧ t.line ≤ lines.length
  /-- the tokens of a line are the words of its code -/
  words : ∀ i line, lines[i]? = some line → ∃ code, IsCode code line.toList ∧
    Text.FallsApart code ((tokens.filter (·.line = i + 1)).map (·.text.toList))

/-- The token is a word of the line that it says it is on. -/
def StandsIn (lines : List String) (t : Token) : Prop :=
  1 ≤ t.line ∧ ∃ line code ws, lines[t.line - 1]? = some line ∧ IsCode code line.toList ∧
    Text.FallsApart code ws ∧ t.text.toList ∈ ws

theorem TakenFrom.standsIn {lines : List String} {tokens : List Token} {t : Token}
    (h : TakenFrom lines tokens) (mem : t ∈ tokens) : StandsIn lines t := by
  obtain ⟨first, last⟩ := h.inside t mem
  have found := List.getElem?_eq_getElem (show t.line - 1 < lines.length by omega)
  obtain ⟨code, isCode, apart⟩ := h.words _ _ found
  refine ⟨first, _, code, _, found, isCode, apart, List.mem_map_of_mem (List.mem_filter.mpr ?_)⟩
  exact ⟨mem, decide_eq_true (by omega)⟩

/-! ## Cutting lines into tokens -/

variable {n : Nat} {t : Token}

theorem line_of_mem_ofLine {line : String} (mem : t ∈ ofLine n line) : t.line = n := by
  obtain ⟨w, -, rfl⟩ := List.mem_map.mp mem
  rfl

/-- Lines have successive numbers. -/
theorem line_of_mem_ofLines {lines : List String} (mem : t ∈ ofLines n lines) :
    n ≤ t.line ∧ t.line < n + lines.length := by
  induction lines generalizing n with
  | nil => cases mem
  | cons line rest ih =>
    rw [List.length_cons]
    rcases List.mem_append.mp mem with here | later
    · have same := line_of_mem_ofLine here
      omega
    · have bounds := ih later
      omega

theorem pairwise_ofLines (n : Nat) (lines : List String) :
    (ofLines n lines).Pairwise fun s t => s.line ≤ t.line := by
  induction lines generalizing n with
  | nil => exact .nil
  | cons line rest ih =>
    refine List.pairwise_append.mpr ⟨?_, ih (n + 1), fun s here t later => ?_⟩
    · refine List.pairwise_of_forall_mem_list fun s hs t ht => ?_
      exact Nat.le_of_eq ((line_of_mem_ofLine hs).trans (line_of_mem_ofLine ht).symm)
    · have same := line_of_mem_ofLine here
      have greater := (line_of_mem_ofLines later).1
      omega

/-- The tokens with the number of a line are those of this line. -/
theorem filter_ofLines {lines : List String} {i : Nat} {line : String}
    (here : lines[i]? = some line) :
    (ofLines n lines).filter (·.line = n + i) = ofLine (n + i) line := by
  induction lines generalizing n i with
  | nil => cases here
  | cons first rest ih =>
    rw [ofLines, List.filter_append]
    cases i with
    | zero =>
      cases here
      have all : (ofLine n line).filter (·.line = n + 0) = ofLine n line :=
        List.filter_eq_self.mpr fun t mem => decide_eq_true (line_of_mem_ofLine mem)
      have none : (ofLines (n + 1) rest).filter (·.line = n + 0) = [] := by
        refine List.filter_eq_nil_iff.mpr fun t mem => ?_
        have greater := (line_of_mem_ofLines mem).1
        simpa using (by omega : t.line ≠ n)
      rw [all, none, List.append_nil]
      rfl
    | succ i =>
      have none : (ofLine n first).filter (·.line = n + (i + 1)) = [] := by
        refine List.filter_eq_nil_iff.mpr fun t mem => ?_
        have same := line_of_mem_ofLine mem
        simpa using (by omega : t.line ≠ n + (i + 1))
      have later := ih (n := n + 1) (i := i) here
      rw [Nat.add_assoc, Nat.add_comm 1 i] at later
      rw [none, later]
      rfl

/-- **The tokens of lines are the words on them**, each with the number of its line. -/
theorem takenFrom_ofLines (lines : List String) : TakenFrom lines (ofLines 1 lines) where
  ascending := pairwise_ofLines 1 lines
  inside t mem := by
    have bounds := line_of_mem_ofLines mem
    omega
  words i line here := by
    refine ⟨code line.toList, isCode_code line.toList, ?_⟩
    rw [Nat.add_comm i 1, filter_ofLines here, ofLine, List.map_map]
    have texts : (fun t : Token => t.text.toList) ∘ (fun w => ⟨String.ofList w, 1 + i⟩) = id :=
      funext fun w => String.toList_ofList
    rw [texts, List.map_id]
    exact Text.fallsApart_words _

end Token

end Stackwright
