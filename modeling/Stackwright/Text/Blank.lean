/-!
# Blank characters, trimming and words

The tools read text in two places, source files and program images, and both
fall apart at *blank* characters: those with the Unicode property `White_Space`.
Everything here works on lists of characters, so that it can be reasoned about by
structural recursion; callers convert at the edge.

* `isBlank` — the property as a table.
* `trim` — a text without the blanks around it.
* `words` — the maximal blank-free pieces of a text, in order. A text falls apart at
  each blank (`words_append_blank`), and one without blanks does not
  (`words_eq_singleton`); the two equations say all there is to know.
-/

namespace Stackwright.Text

/-- The Unicode property `White_Space`. -/
def isBlank (c : Char) : Bool :=
  let n := c.toNat
  (9 ≤ n && n ≤ 13) || n == 0x20 || n == 0x85 || n == 0xA0 || n == 0x1680 ||
    (0x2000 ≤ n && n ≤ 0x200A) || n == 0x2028 || n == 0x2029 || n == 0x202F ||
    n == 0x205F || n == 0x3000

/-- The text without leading blanks. -/
def trimStart (cs : List Char) : List Char := cs.dropWhile isBlank

/-- The text without trailing blanks. -/
def trimEnd (cs : List Char) : List Char := (cs.reverse.dropWhile isBlank).reverse

/-- The text without blanks at either end. -/
def trim (cs : List Char) : List Char := trimEnd (trimStart cs)

/-- The maximal blank-free pieces of a text, in order. A character opens a piece
of its own exactly when a blank or the end of the text follows it. -/
def words : List Char → List (List Char)
  | [] => []
  | [c] => if isBlank c then [] else [[c]]
  | c :: d :: cs =>
    if isBlank c then words (d :: cs)
    else if isBlank d then [c] :: words (d :: cs)
    else (words (d :: cs)).modifyHead (c :: ·)

/-- A text that starts with no blank has a first word. -/
theorem words_cons_ne_nil {c : Char} (h : isBlank c = false) (cs : List Char) :
    words (c :: cs) ≠ [] := by
  cases cs with
  | nil => simp [words, h]
  | cons d cs =>
    rw [words, if_neg (by simp [h])]
    split
    · simp
    · next hd => simpa using words_cons_ne_nil (Bool.eq_false_iff.mpr hd) cs

/-- A blank in front of a text makes no difference to its words. -/
theorem words_cons_blank {c : Char} (h : isBlank c) (cs : List Char) :
    words (c :: cs) = words cs := by
  cases cs with
  | nil => simp [words, h]
  | cons d cs => rw [words, if_pos h]

/-- A text falls apart at each of its blanks. -/
theorem words_append_blank (cs : List Char) {c : Char} (h : isBlank c) (ds : List Char) :
    words (cs ++ c :: ds) = words cs ++ words ds := by
  fun_induction words cs with
  | case1 => exact words_cons_blank h ds
  | case2 b hb => simp [words, hb, words_cons_blank h]
  | case3 b hb => simp [words, hb, h, words_cons_blank h]
  | case4 a b cs ha ih =>
    rw [List.cons_append, List.cons_append, words, if_pos ha]
    exact ih
  | case5 a b cs ha hb ih =>
    rw [List.cons_append, List.cons_append, words, if_neg ha, if_pos hb]
    exact congrArg _ ih
  | case6 a b cs ha hb ih =>
    rw [List.cons_append, List.cons_append, words, if_neg ha, if_neg hb, ← List.cons_append,
      ih]
    cases first : words (b :: cs) with
    | nil => exact absurd first (words_cons_ne_nil (Bool.eq_false_iff.mpr hb) cs)
    | cons w ws => rfl

/-- A text without blanks is one word. -/
theorem words_eq_singleton {cs : List Char} (h : cs ≠ [])
    (hc : ∀ c ∈ cs, isBlank c = false) : words cs = [cs] := by
  fun_induction words cs with
  | case1 => exact absurd rfl h
  | case2 c hb => simp [hb] at hc
  | case3 => rfl
  | case4 c d cs hb ih => simp [hb] at hc
  | case5 c d cs hb hd ih => simp [hd] at hc
  | case6 c d cs hb hd ih =>
    rw [ih (by simp) fun e he => hc e (List.mem_cons_of_mem _ he)]
    rfl

end Stackwright.Text
