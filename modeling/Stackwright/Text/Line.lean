/-!
# Lines

A line ends at a line feed, and one carriage return just before that line feed
goes with it. What follows the last line feed is a line of its own unless it is
empty; having no line feed it keeps a trailing carriage return.

`breakAt` is the one splitting function; it works on any alphabet, so that a text
and its bytes are split alike.
-/

namespace Stackwright.Text

variable {α : Type} [BEq α]

/-- The pieces of a list that a separator closes, and what follows the last
separator. -/
def breakAt (sep : α) : List α → List (List α) × List α
  | [] => ([], [])
  | c :: cs =>
    if c == sep then
      let (closed, rest) := breakAt sep cs
      ([] :: closed, rest)
    else
      match breakAt sep cs with
      | ([], rest) => ([], c :: rest)
      | (piece :: closed, rest) => ((c :: piece) :: closed, rest)

/-- Splitting loses nothing: the closed pieces with their separators, and then the rest,
make up the whole. -/
theorem flatMap_breakAt [LawfulBEq α] (sep : α) (cs : List α) :
    (breakAt sep cs).1.flatMap (· ++ [sep]) ++ (breakAt sep cs).2 = cs := by
  fun_induction breakAt sep cs with
  | case1 => rfl
  | case2 c cs h closed rest split ih => simp_all
  | case3 c cs h rest split ih => simp_all
  | case4 c cs h piece closed rest split ih => simp_all

/-- The list without its last element, if that is `x`. -/
def dropLastIf (x : α) (cs : List α) : List α :=
  if cs.getLast? == some x then cs.dropLast else cs

/-- The lines that a line feed closes. -/
def closedLines (cs : List Char) : List (List Char) :=
  (breakAt '\n' cs).1.map (dropLastIf '\r')

/-- What follows the last line feed. -/
def openLine (cs : List Char) : List Char := (breakAt '\n' cs).2

/-- All lines of a text. -/
def lines (text : String) : List String :=
  let cs := text.toList
  let last := openLine cs
  (closedLines cs ++ if last.isEmpty then [] else [last]).map String.ofList

end Stackwright.Text
