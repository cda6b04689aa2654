/-!
# Capital letters

Mnemonics are compared in capitals, and capitals are taken with the full Unicode
mapping. Mnemonics themselves are made of ASCII letters, so only characters whose
capital form is made of ASCII letters can matter: the small ASCII letters and the
few others listed in `capital`. Every other character is left as it is, which is
never an ASCII letter and so spoils a comparison just as its true capital would.
-/

namespace Stackwright.Text

/-- The capital form of a character, where that form is ASCII; otherwise the
character itself. -/
def capital (c : Char) : List Char :=
  if 'a' ≤ c ∧ c ≤ 'z' then [c.toUpper]
  else match c.toNat with
    | 0x00DF => ['S', 'S']
    | 0x0131 => ['I']
    | 0x017F => ['S']
    | 0xFB00 => ['F', 'F']
    | 0xFB01 => ['F', 'I']
    | 0xFB02 => ['F', 'L']
    | 0xFB03 => ['F', 'F', 'I']
    | 0xFB04 => ['F', 'F', 'L']
    | 0xFB05 => ['S', 'T']
    | 0xFB06 => ['S', 'T']
    | _ => [c]

/-- A text in capitals. -/
def capitals (cs : List Char) : List Char := cs.flatMap capital

end Stackwright.Text
