/-!
# Columns

Texts filled up to a width. Widths count characters, and a text that is too long
is left alone.
-/

namespace Stackwright.Text

/-- A character, so many times. -/
def repeated (n : Nat) (c : Char) : String := String.ofList (List.replicate n c)

/-- The text at the right end of a column. -/
def alignRight (width : Nat) (text : String) : String :=
  repeated (width - text.length) ' ' ++ text

/-- The text at the left end of a column. -/
def alignLeft (width : Nat) (text : String) : String :=
  text ++ repeated (width - text.length) ' '

/-- Digits with zeros in front. -/
def zeroFilled (width : Nat) (digits : String) : String :=
  repeated (width - digits.length) '0' ++ digits

end Stackwright.Text
