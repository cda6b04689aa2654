import Stackwright.Text.Extending
import Stackwright.Text.Unprinted

/-!
# Quoted text

A text in double quotes, as file names are shown in messages: quotes and backslashes
get a backslash, and characters that cannot be seen for themselves are spelled out.
-/

namespace Stackwright.Text

/-- Whether a character shows, and shows as a character of its own. -/
def isVisible (c : Char) : Bool := !(isExtending c || isUnprinted c)

/-- A character as it is written between quotes. -/
def quotedChar (c : Char) : List Char :=
  if c == '"' || c == '\\' then ['\\', c]
  else if c == '\n' then ['\\', 'n']
  else if c == '\r' then ['\\', 'r']
  else if c == '\t' then ['\\', 't']
  else if c.toNat == 0 then ['\\', '0']
  else if isVisible c then [c]
  else "\\u\x7b".toList ++ Nat.toDigits 16 c.toNat ++ "\x7d".toList

/-- A text in quotes. -/
def quoted (text : String) : String :=
  String.ofList ('"' :: text.toList.flatMap quotedChar ++ ['"'])

end Stackwright.Text
