/-!
# Coloured text

Text for a terminal, with the escape sequences that turn colours and weights on
and off. The sequences are always written, wherever the output goes.
-/

namespace Stackwright.Text

/-- How a piece of text stands out. -/
inductive Style where
  /-- red and bold, for errors and emphasised output -/
  | alert
  /-- cyan and bold, for remarks -/
  | remark
  /-- green and bold, for success -/
  | success
  /-- blue, for the frame of an error report -/
  | frame
  /-- green, for labels -/
  | label
  /-- cyan, for addresses -/
  | address
  /-- dim, for comments -/
  | faint
  /-- underlined, for places -/
  | underlined
  deriving DecidableEq, Repr

/-- The escape sequences before and after the text. -/
def Style.codes : Style → String × String
  | alert => ("\x1b[31m\x1b[1m", "\x1b[39m\x1b[22m")
  | remark => ("\x1b[36m\x1b[1m", "\x1b[39m\x1b[22m")
  | success => ("\x1b[32m\x1b[1m", "\x1b[39m\x1b[22m")
  | frame => ("\x1b[34m", "\x1b[39m")
  | label => ("\x1b[32m", "\x1b[39m")
  | address => ("\x1b[36m", "\x1b[39m")
  | faint => ("\x1b[2m", "\x1b[22m")
  | underlined => ("\x1b[4m", "\x1b[24m")

/-- A text in a style. -/
def Style.paint (style : Style) (text : String) : String :=
  style.codes.1 ++ text ++ style.codes.2

end Stackwright.Text
