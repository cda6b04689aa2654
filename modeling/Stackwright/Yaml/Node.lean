import Stackwright.Bindings
import Stackwright.Text.Numeral
import Stackwright.Yaml.Lexeme

/-!
# Values in documents

The values that a document is made of, and how scalars are read. A scalar that is written
without quotes is *plain*, and only plain scalars are numbers or truth values, unless a
tag says so of a literal one; what is quoted is a string. Where nothing is written stands
the empty plain scalar.

A value may have an *anchor* and then also stands wherever the anchor is named. Anchors
are numbers here.
-/

namespace Stackwright.Yaml

/-- A value in a document. -/
inductive Node where
  /-- a single value, as it is written, with the identifier of its tag -/
  | scalar (anchor? : Option Nat) (tag? : Option Octets) (text : String) (style : ScalarStyle)
  /-- a list -/
  | sequence (anchor? : Option Nat) (items : List Node)
  /-- a table, in the order of writing; keys may repeat -/
  | mapping (anchor? : Option Nat) (entries : List (Node × Node))
  /-- the value of an anchor -/
  | reference (anchor : Nat)

namespace Node

/-- What stands where nothing is written. -/
def nothing : Node := scalar none none "" .plain

/-- Whether nothing is written. -/
def isNothing : Node → Bool
  | scalar _ _ text style => text == "" && style == .plain
  | _ => false

/-! ## Scalars -/

/-- The digits of a number with the radix that their mark tells. A number that
starts with zero and goes on with digits has no value. -/
def unsigned? : List Char → Option Nat
  | '0' :: 'x' :: digits => inRadix 16 digits
  | '0' :: 'o' :: digits => inRadix 8 digits
  | '0' :: 'b' :: digits => inRadix 2 digits
  | ['0'] => some 0
  | '0' :: _ => none
  | digits => inRadix 10 digits
where
  /-- The value of at least one digit, as far as 64-bit numbers go. -/
  inRadix (radix : Nat) : List Char → Option Nat
    | [] => none
    | digits => (Text.readDigits radix 9223372036854775808 0 digits).toOption

/-- The value of a number with an optional sign. -/
def signed? : List Char → Option Int
  | '-' :: cs => (unsigned? cs).map fun (n : Nat) => -(n : Int)
  | '+' :: cs => (unsigned? cs).map fun (n : Nat) => (n : Int)
  | cs => (unsigned? cs).map fun (n : Nat) => (n : Int)

/-- The text of a scalar that may be of a type with the given name. -/
def textAs? (type : String) : Node → Option String
  | scalar _ _ text .plain => some text
  | scalar _ (some tag) text .literal =>
    if tag = octets ("tag:yaml.org,2002:" ++ type) then some text else none
  | _ => none

/-- The value of a scalar that is an integer. -/
def integer? (node : Node) : Option Int :=
  (node.textAs? "int").bind fun text => signed? text.toList

/-- The value of a scalar that is a truth value. -/
def bool? (node : Node) : Option Bool :=
  (node.textAs? "bool").bind fun text =>
    if ["true", "True", "TRUE"].contains text then some true
    else if ["false", "False", "FALSE"].contains text then some false
    else none

/-! ## Anchors -/

/-- The number of a value's own anchor. -/
def anchor? : Node → Option Nat
  | scalar anchor? _ _ _ => anchor?
  | sequence anchor? _ => anchor?
  | mapping anchor? _ => anchor?
  | reference _ => none

mutual

/-- A value and the values within it, in the order in which they begin. -/
def within : Node → List Node
  | sequence anchor? items => sequence anchor? items :: withinItems items
  | mapping anchor? entries => mapping anchor? entries :: withinEntries entries
  | node => [node]

/-- The values within the items of a list. -/
def withinItems : List Node → List Node
  | [] => []
  | item :: items => item.within ++ withinItems items

/-- The values within the entries of a table. -/
def withinEntries : List (Node × Node) → List Node
  | [] => []
  | (key, value) :: entries => key.within ++ value.within ++ withinEntries entries

end

/-- Whether a value consists of others. -/
def isCollection : Node → Bool
  | sequence _ _ => true
  | mapping _ _ => true
  | _ => false

end Node

end Stackwright.Yaml
