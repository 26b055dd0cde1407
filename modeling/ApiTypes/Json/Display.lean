import ApiTypes.Decimal.Shortest
import ApiTypes.Json.Basic
import ApiTypes.Text.Printable

/-!
# Values in messages

Error messages show the value at fault: texts between single quotes (double
quotes when the text holds a single quote and no double one), `None`, `True`
and `False` for the constants, and characters that are not printable by their
code.
-/

namespace ApiTypes.Json

/-- The last `width` hexadecimal digits of a number. -/
def hexDigits (width n : Nat) : List Char :=
  ((List.range width).map fun i => Nat.digitChar (n / Nat.pow 16 i % 16)).reverse

/-- A character inside a displayed text with the given quote. -/
def displayChar (mark c : Char) : List Char :=
  if c = mark || c = '\\' then ['\\', c]
  else if c = '\n' then ['\\', 'n']
  else if c = '\r' then ['\\', 'r']
  else if c = '\t' then ['\\', 't']
  else if Text.isPrintable c then [c]
  else if c.toNat < 0x100 then '\\' :: 'x' :: hexDigits 2 c.toNat
  else if c.toNat < 0x10000 then '\\' :: 'u' :: hexDigits 4 c.toNat
  else '\\' :: 'U' :: hexDigits 8 c.toNat

/-- A text as messages show it. -/
def displayText (text : String) : String :=
  let cs := text.toList
  let mark := if cs.contains '\'' && !cs.contains '"' then '"' else '\''
  String.ofList (mark :: cs.flatMap (displayChar mark) ++ [mark])

mutual

/-- A value as messages show it. -/
def display : Json → String
  | .null => "None"
  | .bool true => "True"
  | .bool false => "False"
  | .int n => toString n
  | .float x => (Decimal.Reading.ofFloat x).text "inf" "nan"
  | .str s => displayText s
  | .arr items => "[" ++ ", ".intercalate (displayItems items) ++ "]"
  | .obj members => "\x7b" ++ ", ".intercalate (displayMembers members) ++ "\x7d"

/-- The items of a list as messages show them. -/
def displayItems : List Json → List String
  | [] => []
  | item :: rest => item.display :: displayItems rest

/-- The members of an object as messages show them. -/
def displayMembers : List (String × Json) → List String
  | [] => []
  | (key, value) :: rest => (displayText key ++ ": " ++ value.display) :: displayMembers rest

end

/-- A value inside running text: a text as it is, any other value as messages
show it. -/
def inText : Json → String
  | .str s => s
  | value => value.display

end ApiTypes.Json
