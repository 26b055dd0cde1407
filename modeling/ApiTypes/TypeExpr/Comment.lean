import ApiTypes.Text.Blank

/-!
# Comments

A description becomes a block comment. Blanks at its ends are dropped and every
`*/` inside it is broken up, so that the comment ends where it is meant to. A
description of one line gives a comment of one line.
-/

namespace ApiTypes.Comment

open ApiTypes.Text

/-- A text in which every `*/` is written `*\/`. -/
def guardEnd : List Char → List Char
  | '*' :: '/' :: rest => '*' :: '\\' :: '/' :: guardEnd rest
  | c :: rest => c :: guardEnd rest
  | [] => []

/-- The lines of a description. -/
def bodyLines (text : List Char) : List (List Char) := lines (guardEnd (trim isBlank text))

/-- A line inside a block comment, without blanks at its end. -/
def bodyLine (indent line : List Char) : List Char :=
  trimEnd isBlank (indent ++ ' ' :: '*' :: ' ' :: line)

/-- The block comment of a description. -/
def formatChars (indent text : List Char) : List Char :=
  match bodyLines text with
  | [line] => indent ++ "/** ".toList ++ line ++ " */".toList
  | body =>
    indent ++ "/**\n".toList ++ joinWith '\n' (body.map (bodyLine indent)) ++ '\n' :: indent ++
      " */".toList

/-- The block comment of a description, every line after the given indentation. -/
def format (text indent : String) : String :=
  String.ofList (formatChars indent.toList text.toList)

end ApiTypes.Comment
