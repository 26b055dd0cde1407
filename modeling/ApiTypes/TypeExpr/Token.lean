/-!
# Tokens of printed types

A printed type is a list of tokens, and its text is the texts of the tokens
one after another. Words, and everything between an opening and a closing
brace, bind tightest; then come the brackets of a list type, then `&`, then `|`.
-/

namespace ApiTypes

/-- A token of a printed type. -/
inductive Token where
  /-- A name, a constant or a literal. -/
  | word (text : String)
  /-- The brackets after the item type of a list type. -/
  | brackets
  /-- The bar between the members of a union. -/
  | bar
  /-- The sign between the members of an intersection. -/
  | ampersand
  /-- An opening parenthesis. -/
  | openParen
  /-- A closing parenthesis. -/
  | closeParen
  /-- The opening brace of an object type with members. -/
  | openBrace
  /-- What stands before the type of a member: comment, modifiers and name. -/
  | heading (text : String)
  /-- The end of a member. -/
  | endMember
  /-- The closing brace of an object type, after its indentation. -/
  | closeBrace (indent : String)
deriving DecidableEq, Repr

namespace Token

/-- The text of a token. -/
def text : Token → String
  | .word text => text
  | .brackets => "[]"
  | .bar => " | "
  | .ampersand => " & "
  | .openParen => "("
  | .closeParen => ")"
  | .openBrace => "\x7b\n"
  | .heading text => text
  | .endMember => ";\n"
  | .closeBrace indent => indent ++ "\x7d"

/-- The text of a list of tokens. -/
def textOf (tokens : List Token) : String := String.join (tokens.map text)

@[simp] theorem textOf_nil : textOf [] = "" := rfl

/-- The text of tokens after others stands after their text. -/
@[simp] theorem textOf_append (left right : List Token) :
    textOf (left ++ right) = textOf left ++ textOf right := by
  simp [textOf, String.join_append]

/-- Lists of tokens with a token between each two. -/
def separate (separator : Token) : List (List Token) → List Token
  | [] => []
  | [tokens] => tokens
  | tokens :: next :: rest => tokens ++ separator :: separate separator (next :: rest)

/-- Tokens between parentheses, or as they are. -/
def parenthesize (tokens : List Token) (needed : Bool) : List Token :=
  if needed then .openParen :: tokens ++ [.closeParen] else tokens

end Token

end ApiTypes
