import ApiTypes.Identifier
import ApiTypes.Settings
import ApiTypes.TypeExpr.Basic
import ApiTypes.TypeExpr.Comment
import ApiTypes.TypeExpr.Token

/-!
# Printing types

The tokens of a type at a level of nesting. A union or an intersection of
several members is put between parentheses where it is the item of a list
type, and so is a union where it is a member of an intersection. The members of
an object type stand on lines of their own, one level deeper.
-/

namespace ApiTypes

/-- A text written several times, not at all when the count is negative. -/
def repeatText (text : String) (count : Int) : String :=
  String.join (List.replicate count.toNat text)

/-- The unit of indentation. `none` stands for a value that can be repeated but
not written; a value that cannot even be repeated is an error at once. -/
def Layout.unit (layout : Layout) : Except Failure (Option String) :=
  match layout.indent with
  | .str unit => .ok (some unit)
  | .null => .error (.malformed .notCount)
  | .obj _ => .error (.malformed .notCount)
  | _ => .ok none

namespace TypeExpr

/-- The name of a primitive type in the printed language. -/
def primitiveName (name : String) : String := if name = "integer" then "number" else name

/-- Whether a type is a union, an intersection or a list of literals of several members. -/
def needsParentheses : TypeExpr → Bool
  | .union members => 1 < members.length
  | .intersection members => 1 < members.length
  | .literals _ values => 1 < values.length
  | _ => false

/-- Whether a type is a union or a list of literals of several members. -/
def isAlternative : TypeExpr → Bool
  | .union members => 1 < members.length
  | .literals _ values => 1 < values.length
  | _ => false

/-- Whether a type can be put beside others: an external name must be a text. -/
def isJoinable : TypeExpr → Bool
  | .external (.str _) => true
  | .external _ => false
  | _ => true

/-- Lists of tokens that can be put beside each other. -/
def joinable (members : List TypeExpr) (tokens : List (List Token)) :
    Except Failure (List (List Token)) :=
  if members.all isJoinable then .ok tokens else .error (.malformed .notWritable)

/-- The comment line before a member, after the given indentation. -/
def commentLine (indent : String) (comment : Json) : Except Failure String :=
  if comment.truthy then
    match comment with
    | .str text => .ok (Comment.format text indent ++ "\n")
    | _ => .error (.malformed .notText)
  else .ok ""

/-- What stands before the type of a member. -/
def heading {α : Type} (indent : String) (property : Property α) : Except Failure String := do
  let comment ← commentLine indent property.comment
  match property.name with
  | .str name =>
    return comment ++ indent ++ (if property.readOnly then "readonly " else "") ++
      Identifier.propertyName name ++ (if property.optional then "?: " else ": ")
  | _ => throw (.malformed .notWritable)

/-- What stands before the type of the members that are not named. -/
def indexHeading (indent : String) (key : Json) : String :=
  indent ++ "[" ++ key.inText ++ ": string]: "

mutual

/-- The tokens of a type at a level of nesting. -/
def tokens (layout : Layout) (level : Int) : TypeExpr → Except Failure (List Token)
  | .missing => .ok [.word "undefined"]
  | .any => .ok [.word "any"]
  | .null => .ok [.word "null"]
  | .primitive name => .ok [.word (primitiveName name)]
  | .literals _ values => .ok (Token.separate .bar (values.map fun value => [.word value.text]))
  | .array item => do
    let inner ← tokens layout level item
    return Token.parenthesize inner item.needsParentheses ++ [.brackets]
  | .object properties index? =>
    if properties.isEmpty && index?.isNone then .ok [.word "\x7b\x7d"]
    else do
      let unit? ← layout.unit
      let indent := repeatText (unit?.getD "") (level + 1)
      let named ← propertyTokens layout level indent properties
      let others ← match index? with
        | some ⟨key, type⟩ => do
          let inner ← tokens layout (level + 1) type
          pure (.heading (indexHeading indent key) :: inner ++ [.endMember])
        | none => pure []
      match unit? with
      | some unit => return .openBrace :: named ++ others ++ [.closeBrace (repeatText unit level)]
      | none => throw (.malformed .notCount)
  | .union members => do
    let parts ← memberTokens layout level members
    return Token.separate .bar (← joinable members parts)
  | .intersection members => do
    let parts ← factorTokens layout level members
    return Token.separate .ampersand (← joinable members parts)
  | .component identifier => .ok [.word identifier]
  | .external name => .ok [.word name.inText]

/-- The tokens of the members of a union. -/
def memberTokens (layout : Layout) (level : Int) :
    List TypeExpr → Except Failure (List (List Token))
  | [] => .ok []
  | member :: rest => do
    let first ← tokens layout level member
    let others ← memberTokens layout level rest
    return first :: others

/-- The tokens of the members of an intersection. -/
def factorTokens (layout : Layout) (level : Int) :
    List TypeExpr → Except Failure (List (List Token))
  | [] => .ok []
  | member :: rest => do
    let first ← tokens layout level member
    let others ← factorTokens layout level rest
    return Token.parenthesize first member.isAlternative :: others

/-- The tokens of the named members of an object type. -/
def propertyTokens (layout : Layout) (level : Int) (indent : String) :
    List (Property TypeExpr) → Except Failure (List Token)
  | [] => .ok []
  | ⟨name, type, optional, readOnly, comment⟩ :: rest => do
    let before ← heading indent (⟨name, (), optional, readOnly, comment⟩ : Property Unit)
    let inner ← tokens layout (level + 1) type
    let others ← propertyTokens layout level indent rest
    return .heading before :: inner ++ .endMember :: others

end

/-- The text of a type at a level of nesting. -/
def print (layout : Layout) (type : TypeExpr) (level : Int) : Except Failure String :=
  (type.tokens layout level).map Token.textOf

end TypeExpr

end ApiTypes
