import ApiTypes.Json.Basic

/-!
# Type expressions

The types that schemas convert to, independent of how they are printed.
Nothing is marked as nullable: a type that allows `null` is a union with the
null type. A declared component is kept apart from a type that the settings
name and nothing declares.
-/

namespace ApiTypes

/-- A named member of an object type. -/
structure Property (α : Type) where
  /-- The name, a text unless it was taken from a malformed parameter. -/
  name : Json
  /-- The type of its values. -/
  type : α
  /-- Whether the member may be missing. -/
  optional : Bool := false
  /-- Whether the member cannot be set. -/
  readOnly : Bool := false
  /-- The comment on the member, `null` when there is none. -/
  comment : Json := .null

/-- The members of an object type that are not named. -/
structure IndexSignature (α : Type) where
  /-- The name of the key. -/
  key : Json
  /-- The type of their values. -/
  type : α

/-- A type. -/
inductive TypeExpr where
  /-- No type at all. -/
  | missing
  /-- Any value. -/
  | any
  /-- The value `null`. -/
  | null
  /-- A primitive type: boolean, integer, number or string. -/
  | primitive (name : String)
  /-- The listed values, all of one primitive type. -/
  | literals (base : String) (values : List Json)
  /-- A list of items of one type. -/
  | array (item : TypeExpr)
  /-- An object with named members and possibly others. -/
  | object (properties : List (Property TypeExpr)) (index? : Option (IndexSignature TypeExpr))
  /-- A value of at least one of the types. -/
  | union (members : List TypeExpr)
  /-- A value of all of the types. -/
  | intersection (members : List TypeExpr)
  /-- A declared component. -/
  | component (identifier : String)
  /-- A type that the settings name. -/
  | external (name : Json)
deriving Inhabited

namespace TypeExpr

/-- The object type without named members, which allows any members. -/
def anyObject : TypeExpr := .object [] none

/-- A type, or its union with the null type. -/
def orNull (type : TypeExpr) (nullable : Bool) : TypeExpr :=
  if nullable then .union [type, .null] else type

/-- Whether a type is an object type with members. -/
def isStructure : TypeExpr → Bool
  | .object properties index? => !properties.isEmpty || index?.isSome
  | _ => false

end TypeExpr

end ApiTypes
