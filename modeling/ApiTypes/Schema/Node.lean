import ApiTypes.Failure

/-!
# Schema nodes

The structure of a schema before any reference is followed. A node is a truth
value, a reference, a composition of other schemas, or a schema of values with
or without a declared type. Every node knows where it was read and what was
read there.
-/

namespace ApiTypes

/-- The keywords of a value schema that hold no schema. -/
structure Keywords where
  /-- The value of `nullable`, if it is a truth value. -/
  nullable? : Option Bool
  /-- The value of `enum`. -/
  enumeration : Json
  /-- The value of `format`. -/
  format : Json
  /-- Whether `readOnly` is set. -/
  readOnly : Bool
  /-- The value of `description`. -/
  description : Json
  /-- The elements of `required`. -/
  required : List Json

/-- What describes the items of an array. -/
inductive Items (α : Type) where
  /-- A schema. -/
  | schema (node : α)
  /-- Any other value, `null` when there is none. -/
  | other (value : Json)

/-- What describes the properties that are not declared. -/
inductive Additional (α : Type) where
  /-- Nothing does. -/
  | unspecified
  /-- They are allowed without condition, or not at all. -/
  | allowed (flag : Bool)
  /-- A schema for their values. -/
  | schema (node : α)

/-- A schema. Its path is the pointer it was read at. -/
inductive Node where
  /-- A truth value in place of a schema. -/
  | boolean (path : String) (value : Bool)
  /-- A reference to a schema. -/
  | reference (path : String) (raw : Members) (ref : Json)
  /-- A composition of schemas. -/
  | composition (path : String) (raw : Members) (kind : Composition) (members : List Node)
      (nullable : Bool)
  /-- A schema of values, with its declared type if it has one. -/
  | value (path : String) (raw : Members) (type? : Option Json) (keywords : Keywords)
      (items : Items Node) (properties : List (String × Node)) (additional : Additional Node)

namespace Node

/-- Where the schema was read. -/
def path : Node → String
  | .boolean path .. => path
  | .reference path .. => path
  | .composition path .. => path
  | .value path .. => path

/-- What was read. -/
def raw : Node → Json
  | .boolean _ flag => .bool flag
  | .reference _ raw _ => .obj raw
  | .composition _ raw .. => .obj raw
  | .value _ raw .. => .obj raw

/-- The value of a key of what was read, `null` when there is none. -/
def keyword (node : Node) (key : String) : Json :=
  match node.raw with
  | .obj members => Members.get members key
  | _ => .null

end Node

end ApiTypes
