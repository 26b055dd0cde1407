import ApiTypes.Document.Pointer
import ApiTypes.Schema.Node

/-!
# Reading schemas

Reads the node that a value writes. An object with `$ref` is a reference,
whatever else it holds; else the first of `oneOf`, `allOf` and `anyOf` makes it
a composition; else it is a schema of values. Its items, properties, required
names and additional properties are read in this order, and the first defect
stops the reading.
-/

namespace ApiTypes.Schema

/-- The composition keyword that counts: the first present one of `oneOf`,
`allOf` and `anyOf`. -/
def composition? (raw : Members) : Option Composition :=
  [Composition.oneOf, .allOf, .anyOf].find? fun kind => raw.has kind.keyword

/-- The keywords of a value schema, given the elements of `required`. -/
def keywords (raw : Members) (required : List Json) : Keywords :=
  { nullable? := (raw.get "nullable").bool?
    enumeration := raw.get "enum"
    format := raw.get "format"
    readOnly := (raw.get "readOnly").truthy
    description := raw.get "description"
    required }

mutual

/-- The node that a value read at a path writes. -/
def parse (path : String) : Json → Except Failure Node
  | .bool value => .ok (.boolean path value)
  | .obj raw =>
    match Members.get? raw "$ref" with
    | some ref => .ok (.reference path raw ref)
    | none =>
      match composition? raw with
      | some kind => do
        let members ← parseMembersOf path kind raw
        return .composition path raw kind members (Members.get raw "nullable").truthy
      | none => do
        let items ← parseItemsOf path raw
        let properties ← parsePropertiesOf path raw
        let required ← (Members.get raw "required").orNone.elements
        let additional ← parseAdditionalOf path raw
        return .value path raw (Members.get? raw "type") (keywords raw required) items properties
          additional
  | value => .error (.schema (.shape .notSchema value path))

/-- The members of a composition, searched in an object. -/
def parseMembersOf (path : String) (kind : Composition) :
    List (String × Json) → Except Failure (List Node)
  | [] => .ok []
  | (key, value) :: rest =>
    if key = kind.keyword then
      match value with
      | .arr members => parseAll path kind 0 members
      | value => .error (.schema (.shape (.notMembers kind) value path))
    else parseMembersOf path kind rest

/-- Schemas in a list, the first of them at the given position. -/
def parseAll (path : String) (kind : Composition) (position : Nat) :
    List Json → Except Failure (List Node)
  | [] => .ok []
  | value :: rest => do
    let node ← parse (Pointer.child path [kind.keyword, toString position]) value
    let nodes ← parseAll path kind (position + 1) rest
    return node :: nodes

/-- What describes the items of an array, searched in an object. -/
def parseItemsOf (path : String) : List (String × Json) → Except Failure (Items Node)
  | [] => .ok (.other .null)
  | (key, value) :: rest =>
    if key = "items" then
      match value with
      | .obj _ => (parse (Pointer.child path ["items"]) value).map .schema
      | _ => .ok (.other value)
    else parseItemsOf path rest

/-- The declared properties, searched in an object. -/
def parsePropertiesOf (path : String) :
    List (String × Json) → Except Failure (List (String × Node))
  | [] => .ok []
  | (key, value) :: rest =>
    if key = "properties" then
      match value with
      | .obj properties => parseEach path properties
      | value => if value.truthy then .error (.malformed .notMapping) else .ok []
    else parsePropertiesOf path rest

/-- Declared properties, one after another. -/
def parseEach (path : String) : List (String × Json) → Except Failure (List (String × Node))
  | [] => .ok []
  | (name, value) :: rest => do
    let node ← parse (Pointer.child path ["properties", name]) value
    let nodes ← parseEach path rest
    return (name, node) :: nodes

/-- What describes the properties that are not declared, searched in an object. -/
def parseAdditionalOf (path : String) : List (String × Json) → Except Failure (Additional Node)
  | [] => .ok .unspecified
  | (key, value) :: rest =>
    if key = "additionalProperties" then
      match value with
      | .obj _ => (parse (Pointer.child path ["additionalProperties"]) value).map .schema
      | .bool flag => .ok (.allowed flag)
      | _ => .ok .unspecified
    else parseAdditionalOf path rest

end

end ApiTypes.Schema
