import ApiTypes.Reference.Resolve
import ApiTypes.Schema.Inference
import ApiTypes.Schema.Parse

/-!
# Converting schemas

A schema is converted node by node; what a reference converts to is a
parameter of the rules. A reference to a component converts to its name and
every other reference to the conversion of what it points at, under a guard
that marks the path as being expanded. Expansions nest at most as deep as the
allowance says, and the allowance of a run is never used up, because every
nested expansion marks another path.
-/

namespace ApiTypes

namespace Conversion

/-- The message about a schema of which no type is known. -/
def untypedMessage : String :=
  "Schema Type is not found and is converted to the type any. The parent Schema is as follows."

/-- Whether a value is of a primitive type; whole numbers are of either number type. -/
def isOfType (typeName : String) : Json → Bool :=
  match typeName with
  | "boolean" => Schema.isBoolean
  | "integer" => Schema.isNumber
  | "number" => Schema.isNumber
  | "string" => Schema.isString
  | _ => fun _ => false

/-- The listed values of a primitive type: the elements of `enum` if there are
any and all of them are of the type. -/
def listedValues? (typeName : String) (enumeration : Json) : Except Failure (Option (List Json)) :=
  if enumeration.truthy then do
    let values ← enumeration.elements
    return if values.all (isOfType typeName) then some values else none
  else .ok none

/-- The type that the settings name for a format. -/
def overrideFor? (overrides format : Json) : Except Failure (Option TypeExpr) :=
  match overrides with
  | .obj members =>
    if !format.isKey then .error (.malformed .notKey)
    else match format with
      | .str name =>
        let override := Members.get members name
        .ok (if override.truthy then some (.external override) else none)
      | _ => .ok none
  | _ => .error (.malformed .notMapping)

/-- The type that stands for the format of a schema, if one does. -/
def formatType? (context : Context) (path : String) (raw : Members) (format : Json) :
    Except Failure (Option TypeExpr) :=
  if format.truthy then
    match context.formatType?.type? path raw with
    | some type => .ok (some type)
    | none => do overrideFor? (← context.settings.formatOverrides) format
  else .ok none

/-- The type of a primitive schema. -/
def primitive (context : Context) (path : String) (raw : Members) (typeName : String)
    (keywords : Keywords) : Except Failure TypeExpr := do
  let nullable := keywords.nullable?.getD false
  match ← formatType? context path raw keywords.format with
  | some type => return type.orNull nullable
  | none =>
    match ← listedValues? typeName keywords.enumeration with
    | some values => return (TypeExpr.literals typeName values).orNull nullable
    | none => return (TypeExpr.primitive typeName).orNull nullable

/-- An object type of converted members. Optional members cannot stand beside
an index signature and go into an object type of their own. A type with both an
index signature and required members only is never nullable. -/
def objectType (properties : List (Property TypeExpr))
    (index? : Option (IndexSignature TypeExpr)) (nullable : Bool) : TypeExpr :=
  match index? with
  | some index =>
    if properties.any (·.optional) then
      (TypeExpr.intersection [.object properties none, .object [] (some index)]).orNull nullable
    else .object properties (some index)
  | none => (TypeExpr.object properties none).orNull nullable

/-- The named members that must be present. -/
def requiredNames (required : List Json) : Except Failure (List Json) :=
  if required.all Json.isKey then .ok required else .error (.malformed .notKey)

/-- What a reference converts to: read from the document at a point, in an
object that holds it. -/
abbrev Follow := (point : String) → (raw : Members) → (ref : Json) → Run TypeExpr

mutual

/-- The type that a declared type stands for, given the rule for a type name.
A list of types is the union of their conversions; each of them is converted as
if the schema declared it alone. -/
def byDeclaredType (named : Members → String → Run TypeExpr) (raw : Members) : Json → Run TypeExpr
  | .str typeName => named raw typeName
  | .arr types => do
    match ← byEachType named raw types with
    | [] => return .any
    | [type] => return type
    | members => return .union members
  | _ => return .any

/-- The types that the items of a list of types stand for. -/
def byEachType (named : Members → String → Run TypeExpr) (raw : Members) :
    List Json → Run (List TypeExpr)
  | [] => return []
  | type :: rest => do
    let first ← byDeclaredType named (Members.put "type" type raw) type
    let others ← byEachType named raw rest
    return first :: others

end

/-- The members of an object: the declared ones, and the index signature. -/
abbrev ObjectMembers := List (Property TypeExpr) × Option (IndexSignature TypeExpr)

/-- The type of a schema of a type, given the rules for what it holds. -/
def byTypeName (context : Context) (path : String) (keywords : Keywords)
    (additional : Additional Node) (item : Members → Run TypeExpr)
    (members : Members → List Json → Run ObjectMembers) (raw : Members) (typeName : String) :
    Run TypeExpr :=
  match typeName with
  | "null" => return .null
  | "array" => do
    let item ← item raw
    return (TypeExpr.array item).orNull (keywords.nullable?.getD false)
  | "object" => do
    match additional with
    | .allowed true => return .anyObject
    | _ =>
      let required ← requiredNames keywords.required
      let (properties, index?) ← members raw required
      return objectType properties index? (keywords.nullable?.getD false)
  | "boolean" | "integer" | "number" | "string" => primitive context path raw typeName keywords
  | _ => return .any

/-- The type of a schema of which no type is known, inside a parent. -/
def untyped (nullable? : Option Bool) (parent : Json) : Run TypeExpr :=
  match nullable? with
  | some nullable => return TypeExpr.any.orNull nullable
  | none => do
    match parent with
    | .null => pure ()
    | parent => Run.report .warning untypedMessage parent
    return .any

/-- The type of a composition of types. -/
def composed (kind : Composition) (types : List TypeExpr) : TypeExpr :=
  match kind with
  | .allOf => .intersection types
  | .oneOf | .anyOf => .union types

mutual

/-- The type of a node that was read from the document at a point. `parent` is
reported when no type is known; `null` stands for no parent. -/
def ofNode (context : Context) (follow : Follow) (point : String) (parent : Json) :
    Node → Run TypeExpr
  | .boolean .. => return .anyObject
  | .reference _ raw ref => follow point raw ref
  | .composition _ _ kind members nullable => do
    let types ← ofMembers context follow point members
    return (composed kind types).orNull nullable
  | .value path raw type? keywords items properties additional =>
    let named := byTypeName context path keywords additional
      (fun raw => ofItems context follow point path raw items)
      fun raw required => do
        let declared := Members.get raw "properties"
        let members ← ofProperties context follow point declared required properties
        let index? ← ofAdditional context follow point declared additional
        return (members, index?)
    match type? with
    | some type => byDeclaredType named raw type
    | none =>
      if raw.isEmpty then return .anyObject
      else match Schema.impliedType? raw with
        | some typeName => named (Members.put "type" (.str typeName) raw) typeName
        | none => untyped keywords.nullable? parent

/-- The types of the members of a composition. -/
def ofMembers (context : Context) (follow : Follow) (point : String) :
    List Node → Run (List TypeExpr)
  | [] => return []
  | node :: rest => do
    let type ← ofNode context follow point .null node
    let types ← ofMembers context follow point rest
    return type :: types

/-- The type of the items of an array. -/
def ofItems (context : Context) (follow : Follow) (point path : String) (raw : Members) :
    Items Node → Run TypeExpr
  | .schema node => ofNode context follow point (.obj raw) node
  | .other .null => return .any
  | .other (.arr items) =>
    throw (.schema (.shape .notItems (.arr items) (Pointer.locateWritten point path)))
  | .other (.bool flag) =>
    throw (.schema (.shape .notItems (.bool flag) (Pointer.locateWritten point path)))
  | .other value => throw (.schema (.shape .notSchema value "#"))

/-- The declared members of an object. -/
def ofProperties (context : Context) (follow : Follow) (point : String) (declared : Json)
    (required : List Json) : List (String × Node) → Run (List (Property TypeExpr))
  | [] => return []
  | (name, node) :: rest => do
    let type ← ofNode context follow point declared node
    let members ← ofProperties context follow point declared required rest
    return {
      name := .str name
      type
      optional := !required.any (Json.isText name)
      readOnly := (node.keyword "readOnly").truthy
      comment := node.keyword "description" } :: members

/-- The members of an object that are not declared. -/
def ofAdditional (context : Context) (follow : Follow) (point : String) (declared : Json) :
    Additional Node → Run (Option (IndexSignature TypeExpr))
  | .schema node => do
    let type ← ofNode context follow point declared node
    return some { key := context.settings.indexKey, type }
  | _ => return none

end

/-- A guard around the expansion of a canonical path. -/
abbrev Guard := (canonicalPath : String) → Run TypeExpr → Run TypeExpr

/-- Converts what a reference points at, given the document, the parent, the
pointer and the value. -/
abbrev Expand := (point : String) → (parent : Json) → (path : String) → (schema : Json) →
  Run TypeExpr

/-- A reference to a component becomes its name; what any other reference
points at is converted in its place, in the document that holds it. -/
def follow (context : Context) (guard : Guard) (expand : Expand) : Follow := fun point raw ref => do
  let resolution ← context.resolve point ref
  match resolution.identifier? with
  | some identifier => return .component identifier
  | none =>
    guard resolution.canonicalPath do
      let schema ← context.target resolution
      expand resolution.documentPoint (.obj raw) (Pointer.locate "" resolution.path) schema

/-- Converts a schema with at most so many nested expansions, less one. -/
def within (context : Context) (guard : Guard) : Nat → Expand
  | 0 => fun _ _ _ _ => throw .exhausted
  | allowance + 1 => fun point parent path schema => do
    let node ← Schema.parse path schema
    ofNode context (follow context guard (within context guard allowance)) point parent node

/-- How many expansions can nest in a run that starts from a value: one for
each pair of a document and a reference. -/
def maxNested (context : Context) (start : Json) : Nat :=
  (context.graph.documents.length + 1) * (context.graph.refs.length + start.refs.length)

end Conversion

/-- Converts a schema that was read at a path in the document at a point, inside
a parent if it has one. -/
def Context.convertSchema (context : Context) (point : String) (schema : Json) (path : String)
    (parent : Json := .null) : Run TypeExpr :=
  Conversion.within context Run.expanding (Conversion.maxNested context schema + 1) point parent
    path schema

/-- Converts a schema and reports an error in the schemas after the point of
the entry document. -/
def Context.convert (context : Context) (entryPoint point : String) (schema : Json)
    (path : String) : Run TypeExpr :=
  Run.reporting entryPoint schema (context.convertSchema point schema path)

end ApiTypes
