import ApiTypes.Operation.Basic
import ApiTypes.Run.Convert

/-!
# Collecting operations

The operations of the entry document are collected path by path and method by
method. Path items, parameters, bodies and responses may be references, which
are followed to the object they lead to; that object is read in its own
document. Parameters of an operation replace those of the path with the same
name and location, and are grouped by location.
-/

namespace ApiTypes

/-- A value and the point of the document it was found in. -/
structure Located where
  /-- The point of the document. -/
  point : String
  /-- The value. -/
  value : Json

/-- A parameter and the point of the document it was found in. -/
structure LocatedParameter where
  /-- The point of the document. -/
  point : String
  /-- The parameter. -/
  members : Members

/-- The methods of requests, in the order in which they are collected. -/
def requestMethods : List String :=
  ["get", "put", "post", "delete", "options", "head", "patch", "trace"]

/-- The locations of parameters that come first, in their order. -/
def parameterLocations : List String := ["header", "path", "query", "cookie"]

namespace Parameter

/-- The value of a key, with a default when the key is missing. -/
def getOr (members : Members) (key : String) (default : Json) : Json :=
  (members.get? key).getD default

/-- The name of a parameter. -/
def name (members : Members) : Json := getOr members "name" (.str "")

/-- The location that tells parameters of one name apart. -/
def site (members : Members) : Json := getOr members "in" (.str "")

/-- The location under which a parameter is grouped. -/
def group (members : Members) : Json := getOr members "in" (.str "query")

/-- Whether a parameter is part of the request path. -/
def isInPath (members : Members) : Bool := (members.get "in").isText "path"

/-- Sets a parameter. It takes the place of one with the same name and
location, or goes to the end. -/
def put (parameter : LocatedParameter) : List LocatedParameter → List LocatedParameter
  | [] => [parameter]
  | p :: rest =>
    if (name p.members).sameKey (name parameter.members) &&
        (site p.members).sameKey (site parameter.members) then parameter :: rest
    else p :: put parameter rest

/-- A parameter that is put over others is among them, and no other ones are new. -/
theorem mem_put {parameter other : LocatedParameter} {parameters : List LocatedParameter}
    (h : other ∈ put parameter parameters) : other = parameter ∨ other ∈ parameters := by
  induction parameters with
  | nil => exact Or.inl (List.mem_singleton.mp h)
  | cons first rest ih =>
    rw [put] at h
    split at h
    · exact (List.mem_cons.mp h).imp id (List.mem_cons_of_mem _)
    · rcases List.mem_cons.mp h with rfl | h
      · exact Or.inr (List.mem_cons_self ..)
      · exact (ih h).imp id (List.mem_cons_of_mem _)

/-- The schema of the first media type that has one. -/
def contentSchema (content : Members) : Json :=
  match content.findSome? fun pair => pair.2.members?.bind (·.get? "schema") with
  | some schema => schema
  | none => .null

/-- The schema of a parameter, `null` when it has none. -/
def schema (members : Members) : Except Failure Json :=
  match members.get "schema" with
  | .null => do return contentSchema (← (members.get "content").orEmpty.members)
  | schema => .ok schema

/-- Adds a member to its group, which is opened when it is the first. -/
def addToGroup (location : Json) (member : Property TypeExpr) :
    List (Json × List (Property TypeExpr)) → List (Json × List (Property TypeExpr))
  | [] => [(location, [member])]
  | (l, members) :: rest =>
    if l.sameKey location then (l, members ++ [member]) :: rest
    else (l, members) :: addToGroup location member rest

/-- The groups in the order in which they are printed: the known locations
first, the others in the order of their first parameters. -/
def orderGroups (groups : List (Json × List (Property TypeExpr))) :
    List (Json × List (Property TypeExpr)) :=
  parameterLocations.flatMap (fun location => groups.filter (·.1.isText location)) ++
    groups.filter fun group => !parameterLocations.any fun location => group.1.isText location

/-- The type of a group of parameters, which may be missing when all of them may. -/
def groupProperty (group : Json × List (Property TypeExpr)) : Property TypeExpr :=
  { name := group.1
    type := .object group.2 none
    optional := group.2.all (·.optional) }

end Parameter

namespace Context

/-- Follows references from object to object, fewer of them than the allowance. -/
def dereferenceWithin (context : Context) : Nat → (point : String) → Json → Run Located
  | 0, _, _ => throw .exhausted
  | allowance + 1, point, value =>
    match value.members?.bind (·.get? "$ref") with
    | none => return ⟨point, value⟩
    | some ref => do
      let reference ← context.classify point ref
      Run.expanding reference.canonicalPath do
        let target ←
          if reference.path.isEmpty then Run.document context reference.documentPoint
          else Run.lookup context reference.documentPoint reference.path
        context.dereferenceWithin allowance reference.documentPoint target

/-- The object that a value is or leads to by references, and the document it
was found in. -/
def dereference (context : Context) (point : String) (value : Json) : Run Located :=
  context.dereferenceWithin (Conversion.maxNested context value + 1) point value

/-- Converts a schema of an operation. -/
def convertPart (context : Context) (point : String) (schema : Json) : Run TypeExpr :=
  context.convert context.graph.entryPoint point schema "#"

/-- Puts parameters over those that are already there. -/
def mergeParameters (context : Context) (point : String) (merged : List LocatedParameter) :
    List Json → Run (List LocatedParameter)
  | [] => return merged
  | parameter :: rest => do
    let located ← context.dereference point parameter
    let members ← located.value.members
    if (Parameter.name members).isKey && (Parameter.site members).isKey then
      context.mergeParameters point (Parameter.put ⟨located.point, members⟩ merged) rest
    else throw (.malformed .notKey)

/-- The names of the parameters in the path. -/
def pathParameterNames : List LocatedParameter → Except Failure (List Json)
  | [] => .ok []
  | parameter :: rest =>
    if Parameter.isInPath parameter.members then
      match parameter.members.get? "name" with
      | some name => do return name :: (← pathParameterNames rest)
      | none => .error (.malformed .missingName)
    else pathParameterNames rest

/-- Converts parameters, and puts them into their groups. -/
def groupParameters (context : Context) (groups : List (Json × List (Property TypeExpr))) :
    List LocatedParameter → Run (List (Json × List (Property TypeExpr)))
  | [] => return groups
  | parameter :: rest => do
    let members := parameter.members
    let schema ← Parameter.schema members
    let type ← context.convertPart parameter.point (match schema with
      | .null => .obj []
      | schema => schema)
    let location := Parameter.group members
    let member : Property TypeExpr :=
      { name := Parameter.name members
        type
        optional :=
          !(location.isText "path" || (Parameter.getOr members "required" (.bool false)).truthy)
        comment := members.get "description" }
    context.groupParameters (Parameter.addToGroup location member groups) rest

/-- The type of the parameters of an operation, if it has any. -/
def convertParameters (context : Context) (parameters : List LocatedParameter) :
    Run (Option TypeExpr) := do
  if parameters.isEmpty then return none
  else
    let groups ← context.groupParameters [] parameters
    return some (.object ((Parameter.orderGroups groups).map Parameter.groupProperty) none)

/-- The types of a body by media type. Media types without a schema are left out. -/
def convertContent (context : Context) (point : String) : List (String × Json) → Run Content
  | [] => return []
  | (mediaType, value) :: rest =>
    match value.members?.bind (·.get? "schema") with
    | none => context.convertContent point rest
    | some schema => do
      let type ← context.convertPart point schema
      let others ← context.convertContent point rest
      return (mediaType, type) :: others

/-- The types of the body that a value describes or leads to. -/
def convertBody (context : Context) (point : String) (body : Json) : Run Content := do
  let located ← context.dereference point body
  let members ← located.value.members
  context.convertContent located.point (← (Members.get members "content").orEmpty.members)

/-- The types of the body that a request takes, if it takes one. -/
def convertRequestBody (context : Context) (point : String) : Json → Run Content
  | .null => return []
  | body => context.convertBody point body

/-- The types of responses by status. Responses without a body are left out. -/
def convertResponses (context : Context) (point : String) :
    List (String × Json) → Run (List (String × Content))
  | [] => return []
  | (status, response) :: rest => do
    let content ← context.convertBody point response
    let others ← context.convertResponses point rest
    return if content.isEmpty then others else (status, content) :: others

/-- Converts an operation of a request path. -/
def collectOperation (context : Context) (point path method : String) (operation : Json)
    (shared : Json) : Run Operation := do
  let members ← operation.members
  let own := (Members.get members "parameters").orNone
  let all := (← shared.elements) ++ (← own.elements)
  let parameters ← context.mergeParameters point [] all
  let names ← pathParameterNames parameters
  let declaredId := Members.get members "operationId"
  let parameters? ← context.convertParameters parameters
  let requestBodies ← context.convertRequestBody point (Members.get members "requestBody")
  let responses ← context.convertResponses point
    (← (Members.get members "responses").orEmpty.members)
  return {
    operationId := if declaredId.truthy then declaredId else .str (defaultOperationId method path)
    method
    requestPath := path
    summary := Members.get members "summary"
    deprecated := (Members.get members "deprecated").truthy
    parameters?
    pathParameterNames := names
    requestBodies
    responses
    address := AddressPart.ofPath path names }

/-- Converts the operations of a path item with the given methods. -/
def collectMethods (context : Context) (point path : String) (item : Members) (shared : Json) :
    List String → Run (List Operation)
  | [] => return []
  | method :: rest => do
    match Members.get item method with
    | .null => context.collectMethods point path item shared rest
    | operation =>
      let collected ← context.collectOperation point path method operation shared
      let others ← context.collectMethods point path item shared rest
      return collected :: others

/-- Converts the operations of request paths. A path must start with a slash. -/
def collectPaths (context : Context) : List (String × Json) → Run (List Operation)
  | [] => return []
  | (path, item) :: rest => do
    let entryPoint := context.graph.entryPoint
    if path.toList.head? != some '/' then
      throw (.schema (.requestPath path (Pointer.locate entryPoint ["paths", path])))
    let located ← context.dereference entryPoint item
    let members ← located.value.members
    let shared := (Members.get members "parameters").orNone
    let here ← context.collectMethods located.point path members shared requestMethods
    let others ← context.collectPaths rest
    return here ++ others

/-- The operations of the entry document. -/
def operations (context : Context) : Run (List Operation) := do
  let root ← context.graph.rootDocument.members
  let collected ← context.collectPaths (← (Members.get root "paths").orEmpty.members)
  Run.record (.collected collected.length)
  return collected

end Context

end ApiTypes
