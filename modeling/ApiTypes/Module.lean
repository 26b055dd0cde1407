import ApiTypes.Declaration
import ApiTypes.Operation.Basic
import ApiTypes.TypeExpr.Printer

/-!
# Printed modules

A module is a comment that says how it was generated, the declared types and
the types of the operations. Object types are printed as interfaces when the
layout asks for it, all other types as type aliases.
-/

namespace ApiTypes

/-- A declaration whose text is ready. -/
structure Rendered where
  /-- The name. -/
  name : String
  /-- The text of the type. -/
  body : String
  /-- The comment before the declaration, empty when there is none. -/
  comment : String := ""
  /-- Whether it is printed as an interface. -/
  isInterface : Bool := false
deriving DecidableEq, Repr

namespace Rendered

/-- The lines of a declaration, with an empty line after it. -/
def text (r : Rendered) : String :=
  (if r.comment.isEmpty then "" else r.comment ++ "\n") ++
    (if r.isInterface then "export interface " ++ r.name ++ " " ++ r.body ++ "\n"
    else "export type " ++ r.name ++ " = " ++ r.body ++ ";\n") ++ "\n"

/-- The comment that a description gives, empty when there is no description. -/
def commentOf (description : Json) : Except Failure String :=
  if description.truthy then
    match description with
    | .str text => .ok (Comment.format text "")
    | _ => .error (.malformed .notText)
  else .ok ""

end Rendered

/-- A declaration as it is printed. -/
def Declaration.render (layout : Layout) (d : Declaration) : Except Failure Rendered := do
  let body ← d.type.print layout 0
  let comment ← Rendered.commentOf d.description
  return ⟨d.identifier, body, comment, layout.interfaces.truthy && d.type.isStructure⟩

/-- The types of a body as an object type with a member for each media type. -/
def Content.toType (content : Content) : TypeExpr :=
  .object (content.map fun entry => { name := .str entry.1, type := entry.2 }) none

namespace Operation

/-- The name of an operation as it appears in the names of its types. -/
def baseName (operation : Operation) : Except Failure String :=
  if operation.operationId.truthy then
    match operation.operationId with
    | .str name => .ok (Identifier.escape name)
    | _ => .error (.malformed .notWritable)
  else .ok "_"

/-- The name of the type of an operation's parameters. -/
def parametersName (baseName : String) : String := "Parameter$" ++ baseName

/-- The name of the type of an operation's bodies. -/
def requestBodyName (baseName : String) : String := "RequestBody$" ++ baseName

/-- The name of the type of an operation's responses with a status. -/
def responseName (baseName status : String) : String :=
  "Response$" ++ baseName ++ "$Status$" ++
    String.ofList (Identifier.replaceInvalid status.toList)

/-- The types of an operation as they are printed: parameters, bodies, and
responses in the order of their statuses. -/
def render (layout : Layout) (operation : Operation) : Except Failure (List Rendered) := do
  let base ← operation.baseName
  let comment ← Rendered.commentOf operation.summary
  let parameters ← match operation.parameters? with
    | some type => do pure [⟨parametersName base, ← type.print layout 0, comment, false⟩]
    | none => pure []
  let bodies ←
    if operation.requestBodies.isEmpty then pure []
    else do
      let body ← (Content.toType operation.requestBodies).print layout 0
      pure [{ name := requestBodyName base, body }]
  let responses ← operation.responses.mapM fun entry => do
    let body ← (Content.toType entry.2).print layout 0
    pure ({ name := responseName base entry.1, body } : Rendered)
  return parameters ++ bodies ++ responses

end Operation

namespace Module

/-- The comment at the top of a module, with an empty line after it; nothing
when there is no text for it. -/
def header (comment : String) : String :=
  if comment.isEmpty then ""
  else "//\n// " ++ comment ++ "\n//\n// Do not edit this file by hand.\n//\n\n"

/-- The declarations of a module as they are printed. -/
def render (layout : Layout) (declarations : List Declaration) (operations : List Operation) :
    Except Failure (List Rendered) := do
  let declared ← declarations.mapM (·.render layout)
  let ofOperations ←
    if layout.operations.truthy then operations.mapM (·.render layout) else pure []
  return declared ++ ofOperations.flatten

/-- The text of a module. -/
def print (layout : Layout) (declarations : List Declaration) (operations : List Operation)
    (comment : String) : Except Failure String := do
  let rendered ← render layout declarations operations
  let top := header (if layout.generationComment.truthy then comment else "")
  return top ++ String.join (rendered.map Rendered.text)

end Module

end ApiTypes
