import ApiTypes.Operation.Address
import ApiTypes.TypeExpr.Basic

/-!
# Operations

A request that an API answers, with the types of its parameters, its bodies
and its responses.
-/

namespace ApiTypes

/-- The types of a body, by media type. -/
abbrev Content := List (String × TypeExpr)

/-- An operation. -/
structure Operation where
  /-- The name of the operation. -/
  operationId : Json
  /-- The method of the request. -/
  method : String := ""
  /-- The path of the request. -/
  requestPath : String := ""
  /-- A summary of what it does, `null` when there is none. -/
  summary : Json := .null
  /-- Whether it should no longer be used. -/
  deprecated : Bool := false
  /-- Its parameters, grouped by location. -/
  parameters? : Option TypeExpr := none
  /-- The names of its path parameters. -/
  pathParameterNames : List Json := []
  /-- The bodies that it takes. -/
  requestBodies : Content := []
  /-- The bodies that it answers with, by status. -/
  responses : List (String × Content) := []
  /-- The parts of the request path. -/
  address : List AddressPart := []

end ApiTypes
