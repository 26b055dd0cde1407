import ApiTypes.TypeExpr.Basic

/-!
# Named declarations

What a run produces for every registered schema: a name and the type it
stands for.
-/

namespace ApiTypes

/-- A named type. -/
structure Declaration where
  /-- The name. -/
  identifier : String
  /-- The type that it stands for. -/
  type : TypeExpr
  /-- Where the schema is, as document and pointer. -/
  canonicalPath : String := ""
  /-- The description of the schema, `null` when there is none. -/
  description : Json := .null

end ApiTypes
