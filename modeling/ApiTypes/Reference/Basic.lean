import ApiTypes.Document.Graph

/-!
# References

A reference names a document, by a path relative to the document that holds
the reference, and a pointer into it after `#`. It points into the same
document, at a component that is a document of its own, or anywhere else.
-/

namespace ApiTypes

/-- Where a reference leads. -/
inductive ReferenceKind where
  /-- To a pointer in the document that holds the reference. -/
  | sameDocument
  /-- To a whole document that is a component. -/
  | componentDocument (component : Component)
  /-- To a pointer in a document, or to a whole document that is no component. -/
  | otherDocument
deriving DecidableEq, Repr

/-- A reference that was read from a document. -/
structure Reference where
  /-- The reference as it is written. -/
  written : String
  /-- The point of the document that holds it. -/
  currentPoint : String
  /-- Where it leads. -/
  kind : ReferenceKind
  /-- The document that it points into. -/
  documentPoint : String
  /-- The segments of its pointer. -/
  path : List String
deriving DecidableEq, Repr

namespace Reference

/-- The document part and the pointer of a written reference. -/
def splitWritten (written : String) : String × String :=
  (String.ofList (written.toList.takeWhile (· != '#')),
    String.ofList ((written.toList.dropWhile (· != '#')).drop 1))

/-- Where a reference that was read from a document leads. -/
def classify (graph : Graph) (currentPoint written : String) : Except Failure Reference := do
  let current := Point.normalize currentPoint
  if written.toList.head? = some '#' then
    return ⟨written, current, .sameDocument, current, Pointer.split written⟩
  else
    let (documentPart, fragment) := splitWritten written
    let target ← graph.target current documentPart
    let path := Pointer.split fragment
    match target.component? with
    | some component =>
      if path.isEmpty then
        return ⟨written, current, .componentDocument component, target.point, path⟩
      else return ⟨written, current, .otherDocument, target.point, path⟩
    | none => return ⟨written, current, .otherDocument, target.point, path⟩

/-- The canonical path of what a reference points at. -/
def canonicalPath (reference : Reference) : String :=
  Pointer.locate reference.documentPoint reference.path

end Reference

mutual

/-- The references anywhere inside a value, those of an object before those
inside its members. -/
def Json.refs : Json → List String
  | .arr items => refsOfItems items
  | .obj members =>
    (match Members.get? members "$ref" with
      | some (.str ref) => [ref]
      | _ => []) ++ refsOfMembers members
  | _ => []

/-- The references inside the items of a list. -/
def Json.refsOfItems : List Json → List String
  | [] => []
  | item :: rest => item.refs ++ refsOfItems rest

/-- The references inside the members of an object. -/
def Json.refsOfMembers : List (String × Json) → List String
  | [] => []
  | (_, value) :: rest => value.refs ++ refsOfMembers rest

end

/-- The references inside the documents of a graph. -/
def Graph.refs (graph : Graph) : List String :=
  graph.documents.flatMap fun pair => pair.2.refs

end ApiTypes
