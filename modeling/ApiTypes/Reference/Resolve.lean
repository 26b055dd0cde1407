import ApiTypes.Reference.Basic
import ApiTypes.Run.State

/-!
# Resolving references

A reference names a component when it leads to a component document, or to a
place in its own document as many segments below the root of the components as
the settings say. Components are registered when a reference to them is
resolved, once it is certain that they exist; all other references stand for
what they point at.
-/

namespace ApiTypes

/-- A resolved reference. -/
structure Resolution where
  /-- The name of what it points at. -/
  name : String
  /-- The identifier of the component around it if that has one, else its name. -/
  resolvedName : String
  /-- How many segments lie below the root of the components. -/
  depth : Nat
  /-- The segments of the whole path. -/
  path : List String
  /-- The segments below the component. -/
  below : List String
  /-- Where the reference leads. -/
  kind : ReferenceKind
  /-- The document that it points into. -/
  documentPoint : String
  /-- What it points at, as document and pointer. -/
  canonicalPath : String
  /-- The identifier of the component that it names. -/
  identifier? : Option String
deriving DecidableEq, Repr

/-- The beginning of a list: so many items, or all but so many when the number
is negative. -/
def takeSigned {α : Type} (n : Int) (xs : List α) : List α :=
  xs.take (if 0 ≤ n then n.toNat else (xs.length + n).toNat)

/-- The rest of a list after its beginning. -/
def dropSigned {α : Type} (n : Int) (xs : List α) : List α :=
  xs.drop (if 0 ≤ n then n.toNat else (xs.length + n).toNat)

namespace Settings

/-- How many segments below the root lead to a component. -/
def depth (s : Settings) : Except Failure Int :=
  match s.componentDepth.wholeNumber? with
  | some n => .ok n
  | none => .error (.malformed .notCount)

/-- Whether a path starts at the root of the components. -/
def isUnderRoot (s : Settings) : List String → Bool
  | [] => false
  | first :: _ => s.componentRoot.isText first

/-- How many segments of a path lie below the root of the components. -/
def depthBelowRoot (s : Settings) (segments : List String) : Nat :=
  segments.length - if s.isUnderRoot segments then 1 else 0

/-- How many segments of a path lead to a component, when components are so
many segments below the root. -/
def span (s : Settings) (componentDepth : Int) (segments : List String) : Int :=
  componentDepth + if s.isUnderRoot segments then 1 else 0

/-- Whether a reference to a place names a component, when components are so
many segments below the root. -/
def namesComponent (s : Settings) (componentDepth : Int) (reference : Reference) : Bool :=
  reference.kind = .sameDocument && (s.depthBelowRoot reference.path : Int) = componentDepth

end Settings

namespace Context

/-- The qualifier of names from a document: none for the entry document, else
the name of the document without its extension. -/
def qualifierFor (context : Context) (documentPoint : String) : String :=
  if Point.normalize documentPoint = context.graph.entryPoint then ""
  else Point.withoutExtension (Point.fileName documentPoint)

/-- The segment that names the component on a path, given how many segments
lead to a component: the last segment when the path is too short. -/
def leafName (span : Int) (segments : List String) : String :=
  if 0 < span && span ≤ segments.length then segments[(span - 1).toNat]?.getD ""
  else segments.getLast?.getD ""

/-- The request for the name of the component at a place in a document. -/
def placeRequest (context : Context) (componentDepth : Int) (reference : Reference) :
    NameRequest where
  canonicalPath := reference.canonicalPath
  preferred := leafName (context.settings.span componentDepth reference.path) reference.path
  qualifier := context.qualifierFor reference.documentPoint
  documentPoint := reference.documentPoint
  segments := reference.path

/-- The request for the name of a component document. -/
def documentRequest (reference : Reference) (component : Component) : NameRequest where
  canonicalPath := Pointer.locate reference.documentPoint []
  preferred := Point.fileName component.name
  qualifier :=
    let group := Point.directory component.name
    if group.isEmpty then component.directory else group
  documentPoint := reference.documentPoint
  segments := []

/-- Resolves a reference to a place in a document. -/
def resolvePlace (context : Context) (reference : Reference) : Run Resolution := do
  let segments := reference.path
  let componentDepth ← context.settings.depth
  let span := context.settings.span componentDepth segments
  let leaf := leafName span segments
  let registry := (← get).registry
  let plainName := if leaf.isEmpty then "" else registry.escape leaf
  let identifier? ←
    if context.settings.namesComponent componentDepth reference then do
      let _ ← Run.lookup context reference.documentPoint segments
      let identifier ← Run.ensure (context.placeRequest componentDepth reference)
      pure (some identifier)
    else pure none
  let name := identifier?.getD plainName
  let around := Pointer.locate reference.documentPoint (takeSigned span segments)
  return {
    name
    resolvedName := ((← get).registry.nameFor? around).getD name
    depth := context.settings.depthBelowRoot segments
    path := segments
    below := dropSigned span segments
    kind := reference.kind
    documentPoint := reference.documentPoint
    canonicalPath := reference.canonicalPath
    identifier? }

/-- Resolves a reference to a component document. -/
def resolveComponent (context : Context) (reference : Reference) (component : Component) :
    Run Resolution := do
  let _ ← Run.document context reference.documentPoint
  let identifier ← Run.ensure (documentRequest reference component)
  let path := context.settings.componentRoot.inText :: component.directory ::
    Point.parts component.name
  return {
    name := identifier
    resolvedName := identifier
    depth := path.length - 1
    path
    below := []
    kind := reference.kind
    documentPoint := reference.documentPoint
    canonicalPath := Pointer.locate reference.documentPoint []
    identifier? := some identifier }

/-- Reads a reference from a document. -/
def classify (context : Context) (currentPoint : String) (ref : Json) : Run Reference :=
  match ref with
  | .str written => do
    Run.record (.classified currentPoint written)
    Reference.classify context.graph currentPoint written
  | _ => throw (.malformed .notText)

/-- Resolves a reference that was read from a document, and registers the
component that it names. -/
def resolve (context : Context) (currentPoint : String) (ref : Json) : Run Resolution := do
  let reference ← context.classify currentPoint ref
  match reference.kind with
  | .componentDocument component => context.resolveComponent reference component
  | _ => context.resolvePlace reference

/-- What a resolved reference points at. -/
def target (context : Context) (resolution : Resolution) : Run Json :=
  match resolution.kind with
  | .componentDocument _ => Run.document context resolution.documentPoint
  | _ => Run.lookup context resolution.documentPoint resolution.path

end Context

end ApiTypes
