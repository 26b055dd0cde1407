import ApiTypes.Document.Point
import ApiTypes.Document.Pointer
import ApiTypes.Failure
import ApiTypes.Text.Digit

/-!
# Document graphs

A graph holds the loaded documents under their points. Values inside a
document are reached by walking along segments, and a reference to a document
is read relative to the document that contains it. Documents in the component
directories are components and have a name.
-/

namespace ApiTypes

/-- Why a walk into a value stops. -/
inductive WalkFault where
  /-- The segment at this position, counted from one, leads nowhere. -/
  | missing (position : Nat)
  /-- A segment is made of digits but no number can be read from it. -/
  | badNumeral
deriving DecidableEq, Repr

/-- The fault of a walk that has one segment more at its start. -/
def WalkFault.deeper : WalkFault → WalkFault
  | .missing position => .missing (position + 1)
  | .badNumeral => .badNumeral

/-- The value that a segment leads to: the value of a key of an object, or the
item of a list at a position counted from zero. -/
def Json.child (node : Json) (segment : String) : Except WalkFault Json :=
  match node with
  | .obj members => match Members.get? members segment with
    | some value => .ok value
    | none => .error (.missing 1)
  | .arr items =>
    if Text.isDigits segment.toList then
      match Text.numeral? segment.toList with
      | some n => match items[n]? with
        | some item => .ok item
        | none => .error (.missing 1)
      | none => .error .badNumeral
    else .error (.missing 1)
  | _ => .error (.missing 1)

/-- The value that segments lead to. -/
def Json.walk (node : Json) : List String → Except WalkFault Json
  | [] => .ok node
  | segment :: rest => match node.child segment with
    | .ok value => match value.walk rest with
      | .ok found => .ok found
      | .error fault => .error fault.deeper
    | .error fault => .error fault

/-- A walk along two lists of segments is a walk along the second from the
value that the first leads to. -/
theorem Json.walk_append {node value : Json} {first : List String} (rest : List String)
    (h : node.walk first = .ok value) :
    node.walk (first ++ rest) =
      (value.walk rest).mapError fun fault => first.foldr (fun _ fault => fault.deeper) fault := by
  induction first generalizing node with
  | nil =>
    cases h
    simp only [List.nil_append]
    cases value.walk rest <;> rfl
  | cons segment more ih =>
    simp only [List.cons_append, Json.walk] at h ⊢
    cases hchild : node.child segment with
    | error fault => simp [hchild] at h
    | ok next =>
      simp only [hchild] at h ⊢
      cases hwalk : next.walk more with
      | error fault => simp [hwalk] at h
      | ok found =>
        simp only [hwalk, Except.ok.injEq] at h
        subst h
        rw [ih hwalk]
        cases found.walk rest <;> rfl

/-- Loaded documents. -/
structure Graph where
  /-- The documents under their points in normal form. -/
  documents : Members
  /-- The point of the entry document. -/
  entryPoint : String
  /-- The directory that holds the component directories. -/
  componentRoot : Json
  /-- The directories whose documents are components. -/
  componentDirectories : List Json
  /-- How many levels below the root of the file system the working directory is. -/
  workingLevels : Nat := 3

/-- A component that is a document of its own. -/
structure Component where
  /-- The component directory. -/
  directory : String
  /-- The path below the directory, without extension. -/
  name : String
deriving DecidableEq, Repr

/-- The document that a reference leads to. -/
structure Target where
  /-- The point of the document. -/
  point : String
  /-- The component that the document is. -/
  component? : Option Component
deriving DecidableEq, Repr

namespace Graph

/-- Documents under the normal forms of their points. -/
def normalDocuments (documents : Members) : Members :=
  Members.ofPairs (documents.map fun pair => (Point.normalize pair.1, pair.2))

/-- The graph of some documents, which must hold the entry document. -/
def ofDocuments (documents : Members) (entryPoint : String) (componentRoot : Json)
    (componentDirectories : Json) : Except Failure Graph := do
  let graph : Graph :=
    { documents := normalDocuments documents
      entryPoint := Point.normalize entryPoint
      componentRoot
      componentDirectories := ← componentDirectories.elements }
  if graph.documents.has graph.entryPoint then return graph
  else throw (.schema (.unresolved entryPoint (Pointer.locate entryPoint [])))

/-- The points of the documents. -/
def points (g : Graph) : List String := g.documents.map Prod.fst

/-- The entry document. -/
def rootDocument (g : Graph) : Json := g.documents.get g.entryPoint

/-- The document at a point. -/
def document (g : Graph) (point : String) : Except SchemaError Json :=
  let normal := Point.normalize point
  match g.documents.get? normal with
  | some document => .ok document
  | none => .error (.unresolved normal (Pointer.locate normal []))

/-- The value at a path in a document. The error of a path that leads nowhere
names the whole path and is located at its shortest part that leads nowhere. -/
def lookup (g : Graph) (point : String) (segments : List String) : Except Failure Json :=
  match g.document point with
  | .error e => .error (.schema e)
  | .ok document => match document.walk segments with
    | .ok value => .ok value
    | .error .badNumeral => .error (.malformed .badNumeral)
    | .error (.missing position) =>
      .error (.schema (.unresolved (Pointer.locate point segments)
        (Pointer.locate point (segments.take position))))

/-- The parts of a point as seen from the directory of the entry document. -/
def partsFromEntry (g : Graph) (point : String) : Except Failure (List (Option String)) :=
  let directory := Point.directory g.entryPoint
  if directory.isEmpty then .ok ((Point.parts point).map some)
  else if point.isEmpty then .error (.malformed .emptyPoint)
  else .ok (Point.partsFrom g.workingLevels directory point)

/-- The component that the document with these parts is. -/
def component? (g : Graph) : List (Option String) → Option Component
  | some root :: some directory :: first :: rest =>
    if g.componentRoot.isText root && g.componentDirectories.any (Json.isText directory) then
      let names := (first :: rest).map fun part => part.getD ""
      some ⟨directory, Point.withoutExtension ("/".intercalate names)⟩
    else none
  | _ => none

/-- The document that a relative path in another document leads to. -/
def target (g : Graph) (currentPoint path : String) : Except Failure Target := do
  let directory := Point.directory (Point.normalize currentPoint)
  let point := Point.normalize (Point.join directory path)
  return ⟨point, g.component? (← g.partsFromEntry point)⟩

end Graph

end ApiTypes
