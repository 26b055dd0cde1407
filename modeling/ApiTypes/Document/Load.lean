import ApiTypes.Document.FileTree
import ApiTypes.Reference.Basic
import ApiTypes.Settings

/-!
# Loading documents

The entry document and every document that is reached from it by references to
other documents are loaded, each once. Points that wait to be loaded form a
stack: the last reference of a document is followed first. How YAML is read is up to
the caller.
-/

namespace ApiTypes

/-- The documents that the references in a document lead to, as points. -/
def remoteTargets (point : String) (document : Json) : List String :=
  (document.refs.filter fun ref => ref.toList.head? != some '#').map fun ref =>
    Point.normalize (Point.join (Point.directory point) (Reference.splitWritten ref).1)

/-- What loading has come to. -/
structure Loading where
  /-- The points of the documents that were opened, in order. -/
  opened : List String
  /-- The documents, or why there are none. -/
  result : Except Failure Members

namespace Loading

/-- Loads the points on a stack, the top of which comes first, and what they
lead to. `loaded` holds the documents that are loaded already; the allowance
bounds how many more there can be. -/
def loadFrom (yaml : YamlReader) (tree : FileTree) (base : String) :
    Nat → (loaded : Members) → (pending : List String) → Loading
  | 0, loaded, pending =>
    match pending.dropWhile loaded.has with
    | [] => ⟨[], .ok loaded⟩
    | _ :: _ => ⟨[], .error .exhausted⟩
  | allowance + 1, loaded, pending =>
    match pending.dropWhile loaded.has with
    | [] => ⟨[], .ok loaded⟩
    | point :: rest =>
      match tree.entry (Point.join base point) with
      | .absent => ⟨[], .error (.schema (.unresolved point ""))⟩
      | .tooLong => ⟨[], .error (.file .longName)⟩
      | .directory => ⟨[point], .error (.file .isDirectory)⟩
      | .file text =>
        match readDocument yaml point text with
        | .error failure => ⟨[point], .error failure⟩
        | .ok document =>
          let more := loadFrom yaml tree base allowance (loaded ++ [(point, document)])
            ((remoteTargets point document).reverse ++ rest)
          { more with opened := point :: more.opened }

/-- How many documents can be loaded: every file has at most two absolute
points, and one relative point for each directory from that of the entry
document up to the working directory. -/
def maxDocuments (tree : FileTree) (base : String) : Nat :=
  tree.files.length * ((FileTree.names base).length + 3)

end Loading

/-- The directory and the name of a file, by the names on its path. -/
def splitFile (path : String) : String × String :=
  let written := FileTree.pathTo (FileTree.isRooted path) (FileTree.names path).reverse
  (Point.directory written, Point.fileName written)

namespace YamlReader

/-- Loads the document at a path and all documents that it leads to, with a way to
read YAML. -/
def load (yaml : YamlReader) (tree : FileTree) (entryPath : String) : Loading :=
  let (base, name) := splitFile entryPath
  Loading.loadFrom yaml tree base (Loading.maxDocuments tree base + 1) [] [name]

/-- The graph of the document at a path and all documents that it leads to. -/
def loadGraph (yaml : YamlReader) (tree : FileTree) (entryPath : String) (settings : Settings) :
    Except Failure Graph := do
  let documents ← (yaml.load tree entryPath).result
  Graph.ofDocuments documents (splitFile entryPath).2 settings.componentRoot
    (← settings.componentDirectories)

end YamlReader

end ApiTypes
