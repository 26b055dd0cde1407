import ApiTypes.Document.Point
import ApiTypes.Failure
import ApiTypes.Json.Reader

/-!
# File trees

The files that documents are read from, by their paths relative to the working
directory. The working directory and those above it are directories, and so is
every directory that holds a known file or directory.

A path is followed name by name, and every name but the last one must lead to a
directory, also when `..` leads back from there. A name may have 255 bytes and
a path 4095.
-/

namespace ApiTypes

/-- Known files and directories. -/
structure FileTree where
  /-- Paths of files and their texts. -/
  files : List (String × String)
  /-- Paths of directories that may hold no known file. -/
  directories : List String := []

/-- What is at a path. -/
inductive FileEntry where
  /-- A file with its text. -/
  | file (text : String)
  /-- A directory. -/
  | directory
  /-- Nothing. -/
  | absent
  /-- Nothing can be there: a name or the whole path has too many bytes. -/
  | tooLong
deriving DecidableEq, Repr

namespace FileTree

/-- How many bytes a name can have. -/
def nameLimit : Nat := 255

/-- How many bytes a path can have. -/
def pathLimit : Nat := 4095

/-- Whether a path starts at the root of the file system. -/
def isRooted (path : String) : Bool := path.toList.head? == some '/'

/-- The names on a path. -/
def names (path : String) : List (List Char) :=
  (Text.splitAt '/' path.toList).filter fun name => name != [] && name != ['.']

/-- The path to a place, given by the names that lead there, the last one first. -/
def pathTo (rooted : Bool) (place : List (List Char)) : String :=
  String.ofList ((if rooted then ['/'] else []) ++ Text.joinWith '/' place.reverse)

/-- The shortest path to where a path leads if all its names are directories.
Backslashes are characters like any other. -/
def normal (path : String) : String :=
  pathTo (isRooted path) ((names path).foldl (Point.push (isRooted path)) [])

/-- The text of a file. -/
def text? (tree : FileTree) (path : String) : Option String :=
  (tree.files.find? fun file => normal file.1 == normal path).map (·.2)

/-- Whether a path in normal form leads on from another one. -/
def isBelow (above path : String) : Bool := (above.toList ++ ['/']).isPrefixOf path.toList

/-- Whether a directory is known or holds a known file or directory. -/
def hasDirectory (tree : FileTree) (path : String) : Bool :=
  tree.directories.contains (normal path) ||
    tree.directories.any (fun directory => isBelow (normal path) (normal directory)) ||
    tree.files.any fun file => isBelow (normal path) (normal file.1)

/-- Whether a path leads through a known file as if that were a directory. -/
def isBelowFile (tree : FileTree) (path : String) : Bool :=
  tree.files.any fun file => isBelow (normal file.1) (normal path)

/-- What is at a place, given by the names that lead there, the last one first. -/
def entryAt (tree : FileTree) (rooted : Bool) (place : List (List Char)) : FileEntry :=
  if place.all (· == Point.up) then .directory
  else
    let path := pathTo rooted place
    match tree.text? path with
    | some text => .file text
    | none => if tree.hasDirectory path then .directory else .absent

/-- What is at the end of a list of names that are followed from a place. -/
def follow (tree : FileTree) (rooted : Bool) (place : List (List Char)) :
    List (List Char) → FileEntry
  | [] => tree.entryAt rooted place
  | name :: rest =>
    match tree.entryAt rooted place with
    | .directory =>
      if nameLimit < (String.ofList name).utf8ByteSize then .tooLong
      else tree.follow rooted (Point.push rooted place name) rest
    | _ => .absent

/-- What is at a path. -/
def entry (tree : FileTree) (path : String) : FileEntry :=
  if path.toList.contains '\x00' then .absent
  else if pathLimit < path.utf8ByteSize then .tooLong
  else tree.follow (isRooted path) [] (names path)

/-- Whether something is at a path. -/
def has (tree : FileTree) (path : String) : Bool :=
  match tree.entry path with
  | .file _ => true
  | .directory => true
  | _ => false

/-- Writes a file in place of one at the same path, or as a new one. -/
def write (tree : FileTree) (path text : String) : FileTree :=
  { tree with files := (path, text) :: tree.files.filter fun file => normal file.1 != normal path }

end FileTree

/-- How YAML is read: the document that a text writes, or why it cannot be read. What
YAML can write and JSON cannot, such as a date, stands in the document as the
reader sees fit. A text whose aliases make it hold itself writes no document: no
walk through it would end. -/
abbrev YamlReader := String → Except Json.ReadFault Json

/-- Whether a file is read strictly as JSON, by its name. -/
def isJsonFile (path : String) : Bool :=
  let name := Point.afterLastSlash path.toList
  ".json".toList.isSuffixOf name && 5 < name.length

/-- The value that the text of a file writes. -/
def readFile (text : String) : Except Failure Json :=
  (Json.read text).mapError fun fault => .file (.unreadable fault)

/-- The document that a file writes. It is read as JSON if its name ends in `.json`,
and as YAML otherwise. -/
def readDocument (yaml : YamlReader) (path text : String) : Except Failure Json :=
  if isJsonFile path then readFile text
  else (yaml text).mapError fun fault => .file (.unreadable fault)

end ApiTypes
