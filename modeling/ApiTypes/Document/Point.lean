import ApiTypes.Text.Split

/-!
# Document points

A document point is the path of a document relative to the directory of the
entry document. Points are compared in normal form: parts separated by single
slashes, no part `.`, and `..` only where nothing is left to go up from. The
current directory itself is the empty point.
-/

namespace ApiTypes.Point

open ApiTypes.Text

/-- The slashes at the start that a normal form keeps: exactly two stay two,
any other number becomes one. -/
def rootSlashes : List Char → Nat
  | '/' :: '/' :: '/' :: _ => 1
  | '/' :: '/' :: _ => 2
  | '/' :: _ => 1
  | _ => 0

/-- The part that goes up one level. -/
def up : List Char := ['.', '.']

/-- Adds a part to the kept ones, the last of which comes first. A part `..`
removes the last kept part; with none left it is kept in a relative path and
dropped in an absolute one. -/
def push (rooted : Bool) (kept : List (List Char)) (part : List Char) : List (List Char) :=
  if part = [] ∨ part = ['.'] then kept
  else if part = up then
    match kept with
    | [] => if rooted then [] else [up]
    | last :: rest => if last = up then up :: kept else rest
  else part :: kept

/-- The parts of a path in normal form. -/
def normalParts (path : List Char) : List (List Char) :=
  ((splitAt '/' path).foldl (push (rootSlashes path != 0)) []).reverse

/-- The normal form of a path that has no backslash. -/
def normalChars (path : List Char) : List Char :=
  List.replicate (rootSlashes path) '/' ++ joinWith '/' (normalParts path)

/-- The normal form of a point. Backslashes count as slashes. -/
def normalize (point : String) : String :=
  String.ofList (normalChars (point.toList.map fun c => if c = '\\' then '/' else c))

/-- A text up to and with its last slash. -/
def throughLastSlash (path : List Char) : List Char := (path.reverse.dropWhile (· != '/')).reverse

/-- A text after its last slash. -/
def afterLastSlash (path : List Char) : List Char := (path.reverse.takeWhile (· != '/')).reverse

/-- The directory of a path, without slashes at its end unless it has only slashes. -/
def directoryChars (path : List Char) : List Char :=
  let head := throughLastSlash path
  if head.all (· == '/') then head else trimEnd (· == '/') head

/-- The directory of a path. -/
def directory (path : String) : String := String.ofList (directoryChars path.toList)

/-- The last part of a path. -/
def fileName (path : String) : String := String.ofList (afterLastSlash path.toList)

/-- A file name without its extension. Points at the start of the name do not
start an extension. -/
def stemChars (name : List Char) : List Char :=
  let body := name.dropWhile (· == '.')
  if body.contains '.' then
    name.takeWhile (· == '.') ++ (body.reverse.dropWhile (· != '.')).tail.reverse
  else name

/-- A path without the extension of its file name. -/
def withoutExtension (path : String) : String :=
  String.ofList (throughLastSlash path.toList ++ stemChars (afterLastSlash path.toList))

/-- A path read from a directory. A path that starts with a slash stands for itself. -/
def join (directory path : String) : String :=
  if path.toList.head? = some '/' then path
  else if directory.isEmpty || directory.toList.getLast? = some '/' then directory ++ path
  else directory ++ "/" ++ path

/-- The parts of a path between its slashes. -/
def parts (path : String) : List String := (splitAt '/' path.toList).map String.ofList

/-- The names on the way from the root of the file system to a path. A relative
path starts in a working directory so many levels below the root, and on the
way there the names are not known. -/
def namesFromRoot (levels : Nat) (path : String) : List (Option String) :=
  let names := normalParts path.toList
  if rootSlashes path.toList = 0 then
    let ups := names.takeWhile (· = up)
    List.replicate (levels - ups.length) none ++
      (names.drop ups.length).map fun name => some (String.ofList name)
  else names.map fun name => some (String.ofList name)

/-- What is left of two lists after their common beginning. -/
def dropCommon {α : Type} [DecidableEq α] : List α → List α → List α × List α
  | a :: as, b :: bs => if a = b then dropCommon as bs else (a :: as, b :: bs)
  | as, bs => (as, bs)

/-- The parts of a path as seen from a directory. Parts whose name is not known
are `none`. -/
def partsFrom (levels : Nat) (directory path : String) : List (Option String) :=
  let (back, forth) := dropCommon (namesFromRoot levels directory) (namesFromRoot levels path)
  List.replicate back.length (some "..") ++ forth

end ApiTypes.Point
