import ApiTypes.Text.Split

/-!
# Pointers into documents

A pointer is a list of segments. In a location the segments are written after
a `#`, each with a slash before it, and inside a segment `~` is written `~0`
and `/` is written `~1`.
-/

namespace ApiTypes.Pointer

open ApiTypes.Text

/-- A segment as it is written in a location. -/
def escapeSegment (segment : List Char) : List Char :=
  segment.flatMap fun c => if c = '~' then ['~', '0'] else if c = '/' then ['~', '1'] else [c]

/-- Every `~1` becomes a slash. -/
def unescapeSlash : List Char → List Char
  | '~' :: '1' :: rest => '/' :: unescapeSlash rest
  | c :: rest => c :: unescapeSlash rest
  | [] => []

/-- Every `~0` becomes a tilde. -/
def unescapeTilde : List Char → List Char
  | '~' :: '0' :: rest => '~' :: unescapeTilde rest
  | c :: rest => c :: unescapeTilde rest
  | [] => []

/-- The segment that is written in a location, slashes first. -/
def unescapeSegment (written : List Char) : List Char := unescapeTilde (unescapeSlash written)

/-- A text without one `#` at its start. -/
def dropHash : List Char → List Char
  | '#' :: rest => rest
  | text => text

/-- A text with a slash before it, unless it is empty or has one. -/
def leadSlash : List Char → List Char
  | [] => []
  | '/' :: rest => '/' :: rest
  | text => '/' :: text

/-- The segments of a written pointer. A `#` before it and the slashes at
either end do not count. -/
def splitChars (written : List Char) : List (List Char) :=
  let body := trim (· == '/') (dropHash written)
  if body.isEmpty then [] else (splitAt '/' body).map unescapeSegment

/-- The segments of a written pointer. -/
def split (written : String) : List String := (splitChars written.toList).map String.ofList

/-- The written form of segments, without slash before the first. -/
def joinChars (segments : List (List Char)) : List Char :=
  joinWith '/' (segments.map escapeSegment)

/-- The location of a written pointer in a document. -/
def locateWritten (documentPoint written : String) : String :=
  documentPoint ++ "#" ++ String.ofList (leadSlash (dropHash written.toList))

/-- The location of segments in a document. -/
def locate (documentPoint : String) (segments : List String) : String :=
  locateWritten documentPoint (String.ofList (joinChars (segments.map String.toList)))

/-- The written pointer of a child: the pointer of the parent without slashes
at its end, and then the segments with a slash before each. -/
def child (parent : String) (segments : List String) : String :=
  String.ofList (trimEnd (· == '/') parent.toList ++
    segments.flatMap fun segment => '/' :: escapeSegment segment.toList)

end ApiTypes.Pointer
