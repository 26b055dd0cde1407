import ApiTypes.Identifier
import ApiTypes.Json.Display

/-!
# Address templates

The path of a request is split into literal text and path parameters. A
parameter stands where its name is written between braces; where several could
stand, the one declared first does.
-/

namespace ApiTypes

/-- A piece of a request address. -/
inductive AddressPart where
  /-- Literal text. -/
  | text (value : String)
  /-- A path parameter, by its name. -/
  | parameter (name : Json)

namespace AddressPart

/-- How a parameter is written in a request path. -/
def placeholder (name : Json) : List Char := '\x7b' :: name.inText.toList ++ ['\x7d']

/-- Sets the name that a placeholder stands for. A placeholder that is present
keeps its place. -/
def putPlaceholder (mark : List Char) (name : Json) :
    List (List Char × Json) → List (List Char × Json)
  | [] => [(mark, name)]
  | (m, n) :: rest =>
    if m = mark then (m, name) :: rest else (m, n) :: putPlaceholder mark name rest

/-- The placeholders of the declared path parameters, in order. -/
def placeholders (names : List Json) : List (List Char × Json) :=
  names.foldl (fun marks name => putPlaceholder (placeholder name) name marks) []

/-- The literal text read so far, reversed, as a part unless it is empty. -/
def flush (literal : List Char) : List AddressPart :=
  if literal.isEmpty then [] else [.text (String.ofList literal.reverse)]

/-- The parts of a path, of which `literal` is the literal text read before it,
reversed, and the next `skip` characters belong to a placeholder that was met. -/
def scan (marks : List (List Char × Json)) (literal : List Char) (skip : Nat) :
    List Char → List AddressPart
  | [] => flush literal
  | c :: rest =>
    match skip with
    | skip + 1 => scan marks literal skip rest
    | 0 =>
      match marks.find? fun mark => mark.1.isPrefixOf (c :: rest) with
      | some (mark, name) =>
        flush literal ++ .parameter name :: scan marks [] (mark.length - 1) rest
      | none => scan marks (c :: literal) 0 rest

/-- The parts of a request path, given the names of its path parameters.
Without any, the path is one literal part. -/
def ofPath (path : String) (names : List Json) : List AddressPart :=
  if names.isEmpty then [.text path] else scan (placeholders names) [] 0 path.toList

end AddressPart

/-- The name of an operation that declares none: its method and the
capitalised words of its path. -/
def defaultOperationId (method path : String) : String := method ++ Identifier.pascal path

end ApiTypes
