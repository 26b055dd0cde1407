import ApiTypes.Json.Display
import ApiTypes.Json.Reader

/-!
# Failures

Why a conversion stops. Errors in the schemas carry the location at fault and
have a message. Malformed input that is met outside the schemas, and files
that cannot be read, have a cause only.
-/

namespace ApiTypes

/-- The keywords that compose a schema of others. -/
inductive Composition where
  /-- Exactly one of the members. -/
  | oneOf
  /-- All of the members. -/
  | allOf
  /-- At least one of the members. -/
  | anyOf
deriving DecidableEq, Repr

/-- The keyword of a composition. -/
def Composition.keyword : Composition → String
  | .oneOf => "oneOf"
  | .allOf => "allOf"
  | .anyOf => "anyOf"

/-- What is wrong with the shape of a schema. -/
inductive ShapeFault where
  /-- The value is neither an object nor a truth value. -/
  | notSchema
  /-- The value of a composition keyword is no list. -/
  | notMembers (kind : Composition)
  /-- The value of `items` is a list or a truth value. -/
  | notItems
deriving DecidableEq, Repr

/-- An error in the schemas of the documents. -/
inductive SchemaError where
  /-- A value that has not the shape of a schema. -/
  | shape (fault : ShapeFault) (value : Json) (location : String)
  /-- A request path that does not start with a slash. -/
  | requestPath (path : String) (location : String)
  /-- A reference to a path that is being expanded. `chain` holds the paths
  being expanded, the outermost first. -/
  | cycle (canonicalPath : String) (chain : List String)
  /-- A reference to something that does not exist. -/
  | unresolved (reference : String) (location : String)

namespace SchemaError

/-- The location at fault; empty when it is not known. -/
def location : SchemaError → String
  | .shape _ _ location => location
  | .requestPath _ location => location
  | .cycle canonicalPath _ => canonicalPath
  | .unresolved _ location => location

/-- What happened, without the location. -/
def summary : SchemaError → String
  | .shape .notSchema value _ =>
    "Schema must be an object or a boolean, got " ++ value.display
  | .shape (.notMembers kind) value _ =>
    kind.keyword ++ " must be a list of schemas, got " ++ value.display
  | .shape .notItems value _ => "Unsupported schema: items = " ++ value.display
  | .requestPath path _ => "Request path must start with '/': " ++ Json.displayText path
  | .cycle canonicalPath chain =>
    "Reference cycle detected: " ++ " -> ".intercalate (chain ++ [canonicalPath])
  | .unresolved reference _ => "Cannot resolve reference " ++ Json.displayText reference

/-- What happened, and where if that is known. -/
def message (e : SchemaError) : String :=
  if e.location.isEmpty then e.summary else e.summary ++ " (at " ++ e.location ++ ")"

end SchemaError

/-- Malformed input that is no schema. -/
inductive Malformed where
  /-- A value that is no object, where members are looked up. -/
  | notMapping
  /-- A value that is no text, where a text is taken apart. -/
  | notText
  /-- A value without elements, where its elements are visited. -/
  | notIterable
  /-- A list or an object, where a key is needed. -/
  | notKey
  /-- A value that is no text, where a text is matched or written. -/
  | notWritable
  /-- A value that is no whole number, where one is counted with. -/
  | notCount
  /-- A path parameter without a name. -/
  | missingName
  /-- Digits from which no number can be read. -/
  | badNumeral
  /-- An empty point, where a relative path to it is needed. -/
  | emptyPoint
  /-- An element that is no pair, where keys and values are read. -/
  | badPair
  /-- A command without one of its paths. -/
  | missingPath
  /-- A setting that has neither a value nor a default. -/
  | missingSetting
  /-- A key that holds no setting and cannot be set. -/
  | reservedSetting
  /-- A value that is no object, where a member is added. -/
  | notExtensible
  /-- A value that cannot stand for all settings. -/
  | notSettings
  /-- Settings of which the way to write them was overwritten. -/
  | unwritableSettings
deriving DecidableEq, Repr

/-- What is wrong with malformed input. -/
def Malformed.message : Malformed → String
  | .notMapping => "expected an object"
  | .notText => "expected a text"
  | .notIterable => "expected a list"
  | .notKey => "a list or an object cannot be a key"
  | .notWritable => "only a text can be written here"
  | .notCount => "expected a whole number"
  | .missingName => "a path parameter has no name"
  | .badNumeral => "the digits of a segment write no number"
  | .emptyPoint => "an empty document point has no relative path"
  | .badPair => "expected a key and a value"
  | .missingPath => "a path is missing"
  | .missingSetting => "a setting is missing"
  | .reservedSetting => "a key is reserved and cannot be set"
  | .notExtensible => "a member can only be added to an object"
  | .notSettings => "expected all settings"
  | .unwritableSettings => "the settings cannot be written"

/-- Files that cannot be read. -/
inductive FileFault where
  /-- The path names a directory. -/
  | isDirectory
  /-- The directory that a file is written to does not exist. -/
  | missing
  /-- The path leads through a file. -/
  | notDirectory
  /-- A name or the whole path has too many bytes. -/
  | longName
  /-- The path holds a null character. -/
  | nullCharacter
  /-- The text of the file cannot be read. -/
  | unreadable (fault : Json.ReadFault)
deriving DecidableEq, Repr

/-- What is wrong with a file. -/
def FileFault.message : FileFault → String
  | .isDirectory => "the path of a file names a directory"
  | .missing => "the directory of the output file does not exist"
  | .notDirectory => "a path leads through a file"
  | .longName => "the name of a file is too long"
  | .nullCharacter => "a path holds a null character"
  | .unreadable .notJson => "a file holds no JSON value"
  | .unreadable .longNumeral => "a file holds a number with too many digits"

/-- Why a conversion stops. -/
inductive Failure where
  /-- An error in the schemas. -/
  | schema (error : SchemaError)
  /-- Malformed input that is no schema. -/
  | malformed (cause : Malformed)
  /-- A file that cannot be read. -/
  | file (fault : FileFault)
  /-- More nested expansions than were allowed. -/
  | exhausted

/-- What happened. -/
def Failure.message : Failure → String
  | .schema error => error.message
  | .malformed cause => cause.message
  | .file fault => fault.message
  | .exhausted => "references are nested too deeply"

/-- The elements that a visit of a value meets: the items of a list, the keys
of an object, the characters of a text. -/
def Json.elements : Json → Except Failure (List Json)
  | .arr items => .ok items
  | .obj members => .ok (members.map fun pair => .str pair.1)
  | .str text => .ok (text.toList.map fun c => .str (String.singleton c))
  | _ => .error (.malformed .notIterable)

/-- The members of a value, where only an object will do. -/
def Json.members : Json → Except Failure Members
  | .obj members => .ok members
  | _ => .error (.malformed .notMapping)

/-- A value where an absent or empty one stands for an empty object. -/
def Json.orEmpty (value : Json) : Json := if value.truthy then value else .obj []

/-- A value where an absent or empty one stands for an empty list. -/
def Json.orNone (value : Json) : Json := if value.truthy then value else .arr []

end ApiTypes
