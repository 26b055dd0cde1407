import ApiTypes.Failure

/-!
# Settings

How references are named and types are printed. The values are kept as they
are written and are read where they are used, so that a setting of the wrong
kind only matters to a conversion that needs it.

Unknown keys are ignored, but for four that stand for the settings as a whole.
`__dict__` gives all settings at once: those it leaves out have their defaults
again, and the two whose default is made anew for each use are missing from
then on and cannot be set. `__class__` and `__weakref__` cannot be given, and
settings of which `to_dict` was given cannot be written any more.
-/

namespace ApiTypes

/-- Settings of the resolution of references and the conversion of types. -/
structure Settings where
  /-- The segment under which the components of a document are. -/
  componentRoot : Json := .str "components"
  /-- How many segments below the root lead to a component. -/
  componentDepth : Json := .int 2
  /-- The directories whose documents are components. -/
  componentDirectories? : Option Json := some (.arr [.str "schemas"])
  /-- Names of the types that stand for formats. -/
  formatOverrides? : Option Json := some (.obj [])
  /-- The name of the key in index signatures. -/
  indexKey : Json := .str "key"
  /-- Whether the names of components are capitalised word by word. -/
  pascalNames : Json := .bool false
  /-- Whether the settings can be written. -/
  writable : Bool := true

/-- Settings of the printed text. -/
structure Layout where
  /-- Whether the comment at the top is printed. -/
  generationComment : Json := .bool true
  /-- The unit of indentation. -/
  indent : Json := .str "  "
  /-- Whether object declarations are printed as interfaces. -/
  interfaces : Json := .bool true
  /-- Whether the types of operations are printed. -/
  operations : Json := .bool true
  /-- Whether the settings can be written. -/
  writable : Bool := true

/-- All settings. -/
structure Configuration where
  /-- Settings of the conversion. -/
  converter : Settings := {}
  /-- Settings of the printed text. -/
  printer : Layout := {}

/-- A value that must be there. -/
def present {α : Type} : Option α → Except Failure α
  | some value => .ok value
  | none => .error (.malformed .missingSetting)

namespace Settings

/-- The directories whose documents are components. -/
def componentDirectories (s : Settings) : Except Failure Json := present s.componentDirectories?

/-- Names of the types that stand for formats. -/
def formatOverrides (s : Settings) : Except Failure Json := present s.formatOverrides?

/-- The settings that one object gives all at once. -/
def ofRecord (members : Members) : Settings :=
  let default : Settings := {}
  { componentRoot := (members.get? "component_root").getD default.componentRoot
    componentDepth := (members.get? "component_depth").getD default.componentDepth
    componentDirectories? := members.get? "component_directories"
    formatOverrides? := members.get? "format_overrides"
    indexKey := (members.get? "index_signature_key").getD default.indexKey
    pascalNames := (members.get? "pascal_case_names").getD default.pascalNames
    writable := !members.has "to_dict" }

/-- Settings with one key set. -/
def set (s : Settings) (key : String) (value : Json) : Except Failure Settings :=
  match key with
  | "component_root" => .ok { s with componentRoot := value }
  | "component_depth" => .ok { s with componentDepth := value }
  | "component_directories" =>
    .ok { s with componentDirectories? := s.componentDirectories?.map fun _ => value }
  | "format_overrides" => .ok { s with formatOverrides? := s.formatOverrides?.map fun _ => value }
  | "index_signature_key" => .ok { s with indexKey := value }
  | "pascal_case_names" => .ok { s with pascalNames := value }
  | "to_dict" => .ok { s with writable := false }
  | "__dict__" => match value with
    | .obj members => .ok (ofRecord members)
    | _ => .error (.malformed .notSettings)
  | "__class__" => .error (.malformed .notSettings)
  | "__weakref__" => .error (.malformed .reservedSetting)
  | _ => .ok s

/-- The settings that an object writes, key by key. -/
def ofMembers (members : Members) : Except Failure Settings :=
  members.foldlM (fun s pair => s.set pair.1 pair.2) {}

end Settings

namespace Layout

/-- The layout that one object gives all at once. -/
def ofRecord (members : Members) : Layout :=
  let default : Layout := {}
  { generationComment := (members.get? "add_generation_comment").getD default.generationComment
    indent := (members.get? "indent").getD default.indent
    interfaces := (members.get? "use_interfaces").getD default.interfaces
    operations := (members.get? "emit_operations").getD default.operations
    writable := !members.has "to_dict" }

/-- A layout with one key set. -/
def set (l : Layout) (key : String) (value : Json) : Except Failure Layout :=
  match key with
  | "add_generation_comment" => .ok { l with generationComment := value }
  | "indent" => .ok { l with indent := value }
  | "use_interfaces" => .ok { l with interfaces := value }
  | "emit_operations" => .ok { l with operations := value }
  | "to_dict" => .ok { l with writable := false }
  | "__dict__" => match value with
    | .obj members => .ok (ofRecord members)
    | _ => .error (.malformed .notSettings)
  | "__class__" => .error (.malformed .notSettings)
  | "__weakref__" => .error (.malformed .reservedSetting)
  | _ => .ok l

/-- The layout that an object writes, key by key. -/
def ofMembers (members : Members) : Except Failure Layout :=
  members.foldlM (fun l pair => l.set pair.1 pair.2) {}

end Layout

/-- The configuration that an object writes. A group of settings that is no
object is ignored. -/
def Configuration.ofJson (value : Json) : Except Failure Configuration := do
  let members ← value.members
  members.foldlM (fun c pair =>
    match pair.1, pair.2 with
    | "converter", .obj members => do return { c with converter := ← Settings.ofMembers members }
    | "printer", .obj members => do return { c with printer := ← Layout.ofMembers members }
    | _, _ => .ok c) {}

/-- The key and value of an element that is a pair: a list of two values, an
object of two keys or a text of two characters. -/
def Json.pair? (value : Json) : Except Failure (Json × Json) := do
  match ← value.elements with
  | [key, value] => return (key, value)
  | _ => throw (.malformed .badPair)

/-- The text under which a value is written as the key of an object. -/
def Json.keyText : Json → String
  | .str s => s
  | .null => "null"
  | .bool true => "true"
  | .bool false => "false"
  | .int n => toString n
  | .float x => (Decimal.Reading.ofFloat x).text "Infinity" "NaN"
  | _ => ""

/-- Sets the value of a key among entries with keys of any kind. A key that is
present keeps its place. -/
def Json.setEntry (key value : Json) : List (Json × Json) → List (Json × Json)
  | [] => [(key, value)]
  | (k, v) :: rest =>
    if k.sameKey key then (k, value) :: rest else (k, v) :: setEntry key value rest

/-- The object that a value writes: an object itself, or the pairs that a
visit of the value meets. Of pairs with one key the last counts. -/
def Json.mapping (value : Json) : Except Failure Members :=
  match value with
  | .obj members => .ok members
  | value => do
    let entries ← (← value.elements).foldlM (fun entries element => do
      let (key, value) ← element.pair?
      if key.isKey then return setEntry key value entries
      else throw (.malformed .notKey)) []
    return entries.map fun entry => (entry.1.keyText, entry.2)

/-- All settings of the conversion as an object. -/
def Settings.toJson (s : Settings) : Except Failure Json := do
  if !s.writable then throw (.malformed .unwritableSettings)
  let directories ← (← s.componentDirectories).elements
  let overrides ← (← s.formatOverrides).mapping
  return .obj [
    ("component_root", s.componentRoot),
    ("component_depth", s.componentDepth),
    ("component_directories", .arr directories),
    ("format_overrides", .obj overrides),
    ("index_signature_key", s.indexKey),
    ("pascal_case_names", s.pascalNames)]

/-- All settings of the printed text as an object. -/
def Layout.toJson (l : Layout) : Except Failure Json := do
  if !l.writable then throw (.malformed .unwritableSettings)
  return .obj [
    ("add_generation_comment", l.generationComment),
    ("indent", l.indent),
    ("use_interfaces", l.interfaces),
    ("emit_operations", l.operations)]

/-- All settings as an object. -/
def Configuration.toJson (c : Configuration) : Except Failure Json := do
  return .obj [("converter", ← c.converter.toJson), ("printer", ← c.printer.toJson)]

end ApiTypes
