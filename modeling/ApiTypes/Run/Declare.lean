import ApiTypes.Run.Convert

/-!
# Declarations of a run

The components of the entry document can be registered ahead, and every
registered schema is converted to a declaration. Conversions may register more
schemas, which are converted in their turn, so the declarations follow the
order of registration.
-/

namespace ApiTypes

namespace RunState

/-- The finished declaration of a canonical path. -/
def finished? (s : RunState) (canonicalPath : String) : Option Declaration :=
  s.finished.find? (·.canonicalPath = canonicalPath)

end RunState

namespace Context

/-- Registers the components with the given names in a component directory. -/
def registerAll (context : Context) (directory : Json) : List Json → Run (List (Option String))
  | [] => return []
  | name :: rest => do
    match context.settings.componentRoot, directory, name with
    | .str root, .str directory', .str name' =>
      let ref := Pointer.locate "" [root, directory', name']
      let resolution ← context.resolve context.graph.entryPoint (.str ref)
      let others ← context.registerAll directory rest
      return resolution.identifier? :: others
    | _, _, _ => throw (.malformed .notText)

/-- Registers the components in the given directories. -/
def registerIn (context : Context) (components : Json) :
    List Json → Run (List (Option String))
  | [] => return []
  | directory :: rest => do
    let members ← components.members
    if !directory.isKey then throw (.malformed .notKey)
    let names := match directory with
      | .str key => Members.get members key
      | _ => .null
    let here ← context.registerAll directory (← names.orEmpty.elements)
    let others ← context.registerIn components rest
    return here ++ others

/-- Registers all components of the entry document, and gives their
identifiers. A component that is not as deep as the settings say has none. -/
def registerComponents (context : Context) : Run (List (Option String)) := do
  let root ← context.graph.rootDocument.members
  if !context.settings.componentRoot.isKey then throw (.malformed .notKey)
  let components := match context.settings.componentRoot with
    | .str key => Members.get root key
    | _ => .null
  context.registerIn components.orEmpty (← (← context.settings.componentDirectories).elements)

/-- The schema of a registered path. -/
def registeredSchema (context : Context) (entry : Entry) : Run Json :=
  if entry.segments.isEmpty then Run.document context entry.documentPoint
  else Run.lookup context entry.documentPoint entry.segments

/-- The declaration of a registered schema. -/
def declare (context : Context) (entry : Entry) : Run Declaration := do
  let entryPoint := context.graph.entryPoint
  let schema ← Run.reporting entryPoint .null (context.registeredSchema entry)
  let type ← context.convert entryPoint entry.documentPoint schema
    (Pointer.locate "" entry.segments)
  return {
    identifier := entry.identifier
    type
    canonicalPath := entry.canonicalPath
    description := match schema with
      | .obj members => Members.get members "description"
      | _ => .null }

/-- Finishes the declarations of the registered schemas from a position on,
which must be fewer than the allowance. -/
def declareFrom (context : Context) : Nat → Nat → Run Unit
  | 0, _ => throw .exhausted
  | allowance + 1, position => do
    let s ← get
    match s.registry.entries[position]? with
    | none => return ()
    | some entry =>
      if (s.finished? entry.canonicalPath).isNone then
        let declaration ← context.declare entry
        modify fun s => { s with finished := declaration :: s.finished }
      context.declareFrom allowance (position + 1)

/-- The declarations of all registered schemas, and of those that are
registered on the way, in the order of registration. -/
def declarations (context : Context) : Run (List Declaration) := do
  let registered := (← get).registry.entries.length
  context.declareFrom (registered + Conversion.maxNested context .null + 1) 0
  let s ← get
  Run.record (.generated s.finished.length)
  return s.registry.entries.filterMap fun entry => s.finished? entry.canonicalPath

end Context

end ApiTypes
