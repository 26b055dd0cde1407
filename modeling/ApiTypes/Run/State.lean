import ApiTypes.Declaration
import ApiTypes.Document.Graph
import ApiTypes.Registry
import ApiTypes.Settings
import ApiTypes.TypeExpr.Names

/-!
# Runs

A run converts schemas of one graph. Its state is the registry of names, the
paths that are being expanded, the finished declarations and a journal of what
happened. A run that fails keeps the state it has reached.
-/

namespace ApiTypes

/-- How serious a diagnostic is. -/
inductive Severity where
  /-- The conversion goes on. -/
  | warning
  /-- The conversion has stopped. -/
  | error
deriving DecidableEq, Repr

/-- A report about a schema. -/
structure Diagnostic where
  /-- How serious it is. -/
  severity : Severity
  /-- What happened. -/
  message : String
  /-- A schema that helps to find the place, `null` when there is none. -/
  context : Json := .null

/-- The text of a diagnostic: its message, and its context below. -/
def Diagnostic.text (d : Diagnostic) : String :=
  match d.context with
  | .null => d.message
  | context => d.message ++ "\n\n" ++ context.text ++ "\n"

/-- Something that happened in a run. -/
inductive Event where
  /-- A diagnostic was reported. -/
  | reported (diagnostic : Diagnostic)
  /-- A reference was read from a document. -/
  | classified (currentPoint reference : String)
  /-- The document at a point was asked for. -/
  | opened (point : String)
  /-- The name of a schema was asked for. -/
  | named (request : NameRequest)
  /-- A path began to be expanded; the paths being expanded since then, the
  outermost first. -/
  | entered (inFlight : List String)
  /-- All operations were collected. -/
  | collected (count : Nat)
  /-- All declarations were generated. -/
  | generated (count : Nat)

/-- A rule that gives the types of primitive schemas with a format, which are
known by where the schema was read and what was read there. -/
structure FormatRule where
  /-- The type of a schema, if the rule gives one. It has no declared components. -/
  type? : (path : String) → (raw : Members) → Option { type : TypeExpr // type.components = [] }

/-- The rule that names a type for each of some formats. -/
def FormatRule.ofNames (name? : String → Option Json) : FormatRule where
  type? _ raw := ((raw.get "format").text?.bind name?).map fun name => ⟨.external name, rfl⟩

instance : Coe (String → Option Json) FormatRule := ⟨FormatRule.ofNames⟩

/-- What a run converts and how. -/
structure Context where
  /-- The documents. -/
  graph : Graph
  /-- The settings of the conversion. -/
  settings : Settings := {}
  /-- The types that stand for formats, before those of the settings. -/
  formatType? : FormatRule := FormatRule.ofNames fun _ => none

/-- The state of a run. -/
structure RunState where
  /-- The registered schemas. -/
  registry : Registry
  /-- The paths that are being expanded, the outermost first. -/
  inFlight : List String := []
  /-- The finished declarations, the latest first. -/
  finished : List Declaration := []
  /-- What happened, the latest first. -/
  journal : List Event := []

/-- A step of a run. -/
abbrev Run := ExceptT Failure (StateM RunState)

/-- The state before a run. -/
def RunState.initial (context : Context) : RunState :=
  { registry := .empty context.settings.pascalNames.truthy }

/-- The diagnostics in the order in which they were reported. -/
def RunState.diagnostics (s : RunState) : List Diagnostic :=
  s.journal.reverse.filterMap fun event => match event with
    | .reported diagnostic => some diagnostic
    | _ => none

namespace Run

/-- The result of a calculation without state. -/
def ofExcept {α : Type} (result : Except Failure α) : Run α := ExceptT.mk (pure result)

instance : MonadLift (Except Failure) Run := ⟨ofExcept⟩

/-- Writes an event into the journal. -/
def record (event : Event) : Run Unit := modify fun s => { s with journal := event :: s.journal }

/-- Reports a diagnostic. -/
def report (severity : Severity) (message : String) (context : Json) : Run Unit :=
  record (.reported ⟨severity, message, context⟩)

/-- Runs a step and, if it ends with an error in the schemas, reports the error
after the point of the entry document. -/
def reporting {α : Type} (entryPoint : String) (context : Json) (step : Run α) : Run α :=
  tryCatch step fun failure => do
    match failure with
    | .schema error => report .error (entryPoint ++ ": " ++ error.message) context
    | _ => pure ()
    throw failure

/-- The document at a point. -/
def document (context : Context) (point : String) : Run Json := do
  record (.opened point)
  ofExcept ((context.graph.document point).mapError .schema)

/-- The value at a path in a document. -/
def lookup (context : Context) (point : String) (segments : List String) : Run Json := do
  record (.opened point)
  ofExcept (context.graph.lookup point segments)

/-- The identifier of a schema, which is registered when its path is new. -/
def ensure (request : NameRequest) : Run String := do
  record (.named request)
  let s ← get
  let (identifier, registry) := s.registry.ensure request
  set { s with registry }
  return identifier

/-- Runs a step while a path is being expanded. A path that is already being
expanded is an error. -/
def expanding {α : Type} (canonicalPath : String) (step : Run α) : Run α := ExceptT.mk fun s =>
  if canonicalPath ∈ s.inFlight then
    (.error (.schema (.cycle canonicalPath s.inFlight)), s)
  else
    let inFlight := s.inFlight ++ [canonicalPath]
    let (result, after) := step.run { s with inFlight, journal := .entered inFlight :: s.journal }
    (result, { after with inFlight := after.inFlight.dropLast })

end Run

end ApiTypes
