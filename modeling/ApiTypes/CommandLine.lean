import ApiTypes.Document.Load
import ApiTypes.Module
import ApiTypes.Operation.Collect
import ApiTypes.Run.Declare
import ApiTypes.Text.Blank
import ApiTypes.Text.Console

/-!
# The command line

The command reads an API description, generates its types and writes them to a
file. What it does is a function of the files that it finds: the log, the exit
code and the files afterwards. Arguments that cannot be understood, and paths
of input files that do not exist, are usage errors.
-/

namespace ApiTypes

/-- The arguments of the command. -/
structure Arguments where
  /-- The file with the settings. -/
  configuration? : Option String := none
  /-- Whether the types of operations are left out. -/
  noOperations : Bool := false
  /-- Whether the log holds everything. -/
  verbose : Bool := false
  /-- Whether only help is asked for. -/
  help : Bool := false
  /-- The paths: what is read and what is written. -/
  paths : List String := []
deriving DecidableEq, Repr

namespace Arguments

/-- The arguments with a group of one-letter options, and whether the value of
the last one is still to come. -/
def addShort (a : Arguments) : List Char → Option (Arguments × Bool)
  | [] => some (a, false)
  | 'v' :: rest => addShort { a with verbose := true } rest
  | ['c'] => some (a, true)
  | 'c' :: value => some ({ a with configuration? := some (String.ofList value) }, false)
  | _ => none

/-- The arguments with an option that has a name. -/
def addLong (a : Arguments) (name : String) (value? : Option String) : Option (Arguments × Bool) :=
  match name, value? with
  | "config", some value => some ({ a with configuration? := some value }, false)
  | "config", none => some (a, true)
  | "no-operations", none => some ({ a with noOperations := true }, false)
  | "verbose", none => some ({ a with verbose := true }, false)
  | "help", none => some ({ a with help := true }, false)
  | _, _ => none

/-- The arguments with one more. The result says whether it needs a value, which
is the next one. -/
def add (a : Arguments) (argument : String) : Option (Arguments × Bool) :=
  match argument.toList with
  | '-' :: '-' :: option =>
    let name := option.takeWhile (· != '=')
    let value? := match option.dropWhile (· != '=') with
      | [] => none
      | _ :: value => some (String.ofList value)
    a.addLong (String.ofList name) value?
  | '-' :: c :: option => a.addShort (c :: option)
  | _ => some ({ a with paths := a.paths ++ [argument] }, false)

/-- Reads arguments one after another. After `--` all of them are paths. -/
def readFrom (a : Arguments) (needsValue : Bool) : List String → Option Arguments
  | [] => if needsValue then none else some a
  | argument :: rest =>
    if needsValue then readFrom { a with configuration? := some argument } false rest
    else if argument = "--" then some { a with paths := a.paths ++ rest }
    else match a.add argument with
      | some (a, needsValue) => readFrom a needsValue rest
      | none => none

/-- The arguments, if they can be understood. -/
def read? (arguments : List String) : Option Arguments := readFrom {} false arguments

/-- The path that is read. -/
def input? (a : Arguments) : Option String := a.paths[0]?

/-- The path that is written. -/
def output? (a : Arguments) : Option String := a.paths[1]?

/-- Whether there are more paths than the command takes. -/
def hasTooMany (a : Arguments) : Bool := 2 < a.paths.length

end Arguments

/-- What the command does. -/
inductive Outcome where
  /-- The arguments are wrong; nothing is done. -/
  | usageError
  /-- It ends with a log, files, and a failure that is no error in the schemas. -/
  | finished (exitCode : Nat) (log : String) (files : FileTree) (failure? : Option Failure)

namespace CommandLine

/-- How the command reads YAML: it reads what YAML and JSON write alike, and a blank text
as `null`. -/
def readYaml : YamlReader := fun text =>
  if text.toList.all Text.isBlank then .ok .null else Json.read text

end CommandLine

/-- The graph of the document at a path and all documents that it leads to, as the
command loads them. -/
def loadGraph (files : FileTree) (entryPath : String) (settings : Settings) :
    Except Failure Graph :=
  CommandLine.readYaml.loadGraph files entryPath settings

namespace CommandLine

/-- The name of the command. -/
def commandName : String := "openapi_schema_to_types"

/-- A path as it is shown: from the root of the file system. -/
def shown (workingDirectory path : String) : String :=
  FileTree.normal (Point.join workingDirectory path)

/-- What is where a path leads if all its names are directories. -/
def entry (files : FileTree) (path : String) : FileEntry := files.entry (FileTree.normal path)

/-- A path as the generation comment shows it: its name if it exists. -/
def inComment (workingDirectory : String) (files : FileTree) (path : String) :
    Except Failure String :=
  match entry files path with
  | .absent => .ok (shown workingDirectory path)
  | .tooLong => .error (.file .longName)
  | _ => .ok (Point.fileName (shown workingDirectory path))

/-- The comment at the top of the generated text: the command as it was called. -/
def generationComment (workingDirectory : String) (files : FileTree) (a : Arguments) :
    Except Failure String := do
  let configuration ← match a.configuration? with
    | some path => do pure ["--config", ← inComment workingDirectory files path]
    | none => pure []
  let paths ← a.paths.mapM (inComment workingDirectory files)
  let noOperations := if a.noOperations then ["--no-operations"] else []
  let verbose := if a.verbose then ["--verbose"] else []
  return "Generated by " ++ " ".intercalate
    (commandName :: paths ++ configuration ++ noOperations ++ verbose)

/-- A line of the log. -/
def logLine (level source message : String) : String :=
  level ++ " " ++ commandName ++ "." ++ source ++ ": " ++ message ++ "\n"

/-- The lines that an event of a run gives. -/
def eventText (verbose : Bool) : Event → String
  | .reported ⟨.warning, message, context⟩ =>
    logLine "WARNING" "pipeline.analyzer.diagnostics" (Diagnostic.text ⟨.warning, message, context⟩)
  | .reported ⟨.error, message, context⟩ =>
    logLine "ERROR" "pipeline.analyzer.diagnostics" (Diagnostic.text ⟨.error, message, context⟩)
  | .collected count =>
    if verbose then
      logLine "DEBUG" "pipeline.operations" ("Collected " ++ toString count ++ " operations")
    else ""
  | .generated count =>
    if verbose then
      logLine "DEBUG" "pipeline.generator"
        ("Generated " ++ toString count ++ " named declarations")
    else ""
  | _ => ""

/-- The log of a journal, whose latest event comes first. -/
def journalText (verbose : Bool) (journal : List Event) : String :=
  String.join (journal.reverse.map (eventText verbose))

/-- The lines about the documents that were opened for a path in normal form. -/
def loadingText (workingDirectory path : String) (opened : List String) : String :=
  let (base, name) := splitFile path
  let directory := shown workingDirectory base
  let place (point : String) : String :=
    if point = name then shown workingDirectory path
    else if point.isEmpty then directory
    else Point.join directory point
  String.join (opened.map fun point =>
    logLine "DEBUG" "document_loader" ("Loading " ++ place point))

/-- The settings: those of a file, or the defaults. -/
def configuration (files : FileTree) (a : Arguments) : Except Failure Configuration := do
  let c ← match a.configuration? with
    | none => pure {}
    | some path => match files.text? path with
      | some text => do Configuration.ofJson (← readFile text)
      | none => throw (.file .isDirectory)
  return if a.noOperations then
      { c with printer := { c.printer with operations := .bool false } }
    else c

/-- What is generated: the declarations and the operations. -/
def generate (context : Context) (c : Configuration) :
    Run (List Declaration × List Operation) := do
  let _ ← context.registerComponents
  let operations ←
    if c.printer.operations.truthy then context.operations else pure []
  let declarations ← context.declarations
  return (declarations, operations)

/-- The files with a text written to a path. -/
def writeText (files : FileTree) (path text : String) : Except Failure FileTree :=
  match entry files path with
  | .directory => .error (.file .isDirectory)
  | .tooLong => .error (.file .longName)
  | _ => match files.entry (Point.directory (FileTree.normal path)) with
    | .directory => .ok (files.write path text)
    | _ => .error (.file (if files.isBelowFile path then .notDirectory else .missing))

/-- The end of a command that failed. Only an error in the schemas has a line
in the log. -/
def failed (log : String) (files : FileTree) : Failure → Outcome
  | .schema e =>
    .finished 1 (log ++ "Error: " ++ Text.withoutControls e.message ++ "\n") files none
  | failure => .finished 1 log files (some failure)

/-- Prints what was generated and writes it to the output file. -/
def finish (workingDirectory : String) (files : FileTree) (a : Arguments) (c : Configuration)
    (log : String) (declarations : List Declaration) (operations : List Operation) : Outcome :=
  let text := do
    Module.print c.printer declarations operations (← generationComment workingDirectory files a)
  match text with
  | .error failure => failed log files failure
  | .ok text =>
    match a.output? with
    | none => .finished 1 log files (some (.malformed .missingPath))
    | some path => match writeText files path text with
      | .error failure => failed log files failure
      | .ok written =>
        let line := logLine "INFO" commandName ("Wrote " ++ toString declarations.length ++
          " declarations and " ++ toString operations.length ++ " operations to " ++
          shown workingDirectory path)
        .finished 0 (if a.verbose then log ++ line else log) written none

/-- Reads the document at a path and generates its types. -/
def execute (workingDirectory : String) (files : FileTree) (a : Arguments) (c : Configuration)
    (path : String) : Outcome :=
  let normal := FileTree.normal path
  let opened := (readYaml.load files normal).opened
  let loadingLog :=
    if a.verbose then loadingText workingDirectory normal opened else ""
  match loadGraph files normal c.converter with
  | .error failure => failed loadingLog files failure
  | .ok graph =>
    let context : Context := { graph, settings := c.converter }
    let (result, state) := (generate context c).run (.initial context)
    let log := loadingLog ++ journalText a.verbose state.journal
    match result with
    | .error failure => failed log files failure
    | .ok (declarations, operations) =>
      finish workingDirectory files a c log declarations operations

/-- Why a path cannot be used. -/
inductive PathFault where
  /-- The path holds a null character. -/
  | nullCharacter
  /-- Nothing is at the path of an input. -/
  | nothingThere
deriving DecidableEq, Repr

/-- What is wrong with a path, if one is given. An output need not exist. -/
def pathFault? (files : FileTree) (isInput : Bool) : Option String → Option PathFault
  | some path =>
    if path.toList.contains '\x00' then some .nullCharacter
    else if isInput && !files.has (FileTree.normal path) then some .nothingThere
    else none
  | none => none

/-- What the command does with its arguments, the log as it is written. Of the
faults of its paths the first one counts, and too many paths count last. -/
def outcome (workingDirectory : String) (files : FileTree) (arguments : List String) : Outcome :=
  match Arguments.read? arguments with
  | none => .usageError
  | some a =>
    if a.help then .finished 0 "" files none
    else
      let fault? := pathFault? files true a.configuration? <|> pathFault? files true a.input? <|>
        pathFault? files false a.output?
      match fault? with
      | some .nullCharacter => .finished 1 "" files (some (.file .nullCharacter))
      | some .nothingThere => .usageError
      | none =>
        if a.hasTooMany then .usageError
        else match configuration files a with
          | .error failure => .finished 1 "" files (some failure)
          | .ok c => match a.input? with
            | none => .finished 1 "" files (some (.malformed .missingPath))
            | some path => execute workingDirectory files a c path

/-- What the command does with its arguments, the log as it is shown. -/
def run (workingDirectory : String) (files : FileTree) (arguments : List String) : Outcome :=
  match outcome workingDirectory files arguments with
  | .usageError => .usageError
  | .finished exitCode log written failure? =>
    .finished exitCode (Text.withLineFeeds log) written failure?

/-- The paths that the command looks for and does not find. -/
def wanted (files : FileTree) (arguments : List String) : List String :=
  match Arguments.read? arguments with
  | none => []
  | some a =>
    let named := a.configuration?.toList ++ a.paths ++
      a.paths.map fun path => Point.directory (FileTree.normal path)
    let linked := match a.input? with
      | some path =>
        match (readYaml.load files (FileTree.normal path)).result with
        | .error (.schema (.unresolved point _)) =>
          [Point.join (splitFile (FileTree.normal path)).1 point]
        | _ => []
      | none => []
    (named ++ linked).filter fun path => entry files path = .absent

end CommandLine

end ApiTypes
