import ApiTypes.CommandLine

/-!
# The program

Reads the files that the command looks for, does what the command does with
them, and writes the log and the output file.
-/

namespace ApiTypes

/-- Adds what is on disk at a path to the known files. -/
def readPath (files : FileTree) (path : String) : IO FileTree := do
  let onDisk := (← IO.currentDir) / path
  if ← onDisk.isDir then
    return { files with directories := FileTree.normal path :: files.directories }
  else if ← onDisk.pathExists then
    return files.write path (← IO.FS.readFile onDisk)
  else return files

/-- The files that the command needs: as long as it looks for files that were
not tried yet, they are read and the command starts again. -/
partial def gather (arguments : List String) (tried : List String) (files : FileTree) :
    IO FileTree := do
  match (CommandLine.wanted files arguments).filter (!tried.contains ·) with
  | [] => return files
  | paths => gather arguments (tried ++ paths) (← paths.foldlM readPath files)

end ApiTypes

open ApiTypes in
/-- Runs the command. -/
def main (arguments : List String) : IO UInt32 := do
  let files ← gather arguments [] { files := [] }
  let workingDirectory := (← IO.currentDir).toString
  match CommandLine.run workingDirectory files arguments with
  | .usageError =>
    IO.eprintln "Usage: openapi_schema_to_types [OPTIONS] [PATH] [OUTPUT]"
    return 2
  | .finished exitCode log written failure? =>
    IO.eprint log
    if let some failure := failure? then IO.eprintln ("Error: " ++ failure.message)
    match Arguments.read? arguments with
    | some a => match a.output? with
      | some path => match written.text? path with
        | some text => if exitCode = 0 then IO.FS.writeFile path text
        | none => pure ()
      | none => pure ()
    | none => pure ()
    return exitCode.toUInt32
