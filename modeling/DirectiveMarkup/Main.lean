import DirectiveMarkup.CommandLine.Run
import DirectiveMarkup.Yaml.Settings

/-!
# The program

Reads the files that the command line names, makes the run, and writes what it leaves behind. Settings
files are read as YAML.
-/

namespace DirectiveMarkup.CommandLine

/-- Why the system refused to read or write a file. -/
def FileFailure.ofError : IO.Error → FileFailure
  | .noFileOrDirectory .. => .missing
  | error => .other (toString error)

/-- Read a file. -/
def readFile (path : String) : IO (Except FileFailure String) := do
  try
    match String.fromUTF8? (← IO.FS.readBinFile path) with
    | some text => return .ok text
    | none => return .error .notUtf8
  catch error => return .error (.ofError error)

/-- The paths of the files that a run may read. -/
def Arguments.paths (arguments : Arguments) : List String :=
  arguments.config.toList ++ arguments.files

/-- The files at some paths, as they are now. -/
def loadFiles (paths : List String) : IO Files := do
  let contents ← paths.mapM fun path => return (path, ← readFile path)
  return fun path => (contents.lookup path).getD (.error .missing)

/-- Write what a run leaves behind, and tell whether that was possible. -/
def writeFile (written : Option (String × String)) : IO (Except FileFailure Unit) := do
  match written with
  | none => return .ok ()
  | some (path, text) =>
    try
      IO.FS.writeFile path text
      return .ok ()
    catch error => return .error (.ofError error)

end DirectiveMarkup.CommandLine

open DirectiveMarkup DirectiveMarkup.CommandLine in
/-- Run the command line. -/
def main (arguments : List String) : IO UInt32 := do
  let paths := match Request.ofArguments arguments with
    | .compile arguments => arguments.paths
    | _ => []
  let files ← loadFiles paths
  let writing ← writeFile (run Yaml.settings files (fun _ => .ok ()) arguments).written
  let outcome := run Yaml.settings files (fun _ => writing) arguments
  IO.eprint outcome.stderr
  IO.print outcome.stdout
  return UInt32.ofNat outcome.code
