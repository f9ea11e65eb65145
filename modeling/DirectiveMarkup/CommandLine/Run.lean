import DirectiveMarkup.CommandLine.Arguments
import DirectiveMarkup.Settings

/-!
# A run of the command line

Files are a function from paths to texts or failures, and the reader of settings files and whether
the output can be written are given as well, so that a run is a value. Bad settings or a bad `--var`
end a run before anything is compiled. A file that cannot be read is passed over, and the outputs of
the others are joined in order. Failing nodes change the exit code only under `--strict`. Of what is
printed on the error stream, the lines of the log are left out.
-/

namespace DirectiveMarkup.CommandLine

open Expression (EvalError Scope)

/-- Why a file could not be read or written. -/
inductive FileFailure where
  | missing
  | notUtf8
  | other (wording : String)
  deriving DecidableEq, Repr

/-- The wording of a failure. -/
def FileFailure.message : FileFailure → String
  | missing => "No such file or directory (os error 2)"
  | notUtf8 => "stream did not contain valid UTF-8"
  | other wording => wording

/-- Why a run ended early. -/
inductive RunError where
  | unreadableSettings (path : String) (failure : FileFailure)
  | badSettings (path : String) (error : SettingsError)
  | badVar (name source : String) (error : EvalError)
  | unwritableOutput (path : String) (failure : FileFailure)
  deriving DecidableEq, Repr

/-- The wording of an error. -/
def RunError.message : RunError → String
  | unreadableSettings path failure =>
    "Failed to load config " ++ path ++ ": I/O error: " ++ failure.message
  | badSettings path error => "Failed to load config " ++ path ++ ": " ++ error.message
  | badVar name source error => "Invalid --var " ++ name ++ "=" ++ source ++ ": " ++ error.message
  | unwritableOutput path failure => "Failed to write " ++ path ++ ": " ++ failure.message

/-- What can be read: the text at a path, or why there is none. -/
abbrev Files := String → Except FileFailure String

/-- Settings as the flags of a run change them. -/
def Arguments.override (arguments : Arguments) (written : Settings) : Settings :=
  { written with
    branding := written.branding && !arguments.noBranding
    defaultStyles := written.defaultStyles || arguments.defaultStyles }

/-- The settings of a run: those of the settings file, if one is named, as changed by flags. -/
def settings (reader : SettingsReader) (files : Files) (arguments : Arguments) :
    Except RunError Settings := do
  let written ← match arguments.config with
    | none => pure Settings.standard
    | some path =>
      let text ← (files path).mapError (.unreadableSettings path)
      (Settings.ofText reader text).mapError (.badSettings path)
  return arguments.override written

/-- The globals with further bindings, the value of each taken in the globals alone. -/
def bindVars (globals : Scope) : (scope : Scope) → List (String × String) → Except RunError Scope
  | scope, [] => .ok scope
  | scope, (name, source) :: rest => do
    let value ← (Expression.evaluateSource source globals).mapError (.badVar name source)
    bindVars globals (scope.bind name value) rest

/-- The scope of all files of a run. -/
def buildScope (globals : Scope) (vars : List (String × String)) : Except RunError Scope :=
  bindVars globals globals vars

/-- The lines that tell of a node that was left out. -/
def failureLines (failure : Failure) : List String :=
  let place := "  node " ++ toString failure.index ++ ": "
  match failure.error with
  | .expression directive attr cause =>
    [place ++ "<" ++ directive.name ++ "> attribute '" ++ attr ++ "':", "    " ++ cause.message]
  | .interpolation directive cause =>
    [place ++ "interpolation in <" ++ directive.name ++ ">:", "    " ++ cause.message]
  | .wrongKind directive attr expected found =>
    [place ++ "invalid <" ++ directive.name ++ ">:",
      "    " ++ CompileError.kindComplaint attr expected found]
  | .nestingTooDeep limit =>
    [place ++ "maximum nesting depth (" ++ toString limit ++ ") exceeded"]
  | .unparsable reason => [place ++ (CompileError.unparsable reason).message]

/-- The lines that tell what became of a file. -/
def reportLines (path : String) (report : Report) : List String :=
  let head :=
    if report.failures.isEmpty then ["✓ " ++ path ++ " compiled"]
    else ("✗ " ++ path ++ " compiled with " ++ toString report.failures.length ++
      " skipped node(s):") :: report.failures.flatMap failureLines
  head ++
    if report.halted then ["  halted: content after <halt> was not compiled"] else []

/-- What the files of a run compile to: lines about them, their joined output, and whether one
of them makes the run a failure. -/
structure Compilation where
  lines : List String
  html : String
  failed : Bool

/-- What one file adds: nothing but a line when it cannot be read. -/
def compileFile (compile : String → Report) (strict : Bool) (path : String)
    (content : Except FileFailure String) : Compilation :=
  match content with
  | .error failure => ⟨["✗ " ++ path ++ ": could not read file: " ++ failure.message], "", true⟩
  | .ok markup =>
    let report := compile markup
    ⟨reportLines path report, report.html, strict && !report.failures.isEmpty⟩

/-- Compile files in order. -/
def compileFiles (compile : String → Report) (strict : Bool) (files : Files)
    (paths : List String) : Compilation :=
  let parts := paths.map fun path => compileFile compile strict path (files path)
  ⟨parts.flatMap Compilation.lines, String.join (parts.map Compilation.html),
    parts.any Compilation.failed⟩

/-- What a run leaves behind: an exit code, what it prints on its two streams, and the file it
writes. -/
structure Outcome where
  code : Nat
  stdout : String
  stderr : String
  written : Option (String × String)

/-- Lines of text, each ended. -/
def unlines (lines : List String) : String :=
  String.join (lines.map (· ++ "\n"))

/-- A run that ended early, after some lines. -/
def abort (lines : List String) (error : RunError) : Outcome :=
  ⟨1, "", unlines (lines ++ ["✗ " ++ error.message]), none⟩

/-- Compile the files of a run, under the settings and scope that they share. -/
def compilation (reader : SettingsReader) (files : Files) (arguments : Arguments) :
    Except RunError Compilation := do
  let settings ← settings reader files arguments
  let scope ← buildScope settings.globals arguments.vars
  let compiler := Compiler.standard settings.maxDepth
  let result := compileFiles (compiler.compile scope settings.branding) arguments.strict files
    arguments.files
  return { result with
    html := if settings.defaultStyles then Stylesheet.addDefaultStyles result.html else result.html }

/-- Deliver the output of a run: to a file if one is named, which may fail, or on standard
output. -/
def deliver (result : Compilation) (output : Option String)
    (writing : String → Except FileFailure Unit) : Outcome :=
  let code := if result.failed then 1 else 0
  match output with
  | none => ⟨code, result.html ++ "\n", unlines result.lines, none⟩
  | some path =>
    match writing path with
    | .ok () => ⟨code, "", unlines result.lines, some (path, result.html)⟩
    | .error failure => abort result.lines (.unwritableOutput path failure)

/-- A run that compiles. -/
def compileRun (reader : SettingsReader) (files : Files)
    (writing : String → Except FileFailure Unit) (arguments : Arguments) : Outcome :=
  match compilation reader files arguments with
  | .error error => abort [] error
  | .ok result => deliver result arguments.output writing

/-- The name and version of the program. -/
def versionText : String := "mhtmlc 0.1.0"

/-- How the program is used, in short. -/
def usage : String := "Usage: mhtmlc [OPTIONS] <FILES>..."

/-- A run of the command line. -/
def run (reader : SettingsReader) (files : Files) (writing : String → Except FileFailure Unit)
    (arguments : List String) : Outcome :=
  match Request.ofArguments arguments with
  | .compile arguments => compileRun reader files writing arguments
  | .version => ⟨0, versionText ++ "\n", "", none⟩
  | .misuse => ⟨2, "", usage ++ "\n", none⟩

end DirectiveMarkup.CommandLine
