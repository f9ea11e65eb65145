import DirectiveMarkup.Text.Blank

/-!
# Arguments of the command line

Options may stand before, between and after the files, and `--` ends them. A long option takes
its value from the next argument or after an equals sign; a short one also right behind its
letter. A value that stands alone must not look like an option. Only `--var` may be repeated,
and at least one file must be named. The arguments are taken in order: the first that is wrong,
or that asks for the version, decides.
-/

namespace DirectiveMarkup.CommandLine

/-- What the command line asks for. -/
structure Arguments where
  config : Option String
  output : Option String
  noBranding : Bool
  defaultStyles : Bool
  vars : List (String × String)
  strict : Bool
  files : List String
  deriving DecidableEq, Repr

/-- What to do: compile files, tell the version, or complain. -/
inductive Request where
  | compile (arguments : Arguments)
  | version
  | misuse
  deriving DecidableEq, Repr

/-- The options that take a value. -/
inductive ValueOption where
  | config
  | output
  | var
  deriving DecidableEq, Repr

/-- The options without a value. -/
inductive Flag where
  | noBranding
  | defaultStyles
  | strict
  | version
  deriving DecidableEq, Repr

/-- Long options with a value. -/
def longOptions : List (String × ValueOption) :=
  [("config", .config), ("output", .output), ("var", .var)]

/-- Short options with a value. -/
def shortOptions : List (Char × ValueOption) :=
  [('c', .config), ('o', .output)]

/-- Long options without a value. -/
def longFlags : List (String × Flag) :=
  [("no-branding", .noBranding), ("default-styles", .defaultStyles), ("strict", .strict),
    ("version", .version)]

/-- Short options without a value. -/
def shortFlags : List (Char × Flag) :=
  [('V', .version)]

/-- What comes before the first equals sign, trimmed, and what comes after it. -/
def binding? (text : String) : Option (String × String) :=
  let chars := text.toList
  if chars.contains '=' then
    some (Text.trim (.ofList (chars.takeWhile (· ≠ '='))),
      .ofList ((chars.dropWhile (· ≠ '=')).drop 1))
  else none

namespace Arguments

/-- Nothing is asked for. -/
def none : Arguments := ⟨.none, .none, false, false, [], false, []⟩

/-- Set an option to a value. Paths must not be empty. -/
def setOption (option : ValueOption) (value : String) (arguments : Arguments) :
    Option Arguments :=
  match option with
  | .config =>
    if arguments.config.isSome || value.isEmpty then .none
    else some { arguments with config := some value }
  | .output =>
    if arguments.output.isSome || value.isEmpty then .none
    else some { arguments with output := some value }
  | .var => (binding? value).map fun pair => { arguments with vars := arguments.vars ++ [pair] }

/-- Set a flag. A request for the version is no setting. -/
def setFlag (flag : Flag) (arguments : Arguments) : Option Arguments :=
  match flag with
  | .noBranding => if arguments.noBranding then .none else some { arguments with noBranding := true }
  | .defaultStyles =>
    if arguments.defaultStyles then .none else some { arguments with defaultStyles := true }
  | .strict => if arguments.strict then .none else some { arguments with strict := true }
  | .version => some arguments

/-- Add a file. -/
def addFile (file : String) (arguments : Arguments) : Option Arguments :=
  if file.isEmpty then .none else some { arguments with files := arguments.files ++ [file] }

end Arguments

/-- How an argument is to be taken. -/
inductive Word where
  | endOfOptions
  | file (path : String)
  | flag (flag : Flag)
  | optionWithValue (option : ValueOption) (value : String)
  | optionBeforeValue (option : ValueOption)
  | unknown
  deriving DecidableEq, Repr

/-- A long option, from what follows its dashes. -/
def longWord (text : List Char) : Word :=
  let name := String.ofList (text.takeWhile (· ≠ '='))
  let value := (text.dropWhile (· ≠ '=')).tail?
  match longOptions.lookup name, longFlags.lookup name, value with
  | some option, _, some value => .optionWithValue option (.ofList value)
  | some option, _, .none => .optionBeforeValue option
  | .none, some flag, .none => .flag flag
  | .none, _, _ => .unknown

/-- A short option with all that stands behind it in the same argument. -/
def shortWord (letter : Char) (rest : List Char) : Word :=
  match shortOptions.lookup letter, shortFlags.lookup letter with
  | some option, _ =>
    match rest with
    | [] => .optionBeforeValue option
    | '=' :: value => .optionWithValue option (.ofList value)
    | value => .optionWithValue option (.ofList value)
  | .none, some flag => .flag flag
  | .none, .none => .unknown

/-- How an argument is to be taken where options may stand. -/
def Word.ofText (text : String) : Word :=
  match text.toList with
  | ['-', '-'] => .endOfOptions
  | '-' :: '-' :: rest => longWord rest
  | '-' :: letter :: rest => shortWord letter rest
  | _ => .file text

/-- True of the texts that can stand alone as the value of an option. -/
def isPlainValue (text : String) : Bool :=
  text.toList.head? ≠ some '-' || text = "-"

/-- A request to compile, which must name a file. -/
def conclude (arguments : Arguments) : Request :=
  if arguments.files.isEmpty then .misuse else .compile arguments

/-- Take arguments in order. `pending` is an option whose value comes next, and `open?` tells
whether options may still stand. -/
def readArguments : (arguments : Arguments) → (pending : Option ValueOption) →
    (optionsEnded : Bool) → List String → Request
  | arguments, .none, _, [] => conclude arguments
  | _, some _, _, [] => .misuse
  | arguments, some option, _, text :: rest =>
    if isPlainValue text then
      match arguments.setOption option text with
      | some arguments => readArguments arguments .none false rest
      | .none => .misuse
    else .misuse
  | arguments, .none, true, text :: rest =>
    match arguments.addFile text with
    | some arguments => readArguments arguments .none true rest
    | .none => .misuse
  | arguments, .none, false, text :: rest =>
    match Word.ofText text with
    | .endOfOptions => readArguments arguments .none true rest
    | .file path =>
      match arguments.addFile path with
      | some arguments => readArguments arguments .none false rest
      | .none => .misuse
    | .flag .version => .version
    | .flag flag =>
      match arguments.setFlag flag with
      | some arguments => readArguments arguments .none false rest
      | .none => .misuse
    | .optionWithValue option value =>
      match arguments.setOption option value with
      | some arguments => readArguments arguments .none false rest
      | .none => .misuse
    | .optionBeforeValue option => readArguments arguments (some option) false rest
    | .unknown => .misuse

/-- The request that a command line makes. -/
def Request.ofArguments (arguments : List String) : Request :=
  readArguments .none .none false arguments

end DirectiveMarkup.CommandLine
