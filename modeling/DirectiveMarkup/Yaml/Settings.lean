import DirectiveMarkup.Settings
import DirectiveMarkup.Yaml.Value

/-!
# Settings in YAML

A reader of settings files. A field that is not written has its default, and unknown fields mean
nothing. No known field may be written twice. What a text may consist of is what the tokens of
YAML allow here, so a file with anchors, aliases, tags or directives is malformed.
-/

namespace DirectiveMarkup

open Expression (Scope)
open Yaml (Document)

namespace Settings

/-- The largest depth that can be asked for. -/
def depthLimit : Nat := Nat.pow 2 64 - 1

/-- How many collections may be nested in the value of a global variable. -/
def valueLevels : Nat := 126

/-- What the only entry of a name holds; the inner `none` is for no entry, the outer for
several. -/
def written? (entries : List (String × Document)) (name : String) : Option (Option Document) :=
  match entries.filter (·.1 = name) with
  | [] => some none
  | [(_, document)] => some (some document)
  | _ => none

/-- A truth value, which must be plain. -/
def flag? : Document → Option Bool
  | .scalar true text => Yaml.bool? text
  | _ => none

/-- A depth, which must be plain. -/
def depth? : Document → Option Nat
  | .scalar true text => Yaml.unsigned? depthLimit text.toList
  | _ => none

/-- A scope: a mapping, or nothing written. -/
def scope? : Document → Option Scope
  | .mapping entries => (Yaml.bindings? valueLevels entries).map Scope.ofBindings
  | .scalar plain text => if plain && text.isEmpty then some .empty else none
  | .sequence _ => none

/-- The value of a field, or its default where there is no entry of its name. -/
def field? {α : Type} (entries : List (String × Document)) (name : String)
    (read : Document → Option α) (missing : α) : Option α :=
  (written? entries name).bind fun document => document.elim (some missing) read

/-- The settings that the entries of a mapping give. -/
def ofEntries? (entries : List (Document × Document)) : Option Settings := do
  let named ← entries.mapM fun (key, value) => key.text?.map fun name => (name, value)
  return {
    branding := ← field? named "branding" flag? standard.branding
    defaultStyles := ← field? named "defaultStyles" flag? standard.defaultStyles
    maxDepth := ← field? named "maxDepth" depth? standard.maxDepth
    globals := ← field? named "globals" scope? standard.globals }

/-- The settings of a document: a mapping, or nothing written. -/
def ofDocument? : Option Document → Option Settings
  | none => some standard
  | some (.mapping entries) => ofEntries? entries
  | some (.scalar plain text) => if plain && text.isEmpty then some standard else none
  | some (.sequence _) => none

end Settings

/-- Read settings that are written in YAML. -/
def Yaml.settings : SettingsReader := fun text =>
  match (Yaml.document? text).bind Settings.ofDocument? with
  | some settings => .ok settings
  | none => .error "malformed settings"

/-- The settings of a file that is written in YAML. -/
def Settings.ofYaml (text : String) : Except SettingsError Settings :=
  ofText Yaml.settings text

end DirectiveMarkup
