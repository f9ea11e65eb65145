import DirectiveMarkup.Compile.Report

/-!
# Settings

What a settings file says: whether output is branded and gets the default stylesheet, how deep
nodes may be nested, and which variables every document sees. How the text of a settings file is
read is left open. A depth of zero is refused, whatever the reader.
-/

namespace DirectiveMarkup

open Expression (Scope)

/-- The settings of a compilation. -/
structure Settings where
  branding : Bool
  defaultStyles : Bool
  maxDepth : Nat
  globals : Scope

/-- A reader of settings files: what a text says, or in words why it says nothing. -/
abbrev SettingsReader := String → Except String Settings

/-- Why a settings file is refused. -/
inductive SettingsError where
  | malformed (reason : String)
  | depthZero
  deriving DecidableEq, Repr

/-- The wording of a refusal. -/
def SettingsError.message : SettingsError → String
  | malformed reason => "Configuration error: " ++ reason
  | depthZero => "Configuration error: maxDepth must be at least 1"

namespace Settings

/-- The settings where none are written. -/
def standard : Settings := ⟨true, false, defaultMaxDepth, .empty⟩

/-- The settings that a text gives to a reader. -/
def ofText (reader : SettingsReader) (text : String) : Except SettingsError Settings :=
  match reader text with
  | .error reason => .error (.malformed reason)
  | .ok settings => if settings.maxDepth = 0 then .error .depthZero else .ok settings

section Reading

variable {reader : SettingsReader} {text : String} {written : Settings}

/-- What a reader makes nothing of is malformed. -/
theorem ofText_of_error {reason : String} (h : reader text = .error reason) :
    ofText reader text = .error (.malformed reason) := by
  rw [ofText, h]

/-- A depth of zero is refused. -/
theorem ofText_of_zero (h : reader text = .ok written) (hdepth : written.maxDepth = 0) :
    ofText reader text = .error .depthZero := by
  rw [ofText, h]
  exact if_pos hdepth

/-- With any other depth, settings are taken as they are read. -/
theorem ofText_of_ne_zero (h : reader text = .ok written) (hdepth : written.maxDepth ≠ 0) :
    ofText reader text = .ok written := by
  rw [ofText, h]
  exact if_neg hdepth

end Reading

end Settings

end DirectiveMarkup
