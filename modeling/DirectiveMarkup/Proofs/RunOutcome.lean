import DirectiveMarkup.Proofs.Bindings
import Mathlib.Data.List.Induction

/-!
# What a run of the command line leaves behind

The files of a run are taken one after the other. What there is so far is kept: the lines about the
files, the output, and whether the run is a failure. One more file adds to each of these and takes
nothing back. A whole run has therefore a description without the loop: its output is the html of the
files that can be read, in order, with at most one stylesheet behind it, and its exit code tells
whether a file could not be read or, in a strict run, a node was left out.

What a run starts from is described without its code as well: where its settings come from, what its
flags change in them, and which names are bound. A run starts from one such description, or is refused
for one reason, whatever the reader of settings files answers.

From this follows what cannot matter to a run: a file that cannot be read to what is written, the
content of one file to what another adds, and strictness to anything but the exit code.
-/

namespace DirectiveMarkup.CommandLine

open Expression (EvalError Scope)

/-! ## One file after the other -/

/-- The texts of the files that can be read, in order. -/
def texts (files : Files) (paths : List String) : List String :=
  paths.filterMap fun path => (files path).toOption

/-- What makes a run a failure: a file that cannot be read or, if the run is strict, a node of another
file that is left out. -/
def Fails (compile : String → Report) (strict : Bool) (files : Files) (paths : List String) : Prop :=
  (∃ path ∈ paths, ∃ failure, files path = .error failure) ∨
    strict = true ∧ ∃ text ∈ texts files paths, (compile text).failures ≠ []

/-- What there is so far, with the next part behind it. -/
def Compilation.followedBy (sofar next : Compilation) : Compilation :=
  ⟨sofar.lines ++ next.lines, sofar.html ++ next.html, sofar.failed || next.failed⟩

section Files

variable {compile : String → Report} {strict : Bool} {files : Files}

/-- No files have no texts. -/
@[simp] theorem texts_nil : texts files [] = [] := rfl

/-- The texts of two rows of files follow each other. -/
@[simp] theorem texts_append (before after : List String) :
    texts files (before ++ after) = texts files before ++ texts files after :=
  List.filterMap_append

/-- A file that can be read has its text. -/
theorem texts_of_ok {path text : String} (h : files path = .ok text) : texts files [path] = [text] := by
  rw [texts, List.filterMap_cons, h]
  rfl

/-- A file that cannot be read has no text. -/
theorem texts_of_error {path : String} {failure : FileFailure} (h : files path = .error failure) :
    texts files [path] = [] := by
  rw [texts, List.filterMap_cons, h]
  rfl

/-- Two rows of files are compiled one behind the other. -/
theorem compileFiles_append (before after : List String) :
    compileFiles compile strict files (before ++ after) =
      (compileFiles compile strict files before).followedBy
        (compileFiles compile strict files after) := by
  simp [compileFiles, Compilation.followedBy]

/-- A file alone adds its own part. -/
theorem compileFiles_singleton (path : String) :
    compileFiles compile strict files [path] = compileFile compile strict path (files path) := by
  simp [compileFiles, String.join_cons]

/-- The files that were taken are accounted for: their html is the output, and a file that cannot be
read or, if the run is strict, a node that is left out makes the run a failure. -/
structure Accounted (compile : String → Report) (strict : Bool) (files : Files) (paths : List String)
    (sofar : Compilation) : Prop where
  html : sofar.html = String.join ((texts files paths).map fun text => (compile text).html)
  failed : sofar.failed = true ↔ Fails compile strict files paths

/-- Two rows of files make a run a failure when one of them does. -/
theorem fails_append (before after : List String) :
    Fails compile strict files (before ++ after) ↔
      Fails compile strict files before ∨ Fails compile strict files after := by
  simp only [Fails, texts_append, List.mem_append, or_and_right, exists_or, and_or_left]
  exact or_or_or_comm

/-- A file alone is a failure when it makes the run one. -/
theorem failed_compileFile_iff (path : String) :
    (compileFile compile strict path (files path)).failed = true ↔ Fails compile strict files [path] := by
  cases hfile : files path with
  | error failure => exact iff_of_true rfl (.inl ⟨path, List.mem_singleton_self path, failure, hfile⟩)
  | ok text => simp [compileFile, Fails, texts_of_ok hfile, hfile]

/-- A file alone has its html, if it can be read. -/
theorem html_compileFile (path : String) :
    (compileFile compile strict path (files path)).html =
      String.join ((texts files [path]).map fun text => (compile text).html) := by
  cases hfile : files path with
  | error failure => simp [compileFile, texts_of_error hfile]
  | ok text => simp [compileFile, texts_of_ok hfile, String.join_cons]

/-- One more file is accounted for. -/
theorem Accounted.step {paths : List String} {sofar : Compilation}
    (h : Accounted compile strict files paths sofar) (path : String) :
    Accounted compile strict files (paths ++ [path])
      (sofar.followedBy (compileFile compile strict path (files path))) := by
  constructor
  · rw [texts_append, List.map_append, String.join_append, ← h.html, ← html_compileFile]
    rfl
  · rw [fails_append, ← h.failed, ← failed_compileFile_iff]
    exact Bool.or_eq_true _ _ ▸ Iff.rfl

/-- All files of a run are accounted for. -/
theorem accounted_compileFiles (paths : List String) :
    Accounted compile strict files paths (compileFiles compile strict files paths) := by
  -- The loop adds at the end, so the induction goes from there.
  induction paths using List.reverseRecOn with
  | nil => exact ⟨rfl, by simp [compileFiles, Fails]⟩
  | append_singleton paths path ih =>
    rw [compileFiles_append, compileFiles_singleton]
    exact ih.step path

/-- What is compiled of files depends on their contents only. -/
theorem compileFiles_congr {others : Files} {paths : List String}
    (h : ∀ path ∈ paths, others path = files path) :
    compileFiles compile strict others paths = compileFiles compile strict files paths := by
  have hparts : (paths.map fun path => compileFile compile strict path (others path)) =
      paths.map fun path => compileFile compile strict path (files path) :=
    List.map_congr_left fun path hpath => by rw [h path hpath]
  rw [compileFiles, compileFiles, hparts]

/-- Strictness does not change the output. -/
theorem html_compileFiles_strict (strict strict' : Bool) {paths : List String} :
    (compileFiles compile strict files paths).html =
      (compileFiles compile strict' files paths).html := by
  rw [(accounted_compileFiles paths).html, (accounted_compileFiles paths).html]

/-- Strictness does not change the lines. -/
theorem lines_compileFiles_strict (strict strict' : Bool) {paths : List String} :
    (compileFiles compile strict files paths).lines =
      (compileFiles compile strict' files paths).lines := by
  have hpart (path : String) : (compileFile compile strict path (files path)).lines =
      (compileFile compile strict' path (files path)).lines := by
    cases files path <;> rfl
  simp only [compileFiles, List.flatMap_map, hpart]

end Files

/-! ## What a run starts from -/

/-- The settings that are written for a run, or why there are none: the defaults where no settings file
is named, and otherwise what is read of that file, which must not ask for a depth of zero. -/
inductive Configured (reader : SettingsReader) (files : Files) :
    (config : Option String) → Except RunError Settings → Prop where
  | unnamed : Configured reader files none (.ok ⟨true, false, 128, .empty⟩)
  | unreadable {path : String} {failure : FileFailure} : files path = .error failure →
      Configured reader files (some path) (.error (.unreadableSettings path failure))
  | malformed {path text reason : String} : files path = .ok text → reader text = .error reason →
      Configured reader files (some path) (.error (.badSettings path (.malformed reason)))
  | depthZero {path text : String} {written : Settings} : files path = .ok text →
      reader text = .ok written → written.maxDepth = 0 →
      Configured reader files (some path) (.error (.badSettings path .depthZero))
  | written {path text : String} {written : Settings} : files path = .ok text →
      reader text = .ok written → written.maxDepth ≠ 0 →
      Configured reader files (some path) (.ok written)

/-- What the flags of a run make of the settings that are written for it. -/
structure Overridden (arguments : Arguments) (written chosen : Settings) : Prop where
  branding : chosen.branding = true ↔ written.branding = true ∧ arguments.noBranding = false
  defaultStyles :
    chosen.defaultStyles = true ↔ written.defaultStyles = true ∨ arguments.defaultStyles = true
  maxDepth : chosen.maxDepth = written.maxDepth
  globals : chosen.globals = written.globals

/-- The settings of a run. -/
def Chosen (reader : SettingsReader) (files : Files) (arguments : Arguments) (chosen : Settings) :
    Prop :=
  ∃ written, Configured reader files arguments.config (.ok written) ∧
    Overridden arguments written chosen

/-- A run gets as far as to compile: it has settings, and in its scope the names of the command line are
bound to values, on top of the globals in which these are taken. -/
structure Prepared (reader : SettingsReader) (files : Files) (arguments : Arguments)
    (chosen : Settings) (scope : Scope) : Prop where
  isChosen : Chosen reader files arguments chosen
  bound : ∃ bindings, Valued chosen.globals arguments.vars bindings ∧
    scope = chosen.globals.bindAll bindings

/-- A run does not get as far as to compile: it has no settings, or one of its bindings has no value. -/
inductive Refused (reader : SettingsReader) (files : Files) (arguments : Arguments) :
    RunError → Prop where
  | settings {error : RunError} : Configured reader files arguments.config (.error error) →
      Refused reader files arguments error
  | var {chosen : Settings} {name source : String} {cause : EvalError} :
      Chosen reader files arguments chosen →
      FirstFailing chosen.globals arguments.vars name source cause →
      Refused reader files arguments (.badVar name source cause)

section Start

variable {reader : SettingsReader} {files : Files} {arguments : Arguments} {chosen : Settings}
  {scope : Scope} {error : RunError}

/-- Settings are written for every run, or there is a reason why not. -/
theorem exists_configured (reader : SettingsReader) (files : Files) (config : Option String) :
    ∃ result, Configured reader files config result := by
  cases config with
  | none => exact ⟨_, .unnamed⟩
  | some path =>
    cases htext : files path with
    | error failure => exact ⟨_, .unreadable htext⟩
    | ok text =>
      cases hwritten : reader text with
      | error reason => exact ⟨_, .malformed htext hwritten⟩
      | ok written =>
        by_cases hdepth : written.maxDepth = 0
        · exact ⟨_, .depthZero htext hwritten hdepth⟩
        · exact ⟨_, .written htext hwritten hdepth⟩

/-- A settings file that can be read settles the settings of a run by its text. -/
theorem settings_of_text {path text : String} (hconfig : arguments.config = some path)
    (htext : files path = .ok text) :
    settings reader files arguments =
      arguments.override <$> (Settings.ofText reader text).mapError (.badSettings path) := by
  unfold settings
  rw [hconfig]
  dsimp only
  rw [htext]
  change ((Settings.ofText reader text).mapError (RunError.badSettings path) >>= fun written =>
    pure (arguments.override written)) = _
  cases Settings.ofText reader text <;> rfl

/-- The settings of a run are those that are written for it, as the flags change them. -/
theorem Configured.settings_eq {result : Except RunError Settings}
    (h : Configured reader files arguments.config result) :
    settings reader files arguments = arguments.override <$> result := by
  generalize hconfig : arguments.config = config at h
  cases h with
  | unnamed =>
    unfold settings
    rw [hconfig]
    rfl
  | unreadable htext =>
    unfold settings
    rw [hconfig]
    dsimp only
    rw [htext]
    rfl
  | malformed htext hwritten =>
    rw [settings_of_text hconfig htext, Settings.ofText_of_error hwritten]
    rfl
  | depthZero htext hwritten hdepth =>
    rw [settings_of_text hconfig htext, Settings.ofText_of_zero hwritten hdepth]
    rfl
  | written htext hwritten hdepth =>
    rw [settings_of_text hconfig htext, Settings.ofText_of_ne_zero hwritten hdepth]
    rfl

/-- What flags make of settings is settled by their fields. -/
theorem overridden_iff {written : Settings} :
    Overridden arguments written chosen ↔ arguments.override written = chosen := by
  constructor
  · intro h
    obtain ⟨branding, defaultStyles, maxDepth, globals⟩ := chosen
    obtain ⟨hbranding, hstyles, hdepth, hglobals⟩ := h
    have hbranding' : (written.branding && !arguments.noBranding) = branding :=
      Bool.eq_iff_iff.mpr (by simpa using hbranding.symm)
    have hstyles' : (written.defaultStyles || arguments.defaultStyles) = defaultStyles :=
      Bool.eq_iff_iff.mpr (by simpa using hstyles.symm)
    rw [Arguments.override, hbranding', hstyles', ← hdepth, ← hglobals]
  · rintro rfl
    exact ⟨by simp [Arguments.override], by simp [Arguments.override], rfl, rfl⟩

/-- A run has settings when some are written for it. -/
theorem settings_eq_ok_iff :
    settings reader files arguments = .ok chosen ↔ Chosen reader files arguments chosen := by
  constructor
  · intro h
    obtain ⟨result, hresult⟩ := exists_configured reader files arguments.config
    rw [hresult.settings_eq] at h
    cases result with
    | error error => exact nomatch h
    | ok written => exact ⟨written, hresult, overridden_iff.mpr (Except.ok.inj h)⟩
  · rintro ⟨written, hwritten, hchosen⟩
    rw [hwritten.settings_eq, ← overridden_iff.mp hchosen]
    rfl

/-- A run has no settings when none are written for it. -/
theorem settings_eq_error_iff :
    settings reader files arguments = .error error ↔
      Configured reader files arguments.config (.error error) := by
  constructor
  · intro h
    obtain ⟨result, hresult⟩ := exists_configured reader files arguments.config
    rw [hresult.settings_eq] at h
    cases result with
    | error other => exact Except.error.inj h ▸ hresult
    | ok written => exact nomatch h
  · intro h
    rw [h.settings_eq]
    rfl

/-- A run gets as far as to compile when it finds settings and makes a scope. -/
theorem prepared_iff :
    Prepared reader files arguments chosen scope ↔
      settings reader files arguments = .ok chosen ∧
        buildScope chosen.globals arguments.vars = .ok scope := by
  rw [settings_eq_ok_iff, buildScope, bindVars_eq_ok_iff]
  exact ⟨fun h => ⟨h.isChosen, h.bound⟩, fun h => ⟨h.1, h.2⟩⟩

/-- A run is refused when it finds no settings or makes no scope. -/
theorem refused_iff :
    Refused reader files arguments error ↔
      settings reader files arguments = .error error ∨
        ∃ chosen, settings reader files arguments = .ok chosen ∧
          buildScope chosen.globals arguments.vars = .error error := by
  simp only [settings_eq_error_iff, settings_eq_ok_iff, buildScope, bindVars_eq_error_iff]
  constructor
  · intro h
    cases h with
    | settings h => exact .inl h
    | @var chosen name source cause hchosen hfirst =>
      exact .inr ⟨chosen, hchosen, name, source, cause, hfirst, rfl⟩
  · rintro (h | ⟨chosen, hchosen, name, source, cause, hfirst, rfl⟩)
    · exact .settings h
    · exact .var hchosen hfirst

/-- A run gets as far as to compile, or is refused. -/
theorem exists_prepared_or_refused (reader : SettingsReader) (files : Files) (arguments : Arguments) :
    (∃ chosen scope, Prepared reader files arguments chosen scope) ∨
      ∃ error, Refused reader files arguments error := by
  simp only [prepared_iff, refused_iff]
  cases hsettings : settings reader files arguments with
  | error error => exact .inr ⟨error, .inl rfl⟩
  | ok chosen =>
    cases hscope : buildScope chosen.globals arguments.vars with
    | error error => exact .inr ⟨error, .inr ⟨chosen, rfl, hscope⟩⟩
    | ok scope => exact .inl ⟨chosen, scope, rfl, hscope⟩

/-- Settings and bindings do not look at the files to compile, nor at strictness. -/
theorem Prepared.congr (h : Prepared reader files arguments chosen scope) (paths : List String)
    (strict : Bool) :
    Prepared reader files { arguments with files := paths, strict } chosen scope := by
  rw [prepared_iff] at h ⊢
  exact h

/-- The reason why a run is refused has nothing to do with the files to compile, nor with strictness. -/
theorem Refused.congr (h : Refused reader files arguments error) (paths : List String)
    (strict : Bool) : Refused reader files { arguments with files := paths, strict } error := by
  rw [refused_iff] at h ⊢
  exact h

end Start

/-! ## The whole run -/

/-- The report of a text under the settings and the scope of a run. -/
def reportOf (chosen : Settings) (scope : Scope) (text : String) : Report :=
  (Compiler.standard chosen.maxDepth).compile scope chosen.branding text

/-- What stands behind the html of all files: the default stylesheet, if there is to be one. -/
def sheet (chosen : Settings) : String :=
  if chosen.defaultStyles then "<style>" ++ Stylesheet.defaultStyles ++ "</style>" else ""

/-- What the files of a run are compiled to, with the stylesheet behind it. -/
def compiled (chosen : Settings) (scope : Scope) (strict : Bool) (files : Files)
    (paths : List String) : Compilation :=
  let result := compileFiles (reportOf chosen scope) strict files paths
  { result with html := result.html ++ sheet chosen }

/-- An outcome of a run that ended with an error: nothing but lines, the last of which tells of it. -/
structure Outcome.Aborted (outcome : Outcome) (error : RunError) : Prop where
  code : outcome.code = 1
  stdout : outcome.stdout = ""
  written : outcome.written = none
  stderr : ∃ lines, outcome.stderr = unlines (lines ++ ["✗ " ++ error.message])

/-- An outcome of a run that wrote a text: to the file that is named for it, or else, with a line end
behind it, on standard output. -/
structure Outcome.Wrote (outcome : Outcome) (output : Option String) (text : String) : Prop where
  stdout : outcome.stdout = if output.isNone then text ++ "\n" else ""
  written : outcome.written = output.map fun path => (path, text)

/-- How the outcome of a run comes from its files, and what a change of the run can change in it. -/
structure SettledByFiles (reader : SettingsReader) (files : Files)
    (writing : String → Except FileFailure Unit) (arguments : Arguments) : Prop where
  /-- A run gets as far as to compile, or there is a reason why not. -/
  decided : (∃ chosen scope, Prepared reader files arguments chosen scope) ∨
    ∃ error, Refused reader files arguments error
  /-- Bad settings and bad bindings are errors. -/
  refused : ∀ error, Refused reader files arguments error →
    (compileRun reader files writing arguments).Aborted error
  /-- An output file that cannot be written is an error. -/
  unwritable : ∀ chosen scope path failure, Prepared reader files arguments chosen scope →
    arguments.output = some path → writing path = .error failure →
      (compileRun reader files writing arguments).Aborted (.unwritableOutput path failure)
  /-- Otherwise the html of the files that can be read is written, in order, with the stylesheet behind
  it, and the exit code tells whether something makes the run a failure. -/
  delivered : ∀ chosen scope, Prepared reader files arguments chosen scope →
    (∀ path ∈ arguments.output, writing path = .ok ()) →
      let outcome := compileRun reader files writing arguments
      let report := reportOf chosen scope
      outcome.Wrote arguments.output
          (String.join ((texts files arguments.files).map fun text => (report text).html) ++
            sheet chosen) ∧
        (outcome.code = 1 ↔ Fails report arguments.strict files arguments.files) ∧
        (outcome.code = 0 ↔ ¬ Fails report arguments.strict files arguments.files)
  /-- One more file that cannot be read, wherever it is named, changes nothing that is written. -/
  unreadable : ∀ before path after failure, arguments.files = before ++ after →
    files path = .error failure →
      let outcome := compileRun reader files writing arguments
      let other := compileRun reader files writing { arguments with files := before ++ path :: after }
      other.stdout = outcome.stdout ∧ other.written = outcome.written
  /-- Whatever there is in a file, it stands between the same texts, and its lines between the same
  lines. -/
  apart : ∀ chosen scope before path after, arguments.files = before ++ path :: after →
    (∀ path ∈ arguments.output, writing path = .ok ()) →
      ∃ front back linesBefore linesAfter, ∀ others text,
        Prepared reader others arguments chosen scope →
        (∀ other ∈ before ++ after, others other = files other) → others path = .ok text →
          let outcome := compileRun reader others writing arguments
          let report := reportOf chosen scope text
          outcome.Wrote arguments.output (front ++ report.html ++ back) ∧
            outcome.stderr = unlines (linesBefore ++ reportLines path report ++ linesAfter)
  /-- A strict run differs from one that is not by its exit code only. -/
  strict : ∀ strict, let outcome := compileRun reader files writing arguments
    let other := compileRun reader files writing { arguments with strict }
    other.stdout = outcome.stdout ∧ other.stderr = outcome.stderr ∧ other.written = outcome.written

section Run

variable {reader : SettingsReader} {files : Files} {writing : String → Except FileFailure Unit}
  {arguments : Arguments} {chosen : Settings} {scope : Scope}

/-- A run that is refused ends with its error. -/
theorem Refused.compileRun_eq {error : RunError} (h : Refused reader files arguments error) :
    compileRun reader files writing arguments = abort [] error := by
  have hcompilation : compilation reader files arguments = .error error := by
    unfold compilation
    rcases refused_iff.mp h with hsettings | ⟨chosen, hsettings, hscope⟩
    · rw [hsettings]
      rfl
    · rw [hsettings]
      dsimp only [bind, Except.bind]
      rw [hscope]
  rw [compileRun, hcompilation]

/-- A run that gets as far as to compile delivers what its files are compiled to. -/
theorem Prepared.compileRun_eq (h : Prepared reader files arguments chosen scope) :
    compileRun reader files writing arguments =
      deliver (compiled chosen scope arguments.strict files arguments.files) arguments.output
        writing := by
  have hsheet (html : String) :
      (if chosen.defaultStyles then Stylesheet.addDefaultStyles html else html) =
        html ++ sheet chosen := by
    unfold sheet Stylesheet.addDefaultStyles
    split <;> simp [String.append_assoc]
  have hcompilation : compilation reader files arguments =
      .ok (compiled chosen scope arguments.strict files arguments.files) := by
    obtain ⟨hsettings, hbound⟩ := prepared_iff.mp h
    unfold compilation
    rw [hsettings]
    dsimp only [bind, Except.bind]
    rw [hbound]
    dsimp only [pure, Except.pure]
    rw [hsheet]
    rfl
  rw [compileRun, hcompilation]

/-- A run that ended early is aborted. -/
theorem aborted_abort (lines : List String) (error : RunError) : (abort lines error).Aborted error :=
  ⟨rfl, rfl, rfl, lines, rfl⟩

section Deliver

variable {output : Option String}

/-- Where writing is possible, the html is written and the lines are shown. -/
theorem deliver_of_ok (result : Compilation) (h : ∀ path ∈ output, writing path = .ok ()) :
    let outcome := deliver result output writing
    outcome.Wrote output result.html ∧ outcome.stderr = unlines result.lines ∧
      outcome.code = if result.failed then 1 else 0 := by
  cases output with
  | none => exact ⟨⟨rfl, rfl⟩, rfl, rfl⟩
  | some path =>
    dsimp only [deliver]
    rw [h path rfl]
    exact ⟨⟨rfl, rfl⟩, rfl, rfl⟩

/-- What is written depends on the html only. -/
theorem deliver_congr {result result' : Compilation} (h : result'.html = result.html) :
    (deliver result' output writing).stdout = (deliver result output writing).stdout ∧
      (deliver result' output writing).written = (deliver result output writing).written := by
  cases output with
  | none => exact ⟨congrArg (· ++ "\n") h, rfl⟩
  | some path =>
    simp only [deliver]
    cases writing path with
    | error failure => exact ⟨rfl, rfl⟩
    | ok _ => exact ⟨rfl, congrArg (fun html => some (path, html)) h⟩

/-- What is shown depends on the lines only. -/
theorem stderr_deliver_congr {result result' : Compilation} (h : result'.lines = result.lines) :
    (deliver result' output writing).stderr = (deliver result output writing).stderr := by
  cases output with
  | none => exact congrArg unlines h
  | some path =>
    simp only [deliver]
    cases writing path with
    | error failure => exact congrArg (fun lines => (abort lines _).stderr) h
    | ok _ => exact congrArg unlines h

end Deliver

/-! ### What is written, and the exit code -/

/-- A run that gets as far as to compile, and can write, writes the html of its files, with the
stylesheet behind it, and tells by its exit code whether something makes it a failure. -/
theorem Prepared.delivered (h : Prepared reader files arguments chosen scope)
    (hwriting : ∀ path ∈ arguments.output, writing path = .ok ()) :
    let outcome := compileRun reader files writing arguments
    let report := reportOf chosen scope
    outcome.Wrote arguments.output
        (String.join ((texts files arguments.files).map fun text => (report text).html) ++
          sheet chosen) ∧
      (outcome.code = 1 ↔ Fails report arguments.strict files arguments.files) ∧
      (outcome.code = 0 ↔ ¬ Fails report arguments.strict files arguments.files) := by
  intro outcome report
  let result := compiled chosen scope arguments.strict files arguments.files
  have haccounted : Accounted report arguments.strict files arguments.files
      (compileFiles report arguments.strict files arguments.files) :=
    accounted_compileFiles arguments.files
  have hfailed : result.failed = true ↔ Fails report arguments.strict files arguments.files :=
    haccounted.failed
  have houtcome : outcome = deliver result arguments.output writing := h.compileRun_eq
  obtain ⟨hwrote, -, hcode⟩ := deliver_of_ok result hwriting
  rw [← haccounted.html, ← hfailed, houtcome, hcode]
  exact ⟨hwrote, by cases result.failed <;> decide, by cases result.failed <;> decide⟩

/-- A run that gets as far as to compile, but not to write, is aborted. -/
theorem Prepared.unwritable (h : Prepared reader files arguments chosen scope) {path : String}
    {failure : FileFailure} (houtput : arguments.output = some path)
    (hwriting : writing path = .error failure) :
    (compileRun reader files writing arguments).Aborted (.unwritableOutput path failure) := by
  rw [h.compileRun_eq]
  simp only [deliver, houtput, hwriting]
  exact aborted_abort _ _

/-! ### What a change of a run can change -/

/-- One more file that cannot be read changes nothing that is written. -/
theorem written_insert_unreadable {before after : List String} {path : String} {failure : FileFailure}
    (hfiles : arguments.files = before ++ after) (hpath : files path = .error failure) :
    let outcome := compileRun reader files writing arguments
    let other := compileRun reader files writing { arguments with files := before ++ path :: after }
    other.stdout = outcome.stdout ∧ other.written = outcome.written := by
  rcases exists_prepared_or_refused reader files arguments with ⟨chosen, scope, h⟩ | ⟨error, h⟩
  · have h' := h.congr (before ++ path :: after) arguments.strict
    have htexts : texts files (before ++ path :: after) = texts files arguments.files := by
      rw [hfiles, List.append_cons, texts_append, texts_append, texts_append, texts_of_error hpath,
        List.append_nil]
    dsimp only
    rw [h.compileRun_eq, h'.compileRun_eq]
    refine deliver_congr (congrArg (· ++ sheet chosen) ?_)
    rw [(accounted_compileFiles _).html, (accounted_compileFiles _).html, htexts]
  · have h' := h.congr (before ++ path :: after) arguments.strict
    dsimp only
    rw [h.compileRun_eq, h'.compileRun_eq]
    exact ⟨rfl, rfl⟩

/-- What a file adds stands between what the files around it add, whatever it is. -/
theorem exists_around_file {before after : List String} {path : String}
    (hfiles : arguments.files = before ++ path :: after)
    (hwriting : ∀ path ∈ arguments.output, writing path = .ok ()) :
    ∃ front back linesBefore linesAfter, ∀ others text,
      Prepared reader others arguments chosen scope →
      (∀ other ∈ before ++ after, others other = files other) → others path = .ok text →
        let outcome := compileRun reader others writing arguments
        let report := reportOf chosen scope text
        outcome.Wrote arguments.output (front ++ report.html ++ back) ∧
          outcome.stderr = unlines (linesBefore ++ reportLines path report ++ linesAfter) := by
  let around := compileFiles (reportOf chosen scope) arguments.strict files
  refine ⟨(around before).html, (around after).html ++ sheet chosen, (around before).lines,
    (around after).lines, fun others text h hothers htext => ?_⟩
  let result := compiled chosen scope arguments.strict others arguments.files
  have hresult : compileFiles (reportOf chosen scope) arguments.strict others arguments.files =
      (around before).followedBy
        ((compileFile (reportOf chosen scope) arguments.strict path (.ok text)).followedBy
          (around after)) := by
    rw [hfiles, compileFiles_append, ← List.singleton_append, compileFiles_append,
      compileFiles_singleton, htext,
      compileFiles_congr fun other hother => hothers other (List.mem_append_left after hother),
      compileFiles_congr fun other hother => hothers other (List.mem_append_right before hother)]
  have hhtml : result.html = (around before).html ++ (reportOf chosen scope text).html ++
      ((around after).html ++ sheet chosen) := by
    simp only [result, compiled, hresult, Compilation.followedBy, compileFile, String.append_assoc]
  have hlines : result.lines = (around before).lines ++ reportLines path (reportOf chosen scope text) ++
      (around after).lines := by
    simp only [result, compiled, hresult, Compilation.followedBy, compileFile, List.append_assoc]
  obtain ⟨hwrote, hstderr, -⟩ := deliver_of_ok result hwriting
  dsimp only
  rw [h.compileRun_eq, ← hhtml, ← hlines]
  exact ⟨hwrote, hstderr⟩

/-- Strictness changes the exit code only. -/
theorem compileRun_strict (strict : Bool) :
    let outcome := compileRun reader files writing arguments
    let other := compileRun reader files writing { arguments with strict }
    other.stdout = outcome.stdout ∧ other.stderr = outcome.stderr ∧
      other.written = outcome.written := by
  rcases exists_prepared_or_refused reader files arguments with ⟨chosen, scope, h⟩ | ⟨error, h⟩
  · have h' := h.congr arguments.files strict
    dsimp only
    rw [h.compileRun_eq, h'.compileRun_eq]
    let result (strict : Bool) := compiled chosen scope strict files arguments.files
    have hhtml : (result strict).html = (result arguments.strict).html :=
      congrArg (· ++ sheet chosen) (html_compileFiles_strict strict arguments.strict)
    have hlines : (result strict).lines = (result arguments.strict).lines :=
      lines_compileFiles_strict strict arguments.strict
    obtain ⟨hstdout, hwritten⟩ := deliver_congr hhtml
    exact ⟨hstdout, stderr_deliver_congr hlines, hwritten⟩
  · have h' := h.congr arguments.files strict
    dsimp only
    rw [h.compileRun_eq, h'.compileRun_eq]
    exact ⟨rfl, rfl, rfl⟩

/-- The outcome of a run is settled by its files, each on its own. -/
theorem compileRun_settledByFiles (reader : SettingsReader) (files : Files)
    (writing : String → Except FileFailure Unit) (arguments : Arguments) :
    SettledByFiles reader files writing arguments where
  decided := exists_prepared_or_refused reader files arguments
  refused _ h := h.compileRun_eq ▸ aborted_abort [] _
  unwritable _ _ _ _ h := h.unwritable
  delivered _ _ h := h.delivered
  unreadable _ _ _ _ := written_insert_unreadable
  apart _ _ _ _ _ := exists_around_file
  strict := compileRun_strict

/-- Runs over a file that halts, one that is missing and one with a node that is nested too deep: with a
settings file and a binding that replaces a global, with settings of depth zero, with settings that are
missing, and with a binding that has no value. -/
theorem compileRun_settledByFiles_site :
    let site := "defaultStyles: true\nmaxDepth: 1\nglobals:\n  v: p\n  w: q\n"
    let globals : Scope := .ofBindings [("v", .string "p"), ("w", .string "q")]
    let reader : SettingsReader := fun text =>
      if text = site then .ok ⟨true, true, 1, globals⟩
      else if text = "maxDepth: 0\n" then .ok ⟨true, false, 0, .empty⟩
      else .error "malformed settings"
    let files : Files := fun path => ([("site.yaml", site), ("zero.yaml", "maxDepth: 0\n"),
      ("a", "x<halt></halt>y"), ("c", "<p><b>z</b></p><inter>\x7bv\x7d</inter>")].lookup path).elim
        (.error .missing) .ok
    let outcome (config : String) (vars : List (String × String)) :=
      compileRun reader files (fun _ => .ok ())
        ⟨some config, some "out", true, false, vars, false, ["a", "b", "c"]⟩
    ((outcome "site.yaml" [("v", "w")]).Wrote (some "out")
        ("x<div class=\"fy-inter\">q</div>" ++
          ("<style>" ++ Stylesheet.defaultStyles ++ "</style>")) ∧
      (outcome "site.yaml" [("v", "w")]).code = 1) ∧
      (outcome "zero.yaml" []).Aborted (.badSettings "zero.yaml" .depthZero) ∧
      (outcome "none.yaml" []).Aborted (.unreadableSettings "none.yaml" .missing) ∧
      (outcome "site.yaml" [("v", "u")]).Aborted (.badVar "v" "u" (.undefinedVariable "u")) := by
  intro site globals reader files outcome
  let arguments (config : String) (vars : List (String × String)) : Arguments :=
    ⟨some config, some "out", true, false, vars, false, ["a", "b", "c"]⟩
  have hsettled (config : String) (vars : List (String × String)) :=
    compileRun_settledByFiles reader files (fun _ => .ok ()) (arguments config vars)
  have hchosen (vars : List (String × String)) :
      Chosen reader files (arguments "site.yaml" vars) ⟨false, true, 1, globals⟩ :=
    ⟨⟨true, true, 1, globals⟩,
      @Configured.written reader files "site.yaml" site _ rfl (if_pos rfl) (by decide),
      by simp [arguments], by simp, rfl, rfl⟩
  have hprepared : Prepared reader files (arguments "site.yaml" [("v", "w")])
      ⟨false, true, 1, globals⟩ (globals.bindAll [("v", .string "q")]) :=
    ⟨hchosen _, [("v", .string "q")], .cons ⟨rfl, rfl⟩ .nil, rfl⟩
  have hhtml : String.join ((texts files ["a", "b", "c"]).map fun text =>
      (reportOf ⟨false, true, 1, globals⟩ (globals.bindAll [("v", .string "q")]) text).html) =
        "x<div class=\"fy-inter\">q</div>" := by
    decide +kernel
  obtain ⟨hwrote, hfails, -⟩ := (hsettled _ _).delivered _ _ hprepared fun _ _ => rfl
  refine ⟨⟨?_, hfails.mpr (.inl ⟨"b", by decide, .missing, rfl⟩)⟩, ?_, ?_, ?_⟩
  · exact hhtml ▸ hwrote
  · exact (hsettled _ _).refused _ (.settings (.depthZero rfl (if_neg (by decide)) rfl))
  · exact (hsettled _ _).refused _ (.settings (.unreadable rfl))
  · exact (hsettled _ _).refused _ (.var (hchosen _) ⟨[], [], rfl, by simp, rfl⟩)

end Run

end DirectiveMarkup.CommandLine
