import DirectiveMarkup.CommandLine.Run
import Mathlib.Data.List.Perm.Basic
import Mathlib.Data.String.Basic

/-!
# Bindings of the command line

The names bound on the command line are bound one after the other, and the value of each is taken in the
globals alone. So no binding sees another. A name has the value of the last source that is given for it,
and the order of bindings of different names does not matter. What fails is the first source that has no
value in the globals.

Scopes are compared name by name. The names of a scope are ascending, so it is determined by what they
are bound to.
-/

namespace DirectiveMarkup

namespace Expression

namespace Fields

variable {α : Type} {fields : Fields α}

/-! ## Ascending names -/

/-- What stands in an assignment with ascending names is what the names are bound to. -/
theorem Ascending.mem_iff (h : fields.Ascending) {pair : String × α} :
    pair ∈ fields ↔ fields.find? pair.1 = some pair.2 := by
  induction fields with
  | nil => simp [find?]
  | cons first rest ih =>
    obtain ⟨hfirst, hrest⟩ := List.pairwise_cons.mp h
    rw [find?, List.mem_cons]
    split_ifs with heq
    · rw [Option.some.injEq, or_iff_left fun hmem => (hfirst pair hmem).ne heq.symm]
      exact ⟨fun h => h ▸ rfl, fun h => Prod.ext heq h.symm⟩
    · rw [or_iff_right fun hpair => heq (congrArg Prod.fst hpair)]
      exact ih hrest

/-- Assignments with ascending names are the same when names are bound alike. -/
theorem Ascending.ext {first second : Fields α} (hfirst : first.Ascending)
    (hsecond : second.Ascending) (h : ∀ name, first.find? name = second.find? name) :
    first = second := by
  have hnodup {fields : Fields α} (h : fields.Ascending) : fields.Nodup :=
    h.imp fun hless heq => hless.ne (congrArg Prod.fst heq)
  have hperm : first.Perm second := by
    refine (List.perm_ext_iff_of_nodup (hnodup hfirst) (hnodup hsecond)).mpr fun pair => ?_
    rw [hfirst.mem_iff, hsecond.mem_iff, h]
  exact hperm.eq_of_pairwise (fun _ _ _ _ hless hgreater => absurd hless hgreater.not_gt) hfirst hsecond

end Fields

/-- Scopes are the same when names are bound alike. -/
theorem Scope.eq_of_find? {first second : Scope}
    (h : ∀ name, first.find? name = second.find? name) : first = second := by
  have hfields : first.fields = second.fields := first.ascending.ext second.ascending h
  cases first
  cases second
  cases hfields
  rfl

end Expression

namespace CommandLine

open Expression (Scope Fields Value EvalError evaluateSource)

/-! ## One binding after the other -/

/-- The source that is given last for a name. -/
def lastSource? (vars : List (String × String)) (name : String) : Option String :=
  ((vars.filter (·.1 = name)).getLast?).map Prod.snd

/-- Behind a binding the last source is that of the binding, unless another follows. -/
theorem lastSource?_cons (var : String × String) (vars : List (String × String)) (name : String) :
    lastSource? (var :: vars) name =
      (lastSource? vars name).or (if var.1 = name then some var.2 else none) := by
  unfold lastSource?
  by_cases hname : var.1 = name
  · rw [List.filter_cons_of_pos (by simpa using hname), List.getLast?_cons, if_pos hname]
    cases (vars.filter (·.1 = name)).getLast? <;> rfl
  · rw [List.filter_cons_of_neg (by simpa using hname), if_neg hname, Option.or_none]

/-- A binding is the first that fails: its source has no value in the globals, and the sources before it
have one. -/
def FirstFailing (globals : Scope) (vars : List (String × String)) (name source : String)
    (cause : EvalError) : Prop :=
  ∃ before after, vars = before ++ (name, source) :: after ∧
    (∀ var ∈ before, ∃ value, evaluateSource var.2 globals = .ok value) ∧
    evaluateSource source globals = .error cause

section Binding

variable {globals scope : Scope} {name source : String} {vars : List (String × String)}

/-- A binding whose source has no value ends the binding of names. -/
theorem bindVars_cons_of_error {cause : EvalError} (h : evaluateSource source globals = .error cause) :
    bindVars globals scope ((name, source) :: vars) = .error (.badVar name source cause) := by
  rw [bindVars, h]
  rfl

/-- A binding whose source has a value is made, and the others follow. -/
theorem bindVars_cons_of_ok {value : Value} (h : evaluateSource source globals = .ok value) :
    bindVars globals scope ((name, source) :: vars) =
      bindVars globals (scope.bind name value) vars := by
  rw [bindVars, h]
  rfl

end Binding

/-- The names of a command line with the values of their sources in the globals. -/
def Valued (globals : Scope) (vars : List (String × String)) (bindings : List (String × Value)) : Prop :=
  List.Forall₂ (fun var binding => binding.1 = var.1 ∧ evaluateSource var.2 globals = .ok binding.2)
    vars bindings

/-- Where all sources have values, the names are bound to these in turn. -/
theorem bindVars_eq_ok_iff {globals scope result : Scope} {vars : List (String × String)} :
    bindVars globals scope vars = .ok result ↔
      ∃ bindings, Valued globals vars bindings ∧ result = scope.bindAll bindings := by
  induction vars generalizing scope with
  | nil =>
    constructor
    · intro h
      exact ⟨[], .nil, (Except.ok.inj h).symm⟩
    · rintro ⟨bindings, hvalued, rfl⟩
      cases hvalued
      rfl
  | cons var vars ih =>
    obtain ⟨name, source⟩ := var
    cases hvalue : evaluateSource source globals with
    | error cause =>
      rw [bindVars_cons_of_error hvalue]
      refine iff_of_false nofun ?_
      rintro ⟨bindings, hvalued, -⟩
      cases hvalued with
      | cons hfirst _ => exact nomatch hvalue.symm.trans hfirst.2
    | ok value =>
      rw [bindVars_cons_of_ok hvalue, ih]
      constructor
      · rintro ⟨bindings, hvalued, rfl⟩
        exact ⟨(name, value) :: bindings, .cons ⟨rfl, hvalue⟩ hvalued, rfl⟩
      · rintro ⟨bindings, hvalued, rfl⟩
        cases hvalued with
        | @cons _ binding _ bindings hfirst hrest =>
          obtain ⟨other, held⟩ := binding
          obtain ⟨rfl, hheld⟩ := hfirst
          obtain rfl := Except.ok.inj (hvalue.symm.trans hheld)
          exact ⟨bindings, hrest, rfl⟩

/-- A binding that fails is the first to fail when it comes first. -/
theorem firstFailing_cons_of_error {globals : Scope} {name source : String} {cause : EvalError}
    (h : evaluateSource source globals = .error cause) (vars : List (String × String))
    {name' source' : String} {cause' : EvalError} :
    FirstFailing globals ((name, source) :: vars) name' source' cause' ↔
      (name', source', cause') = (name, source, cause) := by
  constructor
  · rintro ⟨before, after, hvars, hbefore, hfails⟩
    cases before with
    | nil =>
      obtain ⟨hvar, -⟩ := List.cons.inj hvars
      cases hvar
      rw [Except.error.inj (h.symm.trans hfails)]
    | cons var before =>
      obtain ⟨value, hvalue⟩ := hbefore var List.mem_cons_self
      rw [← (List.cons.inj hvars).1, h] at hvalue
      exact nomatch hvalue
  · rintro ⟨⟩
    exact ⟨[], vars, rfl, by simp, h⟩

/-- Behind a binding that does not fail the first to fail is the first of the others. -/
theorem firstFailing_cons_of_ok {globals : Scope} {name source : String} {value : Value}
    (h : evaluateSource source globals = .ok value) (vars : List (String × String))
    {name' source' : String} {cause' : EvalError} :
    FirstFailing globals ((name, source) :: vars) name' source' cause' ↔
      FirstFailing globals vars name' source' cause' := by
  constructor
  · rintro ⟨before, after, hvars, hbefore, hfails⟩
    cases before with
    | nil =>
      obtain ⟨hvar, -⟩ := List.cons.inj hvars
      cases hvar
      exact nomatch h.symm.trans hfails
    | cons var before =>
      exact ⟨before, after, (List.cons.inj hvars).2, (List.forall_mem_cons.mp hbefore).2, hfails⟩
  · rintro ⟨before, after, rfl, hbefore, hfails⟩
    refine ⟨(name, source) :: before, after, rfl, ?_, hfails⟩
    exact List.forall_mem_cons.mpr ⟨⟨value, h⟩, hbefore⟩

/-- The binding of names fails as the first binding that fails. -/
theorem bindVars_eq_error_iff {globals scope : Scope} {vars : List (String × String)}
    {error : RunError} :
    bindVars globals scope vars = .error error ↔
      ∃ name source cause, FirstFailing globals vars name source cause ∧
        error = .badVar name source cause := by
  induction vars generalizing scope with
  | nil => simp [bindVars, FirstFailing]
  | cons var vars ih =>
    obtain ⟨name, source⟩ := var
    cases hvalue : evaluateSource source globals with
    | error cause =>
      rw [bindVars_cons_of_error hvalue]
      simp only [firstFailing_cons_of_error hvalue]
      simp [eq_comm]
    | ok value =>
      rw [bindVars_cons_of_ok hvalue, ih]
      simp only [firstFailing_cons_of_ok hvalue]

/-- Some binding is the first to fail when some binding fails. -/
theorem exists_firstFailing_iff {globals : Scope} {vars : List (String × String)} :
    (∃ name source cause, FirstFailing globals vars name source cause) ↔
      ∃ var ∈ vars, ∃ cause, evaluateSource var.2 globals = .error cause := by
  induction vars with
  | nil => simp [FirstFailing]
  | cons var vars ih =>
    obtain ⟨name, source⟩ := var
    cases hvalue : evaluateSource source globals with
    | error cause =>
      have hfirst : FirstFailing globals ((name, source) :: vars) name source cause :=
        (firstFailing_cons_of_error hvalue vars).mpr rfl
      refine iff_of_true ⟨name, source, cause, hfirst⟩ ?_
      exact ⟨(name, source), List.mem_cons_self, cause, hvalue⟩
    | ok value =>
      simp only [firstFailing_cons_of_ok hvalue, ih, List.exists_mem_cons_iff, hvalue]
      exact (or_iff_right nofun).symm

/-- The binding of names fails when some source has no value in the globals. -/
theorem exists_bindVars_eq_error_iff {globals scope : Scope} {vars : List (String × String)} :
    (∃ error, bindVars globals scope vars = .error error) ↔
      ∃ var ∈ vars, ∃ cause, evaluateSource var.2 globals = .error cause := by
  rw [← exists_firstFailing_iff]
  simp only [bindVars_eq_error_iff]
  constructor
  · rintro ⟨_, name, source, cause, hfirst, -⟩
    exact ⟨name, source, cause, hfirst⟩
  · rintro ⟨name, source, cause, hfirst⟩
    exact ⟨_, name, source, cause, hfirst, rfl⟩

/-- Names are bound to the values of their last sources in the globals, and other names as before. -/
theorem find?_of_bindVars_eq_ok {globals scope result : Scope} {vars : List (String × String)}
    (h : bindVars globals scope vars = .ok result) (name : String) :
    result.find? name =
      (lastSource? vars name).elim (scope.find? name) fun source =>
        (evaluateSource source globals).toOption := by
  -- The scope grows, but the sources are read in the globals, so the induction is over all scopes.
  induction vars generalizing scope with
  | nil =>
    obtain rfl : scope = result := Except.ok.inj h
    rfl
  | cons var vars ih =>
    obtain ⟨other, source⟩ := var
    cases hvalue : evaluateSource source globals with
    | error cause => exact nomatch (bindVars_cons_of_error hvalue).symm.trans h
    | ok value =>
      rw [bindVars_cons_of_ok hvalue] at h
      rw [ih h, lastSource?_cons, Scope.find?_bind]
      cases lastSource? vars name with
      | some last => rfl
      | none =>
        by_cases hname : name = other
        · simp [hname, hvalue, Except.toOption]
        · simp [hname, Ne.symm hname]

/-- The last source that is given for a name is one of those that are given. -/
theorem mem_of_lastSource? {vars : List (String × String)} {name source : String}
    (h : lastSource? vars name = some source) : ∃ var ∈ vars, var.2 = source := by
  obtain ⟨var, hvar, rfl⟩ := Option.map_eq_some_iff.mp h
  exact ⟨var, List.mem_of_mem_filter (List.mem_of_getLast? hvar), rfl⟩

/-! ## Any order -/

/-- Bindings in another order, in which those of one name follow each other as before. -/
def Rearranged (vars others : List (String × String)) : Prop :=
  vars.Perm others ∧ ∀ name, vars.filter (·.1 = name) = others.filter (·.1 = name)

/-- Another order gives the last sources that were given. -/
theorem Rearranged.lastSource? {vars others : List (String × String)} (h : Rearranged vars others)
    (name : String) : lastSource? others name = lastSource? vars name := by
  rw [CommandLine.lastSource?, CommandLine.lastSource?, h.2 name]

/-- The bindings of a command line make a scope that does not depend on their order. They fail when some
source has no value in the globals, and as the first such source. Otherwise each name that is given has
the value of its last source in the globals, whatever else is given, and all other names are bound as in
the globals. -/
theorem buildScope_orderIndependent (globals : Scope) (vars : List (String × String)) :
    ((∃ error, buildScope globals vars = .error error) ↔
        ∃ var ∈ vars, ∃ cause, evaluateSource var.2 globals = .error cause) ∧
      (∀ error, buildScope globals vars = .error error ↔
        ∃ name source cause, FirstFailing globals vars name source cause ∧
          error = .badVar name source cause) ∧
      (∀ scope, buildScope globals vars = .ok scope → ∀ name,
        (∀ source, lastSource? vars name = some source →
          ∃ value, evaluateSource source globals = .ok value ∧ scope.find? name = some value) ∧
        (lastSource? vars name = none → scope.find? name = globals.find? name)) ∧
      (∀ others scope, Rearranged vars others → buildScope globals vars = .ok scope →
        buildScope globals others = .ok scope) ∧
      ∀ others scope other name, buildScope globals vars = .ok scope →
        buildScope globals others = .ok other → lastSource? others name = lastSource? vars name →
        other.find? name = scope.find? name := by
  refine ⟨exists_bindVars_eq_error_iff, fun error => bindVars_eq_error_iff, ?_, ?_, ?_⟩
  · intro scope hscope name
    have hname := find?_of_bindVars_eq_ok hscope name
    refine ⟨fun source hsource => ?_, fun hnone => by rw [hname, hnone]; rfl⟩
    cases hvalue : evaluateSource source globals with
    | error cause =>
      obtain ⟨var, hvar, rfl⟩ := mem_of_lastSource? hsource
      obtain ⟨error, herror⟩ := exists_bindVars_eq_error_iff.mpr ⟨var, hvar, cause, hvalue⟩
      exact nomatch hscope.symm.trans herror
    | ok value =>
      refine ⟨value, rfl, ?_⟩
      rw [hname, hsource, Option.elim_some, hvalue]
      rfl
  · intro others scope hothers hscope
    cases hother : buildScope globals others with
    | error error =>
      obtain ⟨var, hvar, hfails⟩ := exists_bindVars_eq_error_iff.mp ⟨error, hother⟩
      obtain ⟨error, herror⟩ :=
        exists_bindVars_eq_error_iff.mpr ⟨var, hothers.1.mem_iff.mpr hvar, hfails⟩
      exact nomatch hscope.symm.trans herror
    | ok other =>
      have halike (name : String) : other.find? name = scope.find? name := by
        rw [find?_of_bindVars_eq_ok hother, find?_of_bindVars_eq_ok hscope, hothers.lastSource?]
      exact congrArg Except.ok (Scope.eq_of_find? halike)
  · intro others scope other name hscope hother hlast
    rw [find?_of_bindVars_eq_ok hother, find?_of_bindVars_eq_ok hscope, hlast]

/-- The first name shadows a global that the others read, wherever it is bound, and the last source of
the second name is the one that counts. -/
theorem buildScope_orderIndependent_shadowed :
    let globals : Scope := .ofBindings [("a", .bool true)]
    let vars := [("b", "a"), ("a", "null"), ("b", "!a")]
    let others := [("a", "null"), ("b", "a"), ("b", "!a")]
    let scope : Scope := .ofBindings [("a", .null), ("b", .bool false)]
    (buildScope globals vars = .ok scope ∧ Rearranged vars others) ∧
      buildScope globals others = .ok scope ∧
      ∃ value, evaluateSource "!a" globals = .ok value ∧ scope.find? "b" = some value := by
  intro globals vars others scope
  have hscope : buildScope globals vars = .ok scope := rfl
  have hothers : Rearranged vars others := by
    refine ⟨List.Perm.swap _ _ _, fun name => ?_⟩
    by_cases ha : "a" = name
    · subst ha
      rfl
    · simp [vars, others, List.filter_cons, ha]
  obtain ⟨-, -, hvalues, horder, -⟩ := buildScope_orderIndependent globals vars
  exact ⟨⟨hscope, hothers⟩, horder others scope hothers hscope,
    (hvalues scope hscope "b").1 "!a" rfl⟩

end CommandLine

end DirectiveMarkup
