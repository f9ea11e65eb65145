import DirectiveMarkup.Expression.Evaluate
import DirectiveMarkup.Interpolation

/-!
# The names that are read

Evaluation looks up names in a scope, and only those that stand in the expression as identifiers.
The names of properties and methods, the keys of objects and the contents of strings are not looked
up. A key that stands alone in an object literal is short for an entry with the identifier of that
name, so it is.

So what an expression, its source or a text with spans comes to, be it a value or a failure,
depends on nothing else in the scope. Scopes may hold other names with any values.
-/

namespace DirectiveMarkup

open Expression (Scope Fields Expr)

namespace Expression

/-! ## Identifiers -/

mutual

/-- The identifiers of an expression. -/
def Expr.names : Expr → List String
  | .literal _ => []
  | .ident name => [name]
  | .array items => exprsNames items
  | .object entries => entriesNames entries
  | .unary _ operand => operand.names
  | .binary _ left right => left.names ++ right.names
  | .conditional test yes no => test.names ++ yes.names ++ no.names
  | .member object _ => object.names
  | .index object place => object.names ++ place.names
  | .call callee arguments => callee.names ++ exprsNames arguments

/-- The identifiers of several expressions. -/
def exprsNames : List Expr → List String
  | [] => []
  | expr :: rest => expr.names ++ exprsNames rest

/-- The identifiers in the values of an object. -/
def entriesNames : List (String × Expr) → List String
  | [] => []
  | (_, value) :: rest => value.names ++ entriesNames rest

end

/-- The identifiers of the expression that a source is read as. -/
def sourceNames (source : String) : List String :=
  match parse source with
  | .ok expr => expr.names
  | .error _ => []

/-! ## Scopes that agree -/

/-- Two scopes agree on names: each of them has the same value in both, or none in either. -/
def Scope.AgreeOn (names : List String) (first second : Scope) : Prop :=
  ∀ name ∈ names, first.find? name = second.find? name

/-- Something depends on a scope through these names only: scopes that agree on them are all the
same to it, and so is a scope with bindings for other names layered on top. -/
structure DependsOnlyOn {α : Type} (names : List String) (outcome : Scope → α) : Prop where
  agree : ∀ first second, Scope.AgreeOn names first second → outcome first = outcome second
  layered : ∀ (scope : Scope) (bindings : List (String × Value)),
    (∀ binding ∈ bindings, binding.1 ∉ names) → outcome (scope.bindAll bindings) = outcome scope

namespace Scope.AgreeOn

variable {names more : List String} {first second : Scope}

/-- Scopes that agree on some names agree on a part of them. -/
theorem subset (h : AgreeOn more first second) (hsub : names ⊆ more) : AgreeOn names first second :=
  fun name hname => h name (hsub hname)

/-- Scopes that agree on the names of two parts agree on those of the first. -/
theorem left (h : AgreeOn (names ++ more) first second) : AgreeOn names first second :=
  h.subset (List.subset_append_left names more)

/-- Scopes that agree on the names of two parts agree on those of the second. -/
theorem right (h : AgreeOn (names ++ more) first second) : AgreeOn more first second :=
  h.subset (List.subset_append_right names more)

end Scope.AgreeOn

/-- Binding other names does not change what a name is bound to. -/
theorem Fields.find?_bindAll_of_notMem {α : Type} {bindings : List (String × α)} {name : String}
    (h : ∀ binding ∈ bindings, binding.1 ≠ name) (fields : Fields α) :
    (fields.bindAll bindings).find? name = fields.find? name := by
  induction bindings generalizing fields with
  | nil => rfl
  | cons binding bindings ih =>
    obtain ⟨hbinding, hbindings⟩ := List.forall_mem_cons.mp h
    calc (fields.bindAll (binding :: bindings)).find? name
        = ((bind binding.1 binding.2 fields).bindAll bindings).find? name := rfl
      _ = (bind binding.1 binding.2 fields).find? name := ih hbindings _
      _ = fields.find? name := by rw [find?_bind, if_neg (Ne.symm hbinding)]

/-- What is the same in scopes that agree on names does not depend on other bindings. -/
theorem DependsOnlyOn.of_agree {α : Type} {names : List String} {outcome : Scope → α}
    (h : ∀ first second, Scope.AgreeOn names first second → outcome first = outcome second) :
    DependsOnlyOn names outcome where
  agree := h
  layered scope bindings hother := by
    apply h
    intro name hname
    refine Fields.find?_bindAll_of_notMem (fun binding hbinding heq => ?_) scope.fields
    exact hother binding hbinding (heq ▸ hname)

/-! ## Evaluation -/

section Evaluation

variable {first second : Scope}

mutual

/-- An expression has the same outcome in scopes that agree on its identifiers. -/
theorem evaluate_congr (expr : Expr) (h : Scope.AgreeOn expr.names first second) :
    evaluate first expr = evaluate second expr := by
  match expr with
  | .literal value => rfl
  | .ident name =>
    have hname : first.find? name = second.find? name := h name List.mem_cons_self
    rw [evaluate, evaluate, hname]
  | .array items =>
    rw [Expr.names] at h
    rw [evaluate, evaluate, evaluateAll_congr items h]
  | .object entries =>
    rw [Expr.names] at h
    rw [evaluate, evaluate, evaluateEntries_congr entries h]
  | .unary op operand =>
    rw [Expr.names] at h
    rw [evaluate, evaluate, evaluate_congr operand h]
  | .binary op left right =>
    rw [Expr.names] at h
    rw [evaluate, evaluate, evaluate_congr left h.left, evaluate_congr right h.right]
  | .conditional test yes no =>
    rw [Expr.names] at h
    rw [evaluate, evaluate, evaluate_congr test h.left.left, evaluate_congr yes h.left.right,
      evaluate_congr no h.right]
  | .member object name =>
    rw [Expr.names] at h
    rw [evaluate, evaluate, evaluate_congr object h]
  | .index object place =>
    rw [Expr.names] at h
    rw [evaluate, evaluate, evaluate_congr object h.left, evaluate_congr place h.right]
  | .call (.member object method) arguments =>
    rw [Expr.names, Expr.names] at h
    rw [evaluate, evaluate, evaluate_congr object h.left, evaluateAll_congr arguments h.right]
  | .call (.literal _) _ | .call (.ident _) _ | .call (.array _) _ | .call (.object _) _
  | .call (.unary _ _) _ | .call (.binary _ _ _) _ | .call (.conditional _ _ _) _
  | .call (.index _ _) _ | .call (.call _ _) _ => rfl

/-- Several expressions have the same outcome in scopes that agree on their identifiers. -/
theorem evaluateAll_congr (exprs : List Expr) (h : Scope.AgreeOn (exprsNames exprs) first second) :
    evaluateAll first exprs = evaluateAll second exprs := by
  match exprs with
  | [] => rfl
  | expr :: rest =>
    rw [exprsNames] at h
    rw [evaluateAll, evaluateAll, evaluate_congr expr h.left, evaluateAll_congr rest h.right]

/-- The entries of an object have the same outcome in scopes that agree on their identifiers. -/
theorem evaluateEntries_congr (entries : List (String × Expr))
    (h : Scope.AgreeOn (entriesNames entries) first second) :
    evaluateEntries first entries = evaluateEntries second entries := by
  match entries with
  | [] => rfl
  | (key, expr) :: rest =>
    rw [entriesNames] at h
    rw [evaluateEntries, evaluateEntries, evaluate_congr expr h.left,
      evaluateEntries_congr rest h.right]

end

/-- A source has the same outcome in scopes that agree on its identifiers. -/
theorem evaluateSource_congr {source : String}
    (h : Scope.AgreeOn (sourceNames source) first second) :
    evaluateSource source first = evaluateSource source second := by
  unfold sourceNames at h
  unfold evaluateSource
  cases hparse : parse source with
  | error error => rfl
  | ok expr =>
    rw [hparse] at h
    exact evaluate_congr expr h

end Evaluation

/-- The source is read as a name, and as nothing else. -/
def readsAsName (source : String) : Bool :=
  match parse source with
  | .ok (.ident name) => name = source
  | _ => false

/-- What is read as a name stands for what the scope binds to that name. -/
theorem evaluateSource_of_readsAsName {source : String} (h : readsAsName source) {scope : Scope}
    {value : Value} (hfind : scope.find? source = some value) :
    evaluateSource source scope = .ok value := by
  unfold readsAsName at h
  split at h
  case h_1 name hparse =>
    obtain rfl : name = source := of_decide_eq_true h
    change (parse name >>= evaluate scope) = _
    rw [hparse]
    change evaluate scope (.ident name) = _
    rw [evaluate, hfind]
  case h_2 => cases h

end Expression

/-! ## Interpolation -/

namespace Interpolation

open Expression (Value DependsOnlyOn sourceNames evaluate evaluateSource)

/-- The identifiers of all spans of a markup. -/
def spanNames (markup : String) : List String :=
  (sources markup.toList).flatMap fun source => sourceNames (.ofList source)

/-- Interpolation asks for nothing but the sources of spans. -/
theorem interpolate_congr {m : Type → Type} [Monad m] {first second : String → m Value}
    {markup : String}
    (h : ∀ source ∈ sources markup.toList, first (.ofList source) = second (.ofList source)) :
    interpolate first markup = interpolate second markup := by
  have hturn : ∀ (todo : List (List Char)) (text : List Char),
      (∀ source ∈ todo, first (.ofList source) = second (.ofList source)) →
      todo.foldlM (fun text source => do
          let value ← first (.ofList source)
          return substitute source value text) text =
        todo.foldlM (fun text source => do
          let value ← second (.ofList source)
          return substitute source value text) text := by
    intro todo
    induction todo with
    | nil => exact fun text _ => rfl
    | cons source todo ih =>
      intro text htodo
      obtain ⟨hsource, hrest⟩ := List.forall_mem_cons.mp htodo
      rw [List.foldlM_cons, List.foldlM_cons, hsource]
      congr 1
      funext next
      exact ih next hrest
  unfold interpolate
  rw [hturn _ _ fun source hsource => h source (List.mem_eraseDups.mp hsource)]

/-- An expression, its source and a text with spans depend on a scope only through their
identifiers. -/
theorem dependsOnlyOn_names :
    (∀ expr : Expr, DependsOnlyOn expr.names (evaluate · expr)) ∧
      (∀ source : String, DependsOnlyOn (sourceNames source) (evaluateSource source)) ∧
      ∀ markup : String, DependsOnlyOn (spanNames markup)
        fun scope => interpolate (evaluateSource · scope) markup := by
  refine ⟨fun expr => .of_agree ?_, fun source => .of_agree ?_, fun markup => .of_agree ?_⟩
  · exact fun first second h => Expression.evaluate_congr expr h
  · exact fun first second h => Expression.evaluateSource_congr h
  · intro first second h
    apply interpolate_congr
    intro source hsource
    apply Expression.evaluateSource_congr
    exact fun name hname => h name (List.mem_flatMap.mpr ⟨source, hsource, hname⟩)

/-- A key that stands alone is an identifier; the other key, the property and the string are none. -/
theorem dependsOnlyOn_names_object :
    let source := "\x7bn, label: m.n['five']\x7d"
    let markup := "<p title='five'>\x7bn\x7d: \x7bm.label\x7d</p>"
    let first : Scope := .ofBindings [("m", .object []), ("n", .bool true)]
    let second : Scope :=
      .ofBindings [("five", .null), ("label", .bool false), ("m", .object []), ("n", .bool true)]
    sourceNames source = ["n", "m"] ∧ spanNames markup = ["n", "m"] ∧
      Scope.AgreeOn ["n", "m"] first second ∧
      evaluateSource source first = evaluateSource source second ∧
      interpolate (evaluateSource · (first.bindAll [("label", .null)])) markup =
        interpolate (evaluateSource · first) markup := by
  intro source markup first second
  have hsource : sourceNames source = ["n", "m"] := by decide +kernel
  have hspans : spanNames markup = ["n", "m"] := by decide +kernel
  have hagree : Scope.AgreeOn ["n", "m"] first second :=
    List.forall_mem_cons.mpr ⟨rfl, List.forall_mem_singleton.mpr rfl⟩
  have hother : ∀ binding ∈ [("label", Value.null)], binding.1 ∉ spanNames markup := by
    rw [hspans]
    simp
  exact ⟨hsource, hspans, hagree, (dependsOnlyOn_names.2.1 source).agree first second (hsource ▸ hagree),
    (dependsOnlyOn_names.2.2 markup).layered first [("label", .null)] hother⟩

end Interpolation

end DirectiveMarkup
