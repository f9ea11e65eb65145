import DirectiveMarkup.Proofs.NamesRead
import DirectiveMarkup.Proofs.SettledOutcome
import DirectiveMarkup.Proofs.Substitution

/-!
# Inter as substitution in the tree

An `inter` writes its children, interpolates the text and reads it back, in the scope around it
with the bindings of its `vars` on top. On a legible forest that closes its spans this is the same
as filling the texts and values of the tree: the text is filled in one pass, the filled text is
the written filled forest, and reading it back settles that forest.

One thing is lost on the way. A text whose spans all give way to nothing is empty, and an empty
text is not read back. In the tree it takes a level, so the two agree exactly when such texts
are left out of the tree.
-/

namespace DirectiveMarkup

open Expression (Fields Scope Value evaluateSource)
open Interpolation (greeting isInert)
open Markup (Node Tag outerMarkup settleForest legibleForest closedForest sourcesOf fillForest
  pruneForest hasEmptyText)

namespace Compiler

/-! ## The bindings of `vars` -/

section Bindings

variable {compiler : Compiler} {scope bindings : Scope} {tag : Tag}

/-- What an `inter` binds around its children. Its attribute `vars` may be left out or blank; its
text, trimmed, may come to null, which binds nothing, or to an object, which binds its fields. -/
inductive VarsBind (compiler : Compiler) (scope : Scope) (tag : Tag) : Scope → Prop
  | missing (habsent : tag.attribute? "vars" = none) : VarsBind compiler scope tag .empty
  | blank {text : String} (htext : tag.attribute? "vars" = some text)
      (hblank : (Text.trim text).isEmpty) : VarsBind compiler scope tag .empty
  | null {text : String} (htext : tag.attribute? "vars" = some text)
      (hsource : (Text.trim text).isEmpty = false)
      (hvalue : compiler.evaluate (Text.trim text) scope = .ok .null) :
      VarsBind compiler scope tag .empty
  | object {text : String} {fields : Fields Value} (htext : tag.attribute? "vars" = some text)
      (hsource : (Text.trim text).isEmpty = false)
      (hvalue : compiler.evaluate (Text.trim text) scope = .ok (.object fields)) :
      VarsBind compiler scope tag (.ofBindings fields)

/-- The bindings of an `inter` whose `vars` has a source. -/
theorem outcome_interpolationBindings_of_text {text : String}
    (htext : tag.attribute? "vars" = some text) (hsource : (Text.trim text).isEmpty = false) :
    (compiler.interpolationBindings scope tag).outcome =
      match compiler.evaluate (Text.trim text) scope with
      | .error cause => .error (.expression .interpolation "vars" cause)
      | .ok value => match Scope.ofValue? value with
        | some bindings => .ok bindings
        | none => .error (.wrongKind .interpolation "vars" .object value.kind) := by
  have hsome : sourceOf? tag "vars" = some (Text.trim text) := by
    rw [sourceOf?_of_attribute htext, hsource]
    rfl
  rw [interpolationBindings, hsome]
  change (Reported.outcome (_ >>= _)) = _
  rw [Reported.outcome_bind, evaluateAttribute, Reported.outcome_ofExcept]
  cases compiler.evaluate (Text.trim text) scope with
  | error cause => rfl
  | ok value => cases value <;> rfl

/-- An `inter` has bindings just when its `vars` is left out, blank, null or an object. -/
theorem outcome_interpolationBindings_eq_ok_iff :
    (compiler.interpolationBindings scope tag).outcome = .ok bindings ↔
      VarsBind compiler scope tag bindings := by
  constructor
  · intro h
    cases htext : tag.attribute? "vars" with
    | none =>
      rw [interpolationBindings, sourceOf?_of_missing htext] at h
      cases h
      exact .missing htext
    | some text =>
      cases hsource : (Text.trim text).isEmpty with
      | true =>
        rw [interpolationBindings, sourceOf?_of_attribute htext, hsource] at h
        cases h
        exact .blank htext hsource
      | false =>
        rw [outcome_interpolationBindings_of_text htext hsource] at h
        cases hvalue : compiler.evaluate (Text.trim text) scope with
        | error cause =>
          rw [hvalue] at h
          cases h
        | ok value =>
          rw [hvalue] at h
          cases value with
          | null =>
            cases h
            exact .null htext hsource hvalue
          | object fields =>
            cases h
            exact .object htext hsource hvalue
          | _ => cases h
  · rintro (habsent | ⟨htext, hblank⟩ | ⟨htext, hsource, hvalue⟩ | ⟨htext, hsource, hvalue⟩)
    · rw [interpolationBindings, sourceOf?_of_missing habsent]
      rfl
    · rw [interpolationBindings, sourceOf?_of_attribute htext, hblank]
      rfl
    · rw [outcome_interpolationBindings_of_text htext hsource, hvalue]
      rfl
    · rw [outcome_interpolationBindings_of_text htext hsource, hvalue]
      rfl

end Bindings

/-! ## The text and the tree -/

/-- The outcome of a `div` with a class is that of its children, wrapped. -/
theorem outcome_compileNode_div (compiler : Compiler) (scope : Scope) (token : String)
    (children : List Node) :
    (compiler.compileNode scope (.element (.withClass "div" token) children)).outcome =
      wrapElement (compiler.siblings scope compiler.maxDepth) (.withClass "div" token) children := by
  have hdirective : Directive.ofTag? (Text.toLower "div") = none := by decide
  have houtput : outputTag (.withClass "div" token) = .withClass "div" token :=
    outputTag_eq (by decide : outputTag? (Text.toLower "div") = none)
  have htreatment : treatment (.withClass "div" token) children =
      .wrapped (.withClass "div" token) [] := by
    rw [treatment, Tag.withClass]
    simp only [hdirective]
    exact congrArg (Treatment.wrapped · []) houtput
  rw [compileNode, outcome_compileWithin_element, htreatment]
  rfl

/-- The outcome of an `inter` is that of the settled forest of its filled children, wrapped. -/
theorem outcome_compileNode_inter {maxDepth : Nat} {scope bindings : Scope} {tag : Tag}
    {forest : List Node} {value : List Char → Value}
    (htag : Directive.ofTag? (Text.toLower tag.name) = some .interpolation)
    (hvars : ((standard maxDepth).interpolationBindings scope tag).outcome = .ok bindings)
    (hlegible : legibleForest forest) (hclosed : closedForest forest)
    (heval : ∀ source ∈ sourcesOf forest,
      evaluateSource (.ofList source) (scope.bindAll bindings.fields) = .ok (value source))
    (hinert : ∀ source ∈ sourcesOf forest, isInert (value source)) :
    ((standard maxDepth).compileNode scope (.element tag forest)).outcome =
      wrapElement ((standard maxDepth).siblings scope maxDepth) (.withClass "div" "fy-inter")
        (settleForest (fillForest (fun source => (value source).display.toList) forest)) := by
  have htreatment : treatment tag forest = .interpolated := by
    rw [treatment, htag]
  have hinterpolate := Interpolation.interpolate_outerMarkup hlegible hclosed heval hinert
  have hlegible' := Interpolation.legibleForest_fill_isInert hlegible hinert
  have hforest : (standard maxDepth).interpolatedForest scope tag forest =
      .ok (settleForest (fillForest (fun source => (value source).display.toList) forest)) := by
    rw [interpolatedForest, hvars, ← Markup.parse_legible hlegible']
    change (Except.mapError _ (Interpolation.interpolate (evaluateSource · _) _) >>= fun text =>
      Except.ok (Markup.parse text)) = _
    rw [hinterpolate]
    rfl
  rw [compileNode, outcome_compileWithin_element, htreatment, carryOut, hforest]
  rfl

/-- Interpolating the text of the children of an `inter` gives the same as filling them in the
tree and leaving out the texts that are empty then. With these texts left in, the tree can only
be nested too deep besides. -/
theorem compileNode_inter_eq_fill {maxDepth : Nat} {scope bindings : Scope} {tag : Tag}
    {forest : List Node} {value : List Char → Value}
    (htag : Directive.ofTag? (Text.toLower tag.name) = some .interpolation)
    (hvars : ((standard maxDepth).interpolationBindings scope tag).outcome = .ok bindings)
    (hlegible : legibleForest forest) (hclosed : closedForest forest)
    (heval : ∀ source ∈ sourcesOf forest,
      evaluateSource (.ofList source) (scope.bindAll bindings.fields) = .ok (value source))
    (hinert : ∀ source ∈ sourcesOf forest, isInert (value source)) :
    let outcome (node : Node) := ((standard maxDepth).compileNode scope node).outcome
    let filled := fillForest (fun source => (value source).display.toList) forest
    let inTree (children : List Node) := outcome (.element (.withClass "div" "fy-inter") children)
    outcome (.element tag forest) = inTree (pruneForest filled) ∧
      (inTree filled = outcome (.element tag forest) ∨
        hasEmptyText filled ∧ inTree filled = .error (.nestingTooDeep maxDepth)) := by
  intro outcome filled inTree
  have hinter : outcome (.element tag forest) = _ :=
    outcome_compileNode_inter htag hvars hlegible hclosed heval hinert
  have htree (children : List Node) : inTree children = _ :=
    outcome_compileNode_div (standard maxDepth) scope "fy-inter" children
  rw [hinter, htree, htree]
  constructor
  · have hpruned := (standard maxDepth).siblings_pruneForest scope maxDepth filled
    simp only [wrapElement, standard] at hpruned ⊢
    rw [hpruned]
  · exact sameUnless_wrapElement
      ((standard maxDepth).sameUnless_settleForest scope maxDepth filled id)

/-- A name is filled in a value and in a text. What `vars` binds to it goes before the scope around
the `inter`. -/
theorem compileNode_inter_greeting :
    let outcome (node : Node) :=
      ((standard 8).compileNode (.ofBindings [("name", .string "Ada")]) node).outcome
    outcome (.element ⟨"inter", []⟩ (greeting "\x7bname\x7d")) =
      outcome (.element (.withClass "div" "fy-inter")
        (pruneForest (fillForest (fun _ => "Ada".toList) (greeting "\x7bname\x7d")))) ∧
    let around : Scope :=
      .ofBindings [("name", .string "Ada"), ("o", .object [("name", .string "Eve")])]
    let outcome (node : Node) := ((standard 8).compileNode around node).outcome
    outcome (.element ⟨"inter", [⟨"vars", " o "⟩]⟩ (greeting "\x7bname\x7d")) =
      outcome (.element (.withClass "div" "fy-inter")
        (pruneForest (fillForest (fun _ => "Eve".toList) (greeting "\x7bname\x7d")))) := by
  have hsources : sourcesOf (greeting "\x7bname\x7d") = ["name".toList, "name".toList] := by decide
  have heval (scope : Scope) (word : String) (hfind : scope.find? "name" = some (.string word)) :
      ∀ source ∈ sourcesOf (greeting "\x7bname\x7d"),
        evaluateSource (.ofList source) scope = .ok (.string word) := by
    intro source hsource
    obtain rfl : source = "name".toList := by simpa [hsources] using hsource
    exact Expression.evaluateSource_of_readsAsName (by decide +kernel) hfind
  constructor
  · exact (@compileNode_inter_eq_fill 8 (.ofBindings [("name", .string "Ada")]) .empty ⟨"inter", []⟩
      (greeting "\x7bname\x7d") (fun _ => .string "Ada") (by decide)
      (outcome_interpolationBindings_eq_ok_iff.mpr (.missing rfl)) (by decide) (by decide)
      (heval _ "Ada" rfl) fun _ _ => by decide).1
  · intro around
    have hvalue : (standard 8).evaluate (Text.trim " o ") around =
        .ok (.object [("name", .string "Eve")]) :=
      Expression.evaluateSource_of_readsAsName (by decide +kernel) rfl
    exact (@compileNode_inter_eq_fill 8 around (.ofBindings [("name", .string "Eve")])
      ⟨"inter", [⟨"vars", " o "⟩]⟩ (greeting "\x7bname\x7d") (fun _ => .string "Eve") (by decide)
      (outcome_interpolationBindings_eq_ok_iff.mpr (.object rfl (by decide) hvalue)) (by decide)
      (by decide) (heval _ "Eve" rfl) fun _ _ => by decide).1

/-- A text that becomes empty takes a level in the tree, but is not read back by `inter`. -/
theorem compileNode_inter_ne_fill :
    let forest : List Node := [.element ⟨"p", []⟩ [.text "\x7b''\x7d"]]
    let filled := fillForest (fun _ => (Value.string "").display.toList) forest
    (legibleForest forest ∧ closedForest forest ∧ hasEmptyText forest = false ∧
      ∀ source ∈ sourcesOf forest, evaluateSource (.ofList source) .empty = .ok (.string "")) ∧
    ((standard 1).compileNode .empty (.element ⟨"inter", []⟩ forest)).outcome ≠
      ((standard 1).compileNode .empty (.element (.withClass "div" "fy-inter") filled)).outcome := by
  intro forest filled
  have hsources : sourcesOf forest = ["''".toList] := by decide
  have hfilled : filled = [.element ⟨"p", []⟩ [.text ""]] := rfl
  refine ⟨⟨by decide, by decide, by decide, fun source hsource => ?_⟩, fun h => ?_⟩
  · obtain rfl : source = "''".toList := by simpa [hsources] using hsource
    rfl
  · have hinter : ((standard 1).compileNode .empty (.element ⟨"inter", []⟩ forest)).outcome.toOption =
        some (.markup "<div class=\"fy-inter\"><p></p></div>") := by decide +kernel
    have htree : ((standard 1).compileNode .empty (.element (.withClass "div" "fy-inter")
        [.element ⟨"p", []⟩ [.text ""]])).outcome.toOption = none := by decide +kernel
    rw [h, hfilled, htree] at hinter
    exact absurd hinter (by simp)

end Compiler

end DirectiveMarkup
