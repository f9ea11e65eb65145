import DirectiveMarkup.Compile.Element

/-!
# How elements are treated

Compilation treats an element in one of six ways. It ends the collection of its siblings; it
is replaced by nodes that are known before any child is compiled; it becomes an element around
its compiled children, perhaps with a label in front of them; it chooses between its children
and an alternative; or its children are turned into text, once or for every item of an array,
and that text is read again. Which of these applies depends on the tag alone, so a proof about
compilation has six cases and not one for every directive.

Notices are left out here: the outcome of a compilation depends on outcomes only.
-/

namespace DirectiveMarkup

open Expression (Scope Value)
open Markup (Node Tag isVoid outerMarkup)

/-- Changing a value changes it in the outcome. -/
@[simp] theorem Reported.outcome_map {α β : Type} (f : α → β) (x : Reported α) :
    (f <$> x).outcome = f <$> x.outcome := by
  change (x >>= fun value => pure (f value)).outcome = _
  rw [outcome_bind]
  cases x.outcome <;> rfl

/-- What becomes of an element. -/
inductive Treatment where
  | cut
  | replaced (output : List Node)
  | wrapped (output : Tag) (leading : List Node)
  | chosen
  | interpolated
  | iterated

/-- The tag under its new name, if it is renamed. -/
def outputTag (tag : Tag) : Tag :=
  ⟨(outputTag? (Text.toLower tag.name)).getD tag.name, tag.attributes⟩

/-- The content of a compiled `style` element. -/
def styleText (children : List Node) : String :=
  Stylesheet.banner ++ " " ++ Text.trim (Stylesheet.resolveSelectors (Markup.textContent children))

/-- The tag of the element that `each` compiles to. -/
def eachTag (count : Nat) : Tag :=
  ⟨"div", [⟨"class", "fy-each"⟩, ⟨"data-items", toString count⟩]⟩

/-- How an element is treated. -/
def treatment (tag : Tag) (children : List Node) : Treatment :=
  match Directive.ofTag? (Text.toLower tag.name) with
  | some .halt => .cut
  | some .alternative => .replaced []
  | some .escape => .replaced [.element (.withClass "div" "fy-escape") children]
  | some .style => .replaced [.element ⟨"style", []⟩ [.text (styleText children)]]
  | some .last => .replaced [.element (.withClass "div" "fy-last") []]
  | some .await => .replaced [.element (.withClass "div" "fy-await") []]
  | some .group =>
    if tag.hasClass "group" then .replaced [.element (.withClass "div" "fy-group") children]
    else .wrapped (outputTag tag) []
  | some .first => .wrapped (.withClass "div" "fy-first") []
  | some .tooltip => .wrapped (.withClass "span" "fy-tooltip") [Compiler.tooltipLabel tag]
  | some .conditional => .chosen
  | some .interpolation => .interpolated
  | some .each => if tag.hasAttribute "of" then .iterated else .wrapped (outputTag tag) []
  | none => .wrapped (outputTag tag) []

/-- An `if` chooses. -/
theorem treatment_of_conditional {tag : Tag}
    (h : Directive.ofTag? (Text.toLower tag.name) = some .conditional) (children : List Node) :
    treatment tag children = .chosen := by
  rw [treatment, h]

/-- An `each` that says what it goes over repeats. -/
theorem treatment_of_each {tag : Tag} (h : Directive.ofTag? (Text.toLower tag.name) = some .each)
    (hof : tag.hasAttribute "of") (children : List Node) : treatment tag children = .iterated := by
  rw [treatment, h]
  exact if_pos hof

/-- The element around nodes that `inner` compiles; a void one has nothing inside. -/
def wrapElement (inner : List Node → Except CompileError String) (output : Tag)
    (nodes : List Node) : Except CompileError Fragment :=
  if isVoid output.name then .ok (.markup output.opening)
  else (fun text => .markup (output.opening ++ text ++ output.closing)) <$> inner nodes

namespace Compiler

variable (compiler : Compiler) (scope : Scope)

/-- Whether the condition of an `if` holds: its attribute `c`, trimmed, is not empty and has a value
that counts as true. -/
def condition (tag : Tag) : Except CompileError Bool :=
  match tag.attribute? "c" with
  | none => .ok false
  | some text =>
    if (Text.trim text).isEmpty then .ok false
    else match compiler.evaluate (Text.trim text) scope with
      | .ok value => .ok value.truthy
      | .error cause => .error (.expression .conditional "c" cause)

/-- The forest that `inter` reads from the text of its children. -/
def interpolatedForest (tag : Tag) (children : List Node) : Except CompileError (List Node) := do
  let bindings ← (compiler.interpolationBindings scope tag).outcome
  let text ← (compiler.interpolateFor .interpolation (scope.bindAll bindings.fields)
    (outerMarkup children)).outcome
  compiler.parse text

/-- The items of `each` and the forest that it reads from the texts of its iterations. -/
def iteratedForest (inner : List Node → Except CompileError String) (tag : Tag)
    (children : List Node) : Except CompileError (List Value × List Node) := do
  let items ← (compiler.eachItems scope tag).outcome
  let body ← inner children
  let texts ← (compiler.iterations scope tag body 0 items).outcome
  let forest ← compiler.parse (String.join texts)
  return (items, forest)

/-- Carry out a treatment, with `inner` compiling forests. -/
def carryOut (inner : List Node → Except CompileError String) (tag : Tag) (children : List Node) :
    Treatment → Except CompileError Fragment
  | .cut => .ok .halt
  | .replaced output => .ok (.markup (outerMarkup output))
  | .wrapped output leading => wrapElement inner output (leading ++ children)
  | .chosen => do
    let holds ← compiler.condition scope tag
    let consequent ← inner children
    if holds then return .markup (wrap "fy-if" consequent)
    wrapElement inner (.withClass "div" "fy-else") (alternativeOf children)
  | .interpolated => do
    let forest ← compiler.interpolatedForest scope tag children
    wrapElement inner (.withClass "div" "fy-inter") forest
  | .iterated => do
    let (items, forest) ← compiler.iteratedForest scope inner tag children
    wrapElement inner (eachTag items.length) forest

/-- What siblings compile to, up to a halt. -/
def siblings (levels : Nat) (nodes : List Node) : Except CompileError String :=
  String.join <$> (collect (compiler.compileWithin scope levels) nodes).outcome

/-- The alternative of a forest has no nodes, or is the content of one of the nodes. -/
theorem alternativeOf_cases (forest : List Node) :
    alternativeOf forest = [] ∨ ∃ tag, .element tag (alternativeOf forest) ∈ forest := by
  have hcases (found : Option (Tag × List Node)) : found.elim [] Prod.snd = [] ∨
      ∃ element, found = some element ∧ found.elim [] Prod.snd = element.2 := by
    cases found with
    | none => exact .inl rfl
    | some element => exact .inr ⟨element, rfl, rfl⟩
  unfold alternativeOf
  refine (hcases _).imp_right ?_
  rintro ⟨element, hfound, hchildren⟩
  obtain ⟨node, hnode, helement⟩ := List.mem_filterMap.mp (List.mem_of_find?_eq_some hfound)
  rw [hchildren]
  cases node with
  | text content => simp [Node.element?] at helement
  | comment body => simp [Node.element?] at helement
  | element tag children =>
    obtain rfl := Option.some.inj helement
    exact ⟨tag, hnode⟩

/-- The items of an `each` are those of an array; null has none. -/
theorem outcome_eachItems {tag : Tag} {items : List Value}
    (hof : compiler.evaluate (tag.attributeOrEmpty "of") scope = .ok (.array items) ∨
      compiler.evaluate (tag.attributeOrEmpty "of") scope = .ok .null ∧ items = []) :
    (compiler.eachItems scope tag).outcome = .ok items := by
  rw [eachItems, Reported.outcome_bind, evaluateAttribute, Reported.outcome_ofExcept]
  rcases hof with hof | ⟨hof, rfl⟩
  · rw [hof]
    rfl
  · rw [hof]
    rfl

end Compiler

/-! ## Wrappers -/

/-- A text around which a `div` is put is written as that element. -/
theorem wrap_outerMarkup (token : String) (children : List Node) :
    wrap token (outerMarkup children) = outerMarkup [.element (.withClass "div" token) children] := by
  have hvoid : isVoid "div" = false := by decide
  simp [wrap, outerMarkup, Markup.outers, Node.outer, Tag.withClass, Tag.closing, hvoid,
    String.join]

/-- A compiled `style` element is written as that element. -/
theorem style_outerMarkup (children : List Node) :
    "<style>" ++ Stylesheet.banner ++ " " ++
        Text.trim (Stylesheet.resolveSelectors (Markup.textContent children)) ++ "</style>" =
      outerMarkup [.element ⟨"style", []⟩ [.text (styleText children)]] := by
  have hvoid : isVoid "style" = false := by decide
  simp [outerMarkup, Markup.outers, Node.outer, Tag.opening, Tag.closing, Tag.attributesText,
    styleText, hvoid, String.join, String.append_assoc]

/-- The names of the elements that stand in for directives are not those of renamed tags. -/
theorem outputTag_eq {tag : Tag} (h : outputTag? (Text.toLower tag.name) = none) :
    outputTag tag = tag := by
  simp [outputTag, h]

/-! ## Siblings in a row -/

section Siblings

variable (compile : Node → Reported Fragment)

/-- The outcome of siblings that are compiled and joined is that of joining what they give. -/
theorem outcome_join_collect (nodes : List Node) :
    (do return String.join (← collect compile nodes) : Reported String).outcome =
      String.join <$> (collect compile nodes).outcome := by
  rw [Reported.outcome_bind]
  cases (collect compile nodes).outcome <;> rfl

/-- Of siblings in a row one that halts is the last. -/
theorem join_collect_cons (node : Node) (rest : List Node) :
    String.join <$> (collect compile (node :: rest)).outcome =
      (compile node).outcome >>= fun
        | .halt => .ok ""
        | .markup text => (text ++ ·) <$> (String.join <$> (collect compile rest).outcome) := by
  rw [collect, Reported.outcome_bind]
  cases (compile node).outcome with
  | error error => rfl
  | ok fragment =>
    cases fragment with
    | halt => rfl
    | markup text =>
      change String.join <$> (_ >>= _ : Reported _).outcome = _
      rw [Reported.outcome_bind]
      cases (collect compile rest).outcome with
      | error error => rfl
      | ok texts => exact congrArg Except.ok String.join_cons

/-- What siblings give together depends on their outcomes alone. -/
theorem join_collect_congr {compile' : Node → Reported Fragment}
    (h : ∀ node, (compile node).outcome = (compile' node).outcome) (nodes : List Node) :
    String.join <$> (collect compile nodes).outcome =
      String.join <$> (collect compile' nodes).outcome := by
  induction nodes with
  | nil => rfl
  | cons node rest ih => rw [join_collect_cons, join_collect_cons, h node, ih]

end Siblings

namespace Compiler

variable (compiler : Compiler) (scope : Scope) (inner : List Node → Reported String)

/-- A plain element is put around its children under its output tag. -/
theorem outcome_plainElement (tag : Tag) (children : List Node) :
    (plainElement inner tag children).outcome =
      wrapElement (fun nodes => (inner nodes).outcome) (outputTag tag) children := by
  unfold plainElement wrapElement
  cases h : isVoid (outputTag tag).name with
  | true => simp_all [outputTag]
  | false =>
    simp only [outputTag] at h ⊢
    simp only [h, Bool.false_eq_true, ↓reduceIte, Reported.outcome_bind]
    cases (inner children).outcome <;> rfl

/-- An element that stands in for a directive keeps its tag. -/
theorem outcome_plainElement_withClass {name : String}
    (h : outputTag? (Text.toLower name) = none) (token : String) (children : List Node) :
    (plainElement inner (.withClass name token) children).outcome =
      wrapElement (fun nodes => (inner nodes).outcome) (.withClass name token) children := by
  have htag : outputTag (.withClass name token) = .withClass name token := outputTag_eq h
  rw [outcome_plainElement, htag]

/-- The outcome of the branches of an `if`, once its condition is known. -/
theorem outcome_branches (holds : Bool) (children : List Node) :
    (do
      let consequent ← inner children
      if holds then return Fragment.markup (wrap "fy-if" consequent)
      plainElement inner (.withClass "div" "fy-else") (alternativeOf children)).outcome =
    (do
      let consequent ← (inner children).outcome
      if holds then return Fragment.markup (wrap "fy-if" consequent)
      wrapElement (fun nodes => (inner nodes).outcome) (.withClass "div" "fy-else")
        (alternativeOf children)) := by
  have helse := @outcome_plainElement_withClass inner "div" (by decide) "fy-else"
    (alternativeOf children)
  rw [Reported.outcome_bind]
  cases holds with
  | true => rfl
  | false => simp only [Bool.false_eq_true, ↓reduceIte, helse]

/-- The condition of an `if` holds when its source has a value that counts as true. -/
theorem condition_eq (tag : Tag) :
    compiler.condition scope tag =
      match sourceOf? tag "c" with
      | none => .ok false
      | some source =>
        (compiler.evaluate source scope).mapError (.expression .conditional "c") >>= fun value =>
          .ok value.truthy := by
  unfold condition
  cases htext : tag.attribute? "c" with
  | none => rw [sourceOf?_of_missing htext]
  | some text =>
    rw [sourceOf?_of_attribute htext]
    cases hblank : (Text.trim text).isEmpty with
    | true => simp only [hblank, ↓reduceIte]
    | false =>
      simp only [hblank, Bool.false_eq_true, ↓reduceIte]
      cases compiler.evaluate (Text.trim text) scope <;> rfl

/-- The outcome of an `if`. -/
theorem outcome_conditionalElement (tag : Tag) (children : List Node) :
    (compiler.conditionalElement scope inner tag children).outcome =
      compiler.carryOut scope (fun nodes => (inner nodes).outcome) tag children .chosen := by
  unfold conditionalElement carryOut
  rw [condition_eq]
  cases sourceOf? tag "c" with
  | none => exact outcome_branches inner false children
  | some source =>
    dsimp only
    rw [Reported.outcome_bind, Reported.outcome_map, evaluateAttribute, Reported.outcome_ofExcept]
    cases compiler.evaluate source scope with
    | error cause => rfl
    | ok value => exact outcome_branches inner value.truthy children

/-- The outcome of an `inter`. -/
theorem outcome_interpolationElement (tag : Tag) (children : List Node) :
    (compiler.interpolationElement scope inner tag children).outcome =
      compiler.carryOut scope (fun nodes => (inner nodes).outcome) tag children .interpolated := by
  unfold interpolationElement carryOut interpolatedForest
  simp only [Reported.outcome_bind, Reported.outcome_ofExcept, bind_assoc,
    @outcome_plainElement_withClass inner "div" (by decide)]

/-- The outcome of an `each`. -/
theorem outcome_eachElement (tag : Tag) (children : List Node) :
    (compiler.eachElement scope inner tag children).outcome =
      compiler.carryOut scope (fun nodes => (inner nodes).outcome) tag children .iterated := by
  have htag (count : Nat) : outputTag (eachTag count) = eachTag count :=
    outputTag_eq (by decide : outputTag? (Text.toLower "div") = none)
  simp only [eachTag] at htag
  unfold eachElement carryOut iteratedForest
  simp only [Reported.outcome_bind, Reported.outcome_ofExcept, bind_assoc, outcome_plainElement,
    pure_bind, htag, eachTag]

/-- The outcome of an element is that of its treatment. -/
theorem outcome_compileElement (tag : Tag) (children : List Node) :
    (compiler.compileElement scope inner tag children).outcome =
      compiler.carryOut scope (fun nodes => (inner nodes).outcome) tag children
        (treatment tag children) := by
  have hdiv : outputTag? (Text.toLower "div") = none := by decide
  have hspan : outputTag? (Text.toLower "span") = none := by decide
  unfold compileElement treatment
  cases Directive.ofTag? (Text.toLower tag.name) with
  | none => exact outcome_plainElement inner tag children
  | some directive =>
    cases directive with
    | halt => rfl
    | alternative => rfl
    | escape => simp [carryOut, wrap_outerMarkup]
    | style => simp [carryOut, style_outerMarkup]
    | first => exact outcome_plainElement_withClass inner hdiv "fy-first" children
    | tooltip =>
      exact outcome_plainElement_withClass inner hspan "fy-tooltip" (tooltipLabel tag :: children)
    | last => exact congrArg (Except.ok ∘ Fragment.markup) (wrap_outerMarkup "fy-last" [])
    | await => exact congrArg (Except.ok ∘ Fragment.markup) (wrap_outerMarkup "fy-await" [])
    | group =>
      by_cases h : tag.hasClass "group"
      · simp [carryOut, h, wrap_outerMarkup]
      · simpa [carryOut, h] using outcome_plainElement inner tag children
    | conditional => exact compiler.outcome_conditionalElement scope inner tag children
    | interpolation => exact compiler.outcome_interpolationElement scope inner tag children
    | each =>
      by_cases h : tag.hasAttribute "of"
      · simpa [h] using compiler.outcome_eachElement scope inner tag children
      · simpa [carryOut, h] using outcome_plainElement inner tag children

omit inner

/-- The texts of iterations depend on the evaluator alone. -/
theorem iterations_congr {compiler compiler' : Compiler}
    (h : compiler'.evaluate = compiler.evaluate) (scope : Scope) (tag : Tag) (body : String)
    (index : Nat) (items : List Value) :
    compiler'.iterations scope tag body index items =
      compiler.iterations scope tag body index items := by
  induction items generalizing index with
  | nil => rfl
  | cons item rest ih =>
    rw [iterations, iterations, ih (index + 1), interpolateFor, interpolateFor, h]

/-! ## Nodes and siblings -/

section Nodes

variable (levels : Nat)

/-- Without a level left, a node is nested too deep. -/
@[simp] theorem outcome_compileWithin_zero (node : Node) :
    (compiler.compileWithin scope 0 node).outcome =
      .error (.nestingTooDeep compiler.maxDepth) := rfl

/-- A text compiles to itself. -/
@[simp] theorem outcome_compileWithin_text (content : String) :
    (compiler.compileWithin scope (levels + 1) (.text content)).outcome =
      .ok (.markup content) := rfl

/-- A comment compiles to nothing. -/
@[simp] theorem outcome_compileWithin_comment (body : String) :
    (compiler.compileWithin scope (levels + 1) (.comment body)).outcome = .ok (.markup "") := rfl

/-- An element compiles by its treatment, its children one level deeper. -/
theorem outcome_compileWithin_element (tag : Tag) (children : List Node) :
    (compiler.compileWithin scope (levels + 1) (.element tag children)).outcome =
      compiler.carryOut scope (compiler.siblings scope levels) tag children
        (treatment tag children) := by
  have hsiblings : (fun nodes => (do
      return String.join (← collect (compiler.compileWithin scope levels) nodes)
        : Reported String).outcome) = compiler.siblings scope levels :=
    funext fun nodes => outcome_join_collect _ nodes
  rw [compileWithin, outcome_compileElement, hsiblings]

/-- No siblings compile to nothing. -/
@[simp] theorem siblings_nil : compiler.siblings scope levels [] = .ok "" := rfl

/-- A sibling that halts is the last to be compiled. -/
theorem siblings_cons (node : Node) (rest : List Node) :
    compiler.siblings scope levels (node :: rest) =
      (compiler.compileWithin scope levels node).outcome >>= fun
        | .halt => .ok ""
        | .markup text => (text ++ ·) <$> compiler.siblings scope levels rest :=
  join_collect_cons _ node rest

/-- Without a level left, no siblings but none compile. -/
theorem siblings_zero (node : Node) (rest : List Node) :
    compiler.siblings scope 0 (node :: rest) = .error (.nestingTooDeep compiler.maxDepth) := by
  rw [siblings_cons, outcome_compileWithin_zero]
  rfl

end Nodes

end Compiler

end DirectiveMarkup
