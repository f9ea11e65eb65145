import DirectiveMarkup.Proofs.Desugar
import DirectiveMarkup.Proofs.PartialFailure
import DirectiveMarkup.Proofs.Renaming

/-!
# What stands behind a halt

A halt ends the collection of its siblings, so what stands behind it is never compiled, whatever it
is: it may fail, be nested too deep, or halt once more. The report of a document does not depend on
it. This holds at the top level and inside of every element whose children are compiled where they
stand, also under an `each`, which interpolates and reads again what its children compile to.

An `if` takes its alternative from among its own children, wherever an `else` stands. So behind a
halt directly in an `if` there must be no `else`. Excluded are the elements that put out their
children as text (`escape`, a `group` of class `group`, `style`, `inter`) and those that put out
nothing of them (`last`, `await`).

The notices are not compared: the source of a node that was skipped is told with all that is in it.
-/

namespace DirectiveMarkup

open Expression (Scope)
open Markup (Node Tag isVoid)

/-- True of an `else` element, in any ASCII case. -/
def isElse : Node → Bool
  | .element tag _ => Text.sameIgnoringCase tag.name "else"
  | _ => false

/-- True of the tag of an element that is put around what its children compile to, or that repeats
it: no directive, `first`, `tooltip`, `each`, or a `group` without that class. -/
def keepsChildren (tag : Tag) : Bool :=
  match Directive.ofTag? (Text.toLower tag.name) with
  | none | some .first | some .tooltip | some .each => true
  | some .group => !tag.hasClass "group"
  | _ => false

/-- Two forests differ at most in what stands behind one halt, and the way to that halt leads
through children that are compiled where they stand. The forests may be the direct children of an
`if`; then there is no `else` behind the halt, and the way may lead into the chosen `else`. -/
inductive SameToHalt : (branching : Bool) → List Node → List Node → Prop where
  | same {branching : Bool} (nodes : List Node) : SameToHalt branching nodes nodes
  | behind {branching : Bool} (before : List Node) {halt : Node} {after after' : List Node} :
      isHalt halt → (branching → ∀ other ∈ after ++ after', isElse other = false) →
      SameToHalt branching (before ++ halt :: after) (before ++ halt :: after')
  | inside {branching : Bool} (before : List Node) {tag : Tag} {children children' : List Node}
      (after : List Node) :
      keepsChildren tag → SameToHalt false children children' →
      SameToHalt branching (before ++ .element tag children :: after)
        (before ++ .element tag children' :: after)
  | conditional {branching : Bool} (before : List Node) {tag : Tag}
      {children children' : List Node} (after : List Node) :
      Directive.ofTag? (Text.toLower tag.name) = some .conditional →
      SameToHalt true children children' →
      SameToHalt branching (before ++ .element tag children :: after)
        (before ++ .element tag children' :: after)
  | alternative (before : List Node) {tag : Tag} {children children' : List Node}
      (after : List Node) :
      (∀ other ∈ before, isElse other = false) → Text.sameIgnoringCase tag.name "else" →
      SameToHalt false children children' →
      SameToHalt true (before ++ .element tag children :: after)
        (before ++ .element tag children' :: after)

/-- Two readings fail in the same way, or give forests that differ at most behind one halt. -/
inductive SameReading : (read read' : Except CompileError (List Node)) → Prop where
  | failed (error : CompileError) : SameReading (.error error) (.error error)
  | read {nodes nodes' : List Node} :
      SameToHalt false nodes nodes' → SameReading (.ok nodes) (.ok nodes')

/-! ## Alternatives -/

/-- An `else` in any ASCII case is one in lower case. -/
theorem ofTag?_of_else {tag : Tag} (h : Text.sameIgnoringCase tag.name "else") :
    Directive.ofTag? (Text.toLower tag.name) = some .alternative := by
  have hname : Markup.asciiLower tag.name = "else" := by
    rw [Markup.asciiLower, beq_iff_eq.mp h]
    rfl
  rw [Text.toLower_of_asciiLower hname (by simp)]
  rfl

/-- An element that stands for another directive, or for none, is no `else`. -/
theorem isElse_of_ofTag? {tag : Tag} {children : List Node}
    (h : Directive.ofTag? (Text.toLower tag.name) ≠ some .alternative) :
    isElse (.element tag children) = false := by
  rw [← Bool.not_eq_true]
  exact fun helse => h (ofTag?_of_else helse)

/-- An element that keeps its children is no `else`. -/
theorem isElse_of_keepsChildren {tag : Tag} {children : List Node} (h : keepsChildren tag) :
    isElse (.element tag children) = false := by
  refine isElse_of_ofTag? fun htag => ?_
  rw [keepsChildren, htag] at h
  exact Bool.false_ne_true h

/-- A halt is no `else`. -/
theorem isElse_of_isHalt {node : Node} (h : isHalt node) : isElse node = false := by
  cases node with
  | text content => rfl
  | comment body => rfl
  | element tag children =>
    rw [isHalt, beq_iff_eq, ← ofTag?_eq_halt_iff] at h
    exact isElse_of_ofTag? (by simp [h])

namespace Compiler

/-- A node that is no `else` is not chosen. -/
theorem alternativeOf_cons_of_not_else {node : Node} (h : isElse node = false)
    (rest : List Node) : alternativeOf (node :: rest) = alternativeOf rest := by
  cases node with
  | text content => rfl
  | comment body => rfl
  | element tag children =>
    rw [isElse] at h
    rw [alternativeOf_element, h]
    rfl

/-- Without an `else` the alternative is what the nodes behind have. -/
theorem alternativeOf_append_of_not_else {before : List Node}
    (h : ∀ other ∈ before, isElse other = false) (rest : List Node) :
    alternativeOf (before ++ rest) = alternativeOf rest := by
  induction before with
  | nil => rfl
  | cons node before ih =>
    rw [List.forall_mem_cons] at h
    rw [List.cons_append, alternativeOf_cons_of_not_else h.1, ih h.2]

/-- The alternative depends on what stands behind some nodes by its alternative only. -/
theorem alternativeOf_append_congr (before : List Node) {rest rest' : List Node}
    (h : alternativeOf rest = alternativeOf rest') :
    alternativeOf (before ++ rest) = alternativeOf (before ++ rest') := by
  induction before with
  | nil => exact h
  | cons node before ih =>
    cases hnode : isElse node with
    | false =>
      rw [List.cons_append, List.cons_append, alternativeOf_cons_of_not_else hnode,
        alternativeOf_cons_of_not_else hnode, ih]
    | true =>
      cases node with
      | text content => exact nomatch hnode
      | comment body => exact nomatch hnode
      | element tag children =>
        have helse : Text.sameIgnoringCase tag.name "else" := hnode
        rw [List.cons_append, List.cons_append, alternativeOf_element, alternativeOf_element,
          if_pos helse, if_pos helse]

/-- A node that is no `else` can be replaced by another without changing the alternative. -/
theorem alternativeOf_replace {node node' : Node} (h : isElse node = false)
    (h' : isElse node' = false) (before after : List Node) :
    alternativeOf (before ++ node :: after) = alternativeOf (before ++ node' :: after) := by
  apply alternativeOf_append_congr
  rw [alternativeOf_cons_of_not_else h, alternativeOf_cons_of_not_else h']

/-- The alternatives of an `if` differ at most behind the halt. -/
theorem sameToHalt_alternativeOf {nodes nodes' : List Node} (h : SameToHalt true nodes nodes') :
    SameToHalt false (alternativeOf nodes) (alternativeOf nodes') := by
  cases h with
  | same nodes => exact .same _
  | @behind _ before halt after after' hhalt hafter =>
    have hnone {rest : List Node} (hrest : ∀ other ∈ rest, isElse other = false) :
        alternativeOf (halt :: rest) = [] := by
      rw [alternativeOf_cons_of_not_else (isElse_of_isHalt hhalt), ← List.append_nil rest,
        alternativeOf_append_of_not_else hrest]
      rfl
    obtain ⟨hafter, hafter'⟩ := List.forall_mem_append.mp (hafter rfl)
    rw [alternativeOf_append_congr before ((hnone hafter).trans (hnone hafter').symm)]
    exact .same _
  | inside before after htag _ =>
    rw [alternativeOf_replace (isElse_of_keepsChildren htag) (isElse_of_keepsChildren htag)]
    exact .same _
  | @conditional _ before tag _ _ after htag _ =>
    have hother : Directive.ofTag? (Text.toLower tag.name) ≠ some .alternative := by
      simp [htag]
    rw [alternativeOf_replace (isElse_of_ofTag? hother) (isElse_of_ofTag? hother)]
    exact .same _
  | alternative before after hbefore helse hchildren =>
    rw [alternativeOf_append_of_not_else hbefore, alternativeOf_append_of_not_else hbefore,
      alternativeOf_element, alternativeOf_element, if_pos helse, if_pos helse]
    exact hchildren

end Compiler

/-- Forests that differ at most behind a halt are both empty or both not. -/
theorem SameToHalt.eq_nil_iff {branching : Bool} {nodes nodes' : List Node}
    (h : SameToHalt branching nodes nodes') : nodes = [] ↔ nodes' = [] := by
  cases h <;> simp

/-- Nodes in front of both forests are in front of the difference. -/
theorem SameToHalt.append {nodes nodes' : List Node} (h : SameToHalt false nodes nodes')
    (front : List Node) : SameToHalt false (front ++ nodes) (front ++ nodes') := by
  cases h with
  | same nodes => exact .same _
  | behind before hhalt hafter =>
    rw [← List.append_assoc, ← List.append_assoc]
    exact .behind _ hhalt hafter
  | inside before after htag hchildren =>
    rw [← List.append_assoc, ← List.append_assoc]
    exact .inside _ _ htag hchildren
  | conditional before after htag hchildren =>
    rw [← List.append_assoc, ← List.append_assoc]
    exact .conditional _ _ htag hchildren

/-! ## What is seen of siblings -/

/-- Node by node two forests have the same outcomes, each under its own compilation; a halt of both
ends the comparison. -/
inductive SameOutcomes (compile compile' : Node → Reported Fragment) :
    List Node → List Node → Prop where
  | nil : SameOutcomes compile compile' [] []
  | halt {node node' : Node} {rest rest' : List Node} :
      (compile node).outcome = .ok .halt → (compile' node').outcome = .ok .halt →
      SameOutcomes compile compile' (node :: rest) (node' :: rest')
  | cons {node node' : Node} {rest rest' : List Node} :
      (compile node).outcome = (compile' node').outcome →
      SameOutcomes compile compile' rest rest' →
      SameOutcomes compile compile' (node :: rest) (node' :: rest')

namespace SameOutcomes

variable {compile compile' : Node → Reported Fragment}

section Places

variable (hsame : ∀ node, (compile node).outcome = (compile' node).outcome)
include hsame

/-- The same nodes may stand in front. -/
theorem append (before : List Node) {nodes nodes' : List Node}
    (h : SameOutcomes compile compile' nodes nodes') :
    SameOutcomes compile compile' (before ++ nodes) (before ++ nodes') := by
  induction before with
  | nil => exact h
  | cons node before ih => exact .cons (hsame node) ih

/-- A forest has its own outcomes. -/
theorem refl (nodes : List Node) : SameOutcomes compile compile' nodes nodes := by
  simpa using append hsame nodes .nil

/-- One node may stand in the place of another with the same outcome. -/
theorem replace {node node' : Node} (hnode : (compile node).outcome = (compile' node').outcome)
    (before after : List Node) :
    SameOutcomes compile compile' (before ++ node :: after) (before ++ node' :: after) :=
  append hsame before (.cons hnode (refl hsame after))

end Places

/-- A pass over top-level nodes is told by their outcomes. -/
theorem compileTop_eq {nodes nodes' : List Node} (h : SameOutcomes compile compile' nodes nodes')
    (index : Nat) :
    let pass := compileTop compile index nodes
    let pass' := compileTop compile' index nodes'
    pass'.pieces = pass.pieces ∧ pass'.failures = pass.failures ∧ pass'.halted = pass.halted := by
  induction h generalizing index with
  | nil => exact ⟨rfl, rfl, rfl⟩
  | halt hnode hnode' =>
    rw [compileTop, compileTop, hnode, hnode']
    exact ⟨rfl, rfl, rfl⟩
  | @cons node _ _ _ hnode _ ih =>
    obtain ⟨hpieces, hfailures, hhalted⟩ := ih (index + 1)
    rw [compileTop, compileTop, ← hnode]
    cases (compile node).outcome with
    | error error => exact ⟨hpieces, congrArg (⟨index, error⟩ :: ·) hfailures, hhalted⟩
    | ok fragment =>
      cases fragment with
      | halt => exact ⟨rfl, rfl, rfl⟩
      | markup text => exact ⟨congrArg (text :: ·) hpieces, hfailures, hhalted⟩

/-- What siblings compile to is told by their outcomes. -/
theorem siblings_eq {compiler other : Compiler} {scope : Scope} {levels : Nat}
    {nodes nodes' : List Node}
    (h : SameOutcomes (compiler.compileWithin scope levels) (other.compileWithin scope levels)
      nodes nodes') :
    compiler.siblings scope levels nodes = other.siblings scope levels nodes' := by
  induction h with
  | nil => rfl
  | halt hnode hnode' =>
    rw [Compiler.siblings_cons, Compiler.siblings_cons, hnode, hnode']
    rfl
  | cons hnode _ ih => rw [Compiler.siblings_cons, Compiler.siblings_cons, hnode, ih]

end SameOutcomes

namespace Compiler

variable (compiler : Compiler) (scope : Scope)

/-- The compiler with that parser in place of its own. -/
def withParser (parse' : String → Except CompileError (List Node)) : Compiler :=
  { compiler with parse := parse' }

section TwoRuns

variable {compiler scope} {parse' : String → Except CompileError (List Node)}
  {inner inner' : List Node → Except CompileError String}

/-- A wrapper around forests that compile alike is the same. -/
theorem wrapElement_congr {nodes nodes' : List Node} (h : inner nodes = inner' nodes')
    (output : Tag) : wrapElement inner output nodes = wrapElement inner' output nodes' := by
  rw [wrapElement, wrapElement, h]

/-- An `if` is the same if its children and its alternative compile alike. -/
theorem carryOut_chosen_congr {children children' : List Node}
    (hchildren : inner children = inner' children')
    (halternative : inner (alternativeOf children) = inner' (alternativeOf children')) (tag : Tag) :
    compiler.carryOut scope inner tag children .chosen =
      (compiler.withParser parse').carryOut scope inner' tag children' .chosen := by
  have hcondition :
      (compiler.withParser parse').condition scope tag = compiler.condition scope tag := rfl
  rw [carryOut, carryOut, hcondition, hchildren, wrapElement_congr halternative]

/-- The forest that is read gives the same element in both runs. -/
theorem wrapElement_reading (hparse : ∀ text, SameReading (compiler.parse text) (parse' text))
    (hinner : ∀ nodes nodes', SameToHalt false nodes nodes' → inner nodes = inner' nodes')
    (output : Tag) (text : String) :
    (compiler.parse text >>= wrapElement inner output) =
      parse' text >>= wrapElement inner' output := by
  have hread := hparse text
  generalize compiler.parse text = read at hread ⊢
  generalize parse' text = read' at hread ⊢
  cases hread with
  | failed error => rfl
  | read hforest => exact wrapElement_congr (hinner _ _ hforest) output

/-- An `inter` reads the same forest in both runs, up to what stands behind a halt. -/
theorem carryOut_interpolated_congr
    (hparse : ∀ text, SameReading (compiler.parse text) (parse' text))
    (hinner : ∀ nodes nodes', SameToHalt false nodes nodes' → inner nodes = inner' nodes')
    (tag : Tag) (children : List Node) :
    compiler.carryOut scope inner tag children .interpolated =
      (compiler.withParser parse').carryOut scope inner' tag children .interpolated := by
  unfold carryOut interpolatedForest
  simp only [bind_assoc]
  exact bind_congr fun bindings => bind_congr fun text => wrapElement_reading hparse hinner _ text

/-- An `each` is the same if its children compile alike. -/
theorem carryOut_iterated_congr
    (hparse : ∀ text, SameReading (compiler.parse text) (parse' text))
    (hinner : ∀ nodes nodes', SameToHalt false nodes nodes' → inner nodes = inner' nodes')
    {children children' : List Node} (hchildren : inner children = inner' children') (tag : Tag) :
    compiler.carryOut scope inner tag children .iterated =
      (compiler.withParser parse').carryOut scope inner' tag children' .iterated := by
  have htexts (body : String) (items : List Expression.Value) :
      (compiler.withParser parse').iterations scope tag body 0 items =
        compiler.iterations scope tag body 0 items := iterations_congr (by rfl) _ _ _ _ _
  unfold carryOut iteratedForest
  simp only [bind_assoc, pure_bind, hchildren, htexts]
  exact bind_congr fun items => bind_congr fun body => bind_congr fun texts =>
    wrapElement_reading hparse hinner _ _

/-- The treatments of an element that keeps its children are those of its tag. -/
theorem treatment_of_keepsChildren {tag : Tag} (h : keepsChildren tag) :
    (∃ output leading, ∀ children, treatment tag children = .wrapped output leading) ∨
      ∀ children, treatment tag children = .iterated := by
  unfold keepsChildren at h
  unfold treatment
  cases hdirective : Directive.ofTag? (Text.toLower tag.name) with
  | none => exact .inl ⟨_, _, fun _ => rfl⟩
  | some directive =>
    rw [hdirective] at h
    cases directive with
    | first => exact .inl ⟨_, _, fun _ => rfl⟩
    | tooltip => exact .inl ⟨_, _, fun _ => rfl⟩
    | group =>
      have hclass : tag.hasClass "group" = false := by simpa using h
      exact .inl ⟨outputTag tag, [], fun _ => by simp [hclass]⟩
    | each =>
      by_cases hof : tag.hasAttribute "of"
      · exact .inr fun _ => by simp [hof]
      · exact .inl ⟨outputTag tag, [], fun _ => by simp [hof]⟩
    | _ => exact nomatch h

section Levels

variable {levels : Nat} (hparse : ∀ text, SameReading (compiler.parse text) (parse' text))
  (hinner : ∀ branching nodes nodes', SameToHalt branching nodes nodes' →
    compiler.siblings scope levels nodes =
      (compiler.withParser parse').siblings scope levels nodes')
include hparse hinner

/-- A node is the same in both runs if the siblings inside are. -/
theorem outcome_compileWithin_same (node : Node) :
    (compiler.compileWithin scope (levels + 1) node).outcome =
      ((compiler.withParser parse').compileWithin scope (levels + 1) node).outcome := by
  have hsame (nodes : List Node) := hinner false nodes nodes (.same nodes)
  cases node with
  | text content => rfl
  | comment body => rfl
  | element tag children =>
    rw [outcome_compileWithin_element, outcome_compileWithin_element]
    cases treatment tag children with
    | cut => rfl
    | replaced output => rfl
    | wrapped output leading => exact wrapElement_congr (hsame _) output
    | chosen => exact carryOut_chosen_congr (hsame _) (hsame _) tag
    | interpolated => exact carryOut_interpolated_congr hparse (hinner false) tag children
    | iterated => exact carryOut_iterated_congr hparse (hinner false) (hsame _) tag

/-- An element that keeps its children is the same if they differ at most behind a halt. -/
theorem outcome_compileWithin_inside {tag : Tag} {children children' : List Node}
    (htag : keepsChildren tag) (hchildren : SameToHalt false children children') :
    (compiler.compileWithin scope (levels + 1) (.element tag children)).outcome =
      ((compiler.withParser parse').compileWithin scope (levels + 1)
        (.element tag children')).outcome := by
  rw [outcome_compileWithin_element, outcome_compileWithin_element]
  rcases treatment_of_keepsChildren htag with ⟨output, leading, htreatment⟩ | htreatment
  · rw [htreatment, htreatment]
    exact wrapElement_congr (hinner false _ _ (hchildren.append leading)) output
  · rw [htreatment, htreatment]
    exact carryOut_iterated_congr hparse (hinner false) (hinner false _ _ hchildren) tag

omit hparse in
/-- An `if` is the same if its children differ at most behind a halt. -/
theorem outcome_compileWithin_conditional {tag : Tag} {children children' : List Node}
    (htag : Directive.ofTag? (Text.toLower tag.name) = some .conditional)
    (hchildren : SameToHalt true children children') :
    (compiler.compileWithin scope (levels + 1) (.element tag children)).outcome =
      ((compiler.withParser parse').compileWithin scope (levels + 1)
        (.element tag children')).outcome := by
  rw [outcome_compileWithin_element, outcome_compileWithin_element, treatment_of_conditional htag,
    treatment_of_conditional htag]
  exact carryOut_chosen_congr (hinner true _ _ hchildren)
    (hinner false _ _ (sameToHalt_alternativeOf hchildren)) tag

/-- Forests that differ at most behind a halt have the same outcomes up to it. -/
theorem sameOutcomes_of_sameToHalt {branching : Bool} {nodes nodes' : List Node}
    (h : SameToHalt branching nodes nodes') :
    SameOutcomes (compiler.compileWithin scope (levels + 1))
      ((compiler.withParser parse').compileWithin scope (levels + 1)) nodes nodes' := by
  have hsame := outcome_compileWithin_same hparse hinner
  cases h with
  | same nodes => exact .refl hsame nodes
  | behind before hhalt _ =>
    have hhalts (other : Compiler) := (other.outcome_eq_halt_iff scope (levels + 1) _).mpr
      ⟨Nat.succ_pos levels, hhalt⟩
    exact .append hsame before (.halt (hhalts compiler) (hhalts (compiler.withParser parse')))
  | inside before after htag hchildren =>
    have hnode := outcome_compileWithin_inside hparse hinner htag hchildren
    exact .replace hsame hnode before after
  | conditional before after htag hchildren =>
    have hnode := outcome_compileWithin_conditional hinner htag hchildren
    exact .replace hsame hnode before after
  | @alternative before tag children children' after _ helse _ =>
    -- Among the children of its `if` an `else` gives nothing; it is compiled as the alternative.
    have hdropped (other : Compiler) (nodes : List Node) :
        (other.compileWithin scope (levels + 1) (.element tag nodes)).outcome =
          .ok (.markup "") := by
      rw [outcome_compileWithin_element, treatment, ofTag?_of_else helse]
      rfl
    have hnode := (hdropped compiler children).trans
      (hdropped (compiler.withParser parse') children').symm
    exact .replace hsame hnode before after

end Levels

/-- Forests that differ at most behind a halt compile alike, on any level and with parsers whose
forests do so, too. -/
theorem siblings_eq_of_sameToHalt
    (hparse : ∀ text, SameReading (compiler.parse text) (parse' text)) (levels : Nat)
    (branching : Bool) (nodes nodes' : List Node) (h : SameToHalt branching nodes nodes') :
    compiler.siblings scope levels nodes =
      (compiler.withParser parse').siblings scope levels nodes' := by
  -- A forest that is read again is no part of its element, so the induction is on the levels.
  induction levels generalizing branching nodes nodes' with
  | zero =>
    cases nodes with
    | nil =>
      obtain rfl := h.eq_nil_iff.mp rfl
      rfl
    | cons node rest =>
      cases nodes' with
      | nil => exact absurd (h.eq_nil_iff.mpr rfl) (List.cons_ne_nil node rest)
      | cons node' rest' => rw [siblings_zero, siblings_zero]; rfl
  | succ levels ih =>
    exact (sameOutcomes_of_sameToHalt hparse ih h).siblings_eq

end TwoRuns

/-- Nothing behind a halt is observable. Two documents that are read as forests which differ at most
behind one halt have the same html, the same failures and the same answer whether they halted, also
when the forests that are read on the way differ in this way. -/
theorem compile_eq_of_sameToHalt {parse' : String → Except CompileError (List Node)}
    (hparse : ∀ text, SameReading (compiler.parse text) (parse' text)) {markup markup' : String}
    (hdocument : SameReading (compiler.parse (Text.trim markup)) (parse' (Text.trim markup')))
    (branding : Bool) :
    let report := compiler.compile scope branding markup
    let report' := (compiler.withParser parse').compile scope branding markup'
    report'.html = report.html ∧ report'.failures = report.failures ∧
      report'.halted = report.halted := by
  have hparse' : (compiler.withParser parse').parse = parse' := rfl
  unfold compile
  rw [hparse']
  generalize compiler.parse (Text.trim markup) = read at hdocument
  generalize parse' (Text.trim markup') = read' at hdocument
  cases hdocument with
  | failed error => exact ⟨rfl, rfl, rfl⟩
  | read hnodes =>
    have hinner := @siblings_eq_of_sameToHalt compiler scope parse' hparse compiler.maxDepth
    have houtcomes := sameOutcomes_of_sameToHalt hparse hinner hnodes
    obtain ⟨hpieces, hfailures, hhalted⟩ := houtcomes.compileTop_eq 0
    exact ⟨congrArg (fun pieces => brand branding (Text.trim (String.join pieces))) hpieces,
      hfailures, hhalted⟩

/-- Whatever a halt in the chosen `else` has behind it, the document is the same, with a parser that
answers every question with that document. -/
theorem compile_eq_of_sameToHalt_else :
    let paragraph : Node := .element ⟨"p", []⟩ []
    let broken : Node := .element ⟨"if", [⟨"c", "("⟩]⟩ [.text "b"]
    let alternative (behind : List Node) : Node :=
      .element ⟨"Else", []⟩ (.text "a" :: .element ⟨"halt", []⟩ [] :: behind)
    let choice (behind : List Node) : List Node :=
      [.element ⟨"if", [⟨"c", "false"⟩]⟩ [paragraph, alternative behind]]
    let compiler : Compiler := ⟨fun _ => .ok (choice []), Expression.evaluateSource, 2⟩
    let other := compiler.withParser fun _ => .ok (choice [broken])
    (compiler.compile .empty false "").html = "<div class=\"fy-else\">a</div>" ∧
      (other.compile .empty false "").html = "<div class=\"fy-else\">a</div>" ∧
      (other.compile .empty false "").failures = (compiler.compile .empty false "").failures := by
  intro paragraph broken alternative choice compiler other
  have hchoice : SameToHalt false (choice []) (choice [broken]) := by
    refine .conditional [] [] rfl (.alternative [paragraph] [] ?_ (by decide) ?_)
    · exact List.forall_mem_singleton.mpr rfl
    · exact .behind [.text "a"] rfl nofun
  obtain ⟨hhtml, hfailures, -⟩ := @compile_eq_of_sameToHalt compiler .empty _
    (fun _ => .read hchoice) "" "" (.read hchoice) false
  have hwritten : (compiler.compile .empty false "").html = "<div class=\"fy-else\">a</div>" := by
    decide +kernel
  exact ⟨hwritten, hhtml.trans hwritten, hfailures⟩

end Compiler

end DirectiveMarkup
