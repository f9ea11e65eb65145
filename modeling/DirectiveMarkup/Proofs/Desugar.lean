import DirectiveMarkup.Proofs.Treatment

/-!
# Compilation as desugaring

A tree whose directives read no text again can be desugared: every node becomes a few plain
nodes, and compilation writes exactly these. Desugaring knows no failures, no depths and no
order. What can fail is told by the visits, the nodes that compilation enters in the order in
which it enters them: it fails with the first visit that is too deep or whose condition cannot
be evaluated, and succeeds when there is none. An `if` visits its own children before an
alternative, even where they are discarded afterwards.
-/

namespace DirectiveMarkup

open Expression (Scope)
open Markup (Node Tag isVoid outerMarkup)

/-- True of an element whose children become text that is read again. -/
def rereads : Node → Bool
  | .element tag children =>
    match treatment tag children with
    | .interpolated | .iterated => true
    | _ => false
  | _ => false

/-- True of an element that ends the collection of its siblings. -/
def cuts : Node → Bool
  | .element tag children =>
    match treatment tag children with
    | .cut => true
    | _ => false
  | _ => false

/-- A node that compilation enters, with its depth. -/
structure Visit where
  depth : Nat
  node : Node

namespace Compiler

variable (compiler : Compiler) (scope : Scope)

/-- Whether the condition of an `if` holds, where one that fails does not. -/
def holds (tag : Tag) : Bool :=
  match compiler.condition scope tag with
  | .ok value => value
  | .error _ => false

mutual

/-- The plain nodes that a node stands for. -/
def desugar : Node → List Node
  | .text content => [.text content]
  | .comment _ => []
  | .element tag children =>
    match treatment tag children with
    | .cut => []
    | .replaced output => output
    | .wrapped output leading =>
      [.element output (if isVoid output.name then [] else leading ++ desugarForest children)]
    | .chosen =>
      if compiler.holds scope tag then [.element (.withClass "div" "fy-if") (desugarForest children)]
      else [.element (.withClass "div" "fy-else") (desugarAlternative children)]
    | .interpolated | .iterated => [.element tag children]

/-- The plain nodes that siblings stand for, up to one that cuts them short. -/
def desugarForest : List Node → List Node
  | [] => []
  | node :: rest => if cuts node then [] else desugar node ++ desugarForest rest

/-- The plain nodes inside the first `else` of a forest. -/
def desugarAlternative : List Node → List Node
  | .element tag children :: rest =>
    if Text.sameIgnoringCase tag.name "else" then desugarForest children
    else desugarAlternative rest
  | _ :: rest => desugarAlternative rest
  | [] => []

end

/-- The visits to the label of a tooltip. -/
def labelVisits (depth : Nat) : Node → List Visit
  | .element tag [.text content] =>
    [⟨depth, .element tag [.text content]⟩, ⟨depth + 1, .text content⟩]
  | node => [⟨depth, node⟩]

mutual

/-- The nodes that are entered when a node is compiled, in order. -/
def visits (depth : Nat) : Node → List Visit
  | .text content => [⟨depth, .text content⟩]
  | .comment body => [⟨depth, .comment body⟩]
  | .element tag children =>
    ⟨depth, .element tag children⟩ ::
      match treatment tag children with
      | .wrapped output leading =>
        if isVoid output.name then []
        else leading.flatMap (labelVisits (depth + 1)) ++ visitsForest (depth + 1) children
      | .chosen =>
        visitsForest (depth + 1) children ++
          if compiler.holds scope tag then [] else visitsAlternative (depth + 1) children
      | _ => []

/-- The nodes that are entered when siblings are compiled, up to one that cuts them short. -/
def visitsForest (depth : Nat) : List Node → List Visit
  | [] => []
  | node :: rest => visits depth node ++ if cuts node then [] else visitsForest depth rest

/-- The nodes that are entered when the first `else` of a forest is chosen. -/
def visitsAlternative (depth : Nat) : List Node → List Visit
  | .element tag children :: rest =>
    if Text.sameIgnoringCase tag.name "else" then visitsForest depth children
    else visitsAlternative depth rest
  | _ :: rest => visitsAlternative depth rest
  | [] => []

end

/-- Why a visit fails: its depth, or else its condition. -/
def fault? (visit : Visit) : Option CompileError :=
  if compiler.maxDepth < visit.depth then some (.nestingTooDeep compiler.maxDepth) else
    match visit.node with
    | .element tag children =>
      match treatment tag children, compiler.condition scope tag with
      | .chosen, .error error => some error
      | _, _ => none
    | _ => none

/-- The outcome of visits: the first failure, or else the result. -/
def verdict {α : Type} (visits : List Visit) (result : α) : Except CompileError α :=
  match visits.findSome? (compiler.fault? scope) with
  | some error => .error error
  | none => .ok result

/-! ## Verdicts -/

/-- Without visits nothing fails. -/
@[simp] theorem verdict_nil {α : Type} (result : α) :
    compiler.verdict scope [] result = .ok result := rfl

/-- A visit that fails is the verdict. -/
theorem verdict_cons_of_fault {α : Type} {visit : Visit} {error : CompileError}
    (h : compiler.fault? scope visit = some error) (rest : List Visit) (result : α) :
    compiler.verdict scope (visit :: rest) result = .error error := by
  simp [verdict, h]

/-- A visit that does not fail leaves the verdict to the visits after it. -/
theorem verdict_cons_of_none {α : Type} {visit : Visit} (h : compiler.fault? scope visit = none)
    (rest : List Visit) (result : α) :
    compiler.verdict scope (visit :: rest) result = compiler.verdict scope rest result := by
  simp [verdict, h]

/-- The verdicts on two lists of visits in a row make one verdict. -/
theorem verdict_bind {α β : Type} (first second : List Visit) (x : α) (f : α → β) :
    (compiler.verdict scope first x >>= fun y => compiler.verdict scope second (f y)) =
      compiler.verdict scope (first ++ second) (f x) := by
  unfold verdict
  rw [List.findSome?_append]
  cases first.findSome? (compiler.fault? scope) <;> rfl

/-- Changing the result changes it in the verdict. -/
theorem map_verdict {α β : Type} (visits : List Visit) (x : α) (f : α → β) :
    f <$> compiler.verdict scope visits x = compiler.verdict scope visits (f x) := by
  unfold verdict
  cases visits.findSome? (compiler.fault? scope) <;> rfl

/-- The verdict on the whole is that on its first part when the rest never fails. -/
theorem verdict_bind_ok {α β : Type} (visits : List Visit) (x : α) (f : α → β) :
    (compiler.verdict scope visits x >>= fun y => .ok (f y)) =
      compiler.verdict scope visits (f x) :=
  (compiler.verdict_bind scope visits [] x f).trans (by rw [List.append_nil])

/-- The first visit is to the node itself. -/
theorem visits_eq_cons (depth : Nat) (node : Node) :
    ∃ rest, compiler.visits scope depth node = ⟨depth, node⟩ :: rest := by
  cases node <;> exact ⟨_, by rw [visits]⟩

/-! ## Compilation writes the desugared tree -/

/-- What a node compiles to when nothing fails. -/
def desugared (node : Node) : Fragment :=
  if cuts node then .halt else .markup (outerMarkup (compiler.desugar scope node))

/-- Nodes that are deeper than allowed are faults. -/
theorem fault?_of_deep {visit : Visit} (h : compiler.maxDepth < visit.depth) :
    compiler.fault? scope visit = some (.nestingTooDeep compiler.maxDepth) := by
  simp [fault?, h]

/-- The condition of an `if` is whether it holds, unless its visit fails. -/
theorem condition_eq_verdict {α : Type} {depth : Nat} {tag : Tag} {children : List Node}
    (hdepth : depth ≤ compiler.maxDepth) (htreatment : treatment tag children = .chosen)
    (f : Bool → Except CompileError α) :
    (compiler.condition scope tag >>= f) =
      compiler.verdict scope [⟨depth, .element tag children⟩] () >>= fun _ =>
        f (compiler.holds scope tag) := by
  have hshallow : ¬ compiler.maxDepth < depth := by omega
  cases h : compiler.condition scope tag with
  | error error =>
    have hfault : compiler.fault? scope ⟨depth, .element tag children⟩ = some error := by
      simp [fault?, hshallow, htreatment, h]
    rw [verdict_cons_of_fault compiler scope hfault]
    rfl
  | ok value =>
    have hfault : compiler.fault? scope ⟨depth, .element tag children⟩ = none := by
      simp [fault?, hshallow, htreatment, h]
    rw [verdict_cons_of_none compiler scope hfault, verdict_nil, holds, h]
    rfl

/-- The visit to an element without a condition fails only when it is too deep. -/
theorem fault?_of_shallow {depth : Nat} {tag : Tag} {children : List Node}
    (hdepth : depth ≤ compiler.maxDepth) (htreatment : treatment tag children ≠ .chosen) :
    compiler.fault? scope ⟨depth, .element tag children⟩ = none := by
  have hshallow : ¬ compiler.maxDepth < depth := by omega
  simp only [fault?, hshallow, ↓reduceIte]
  split
  · contradiction
  · rfl

/-- Only a tooltip puts something in front of its children, and that is its label. -/
theorem leading_of_wrapped {tag output : Tag} {children leading : List Node}
    (h : treatment tag children = .wrapped output leading) :
    leading = [] ∨ leading = [tooltipLabel tag] := by
  revert h
  unfold treatment
  cases Directive.ofTag? (Text.toLower tag.name) with
  | none => exact fun h => .inl (Treatment.wrapped.inj h).2.symm
  | some directive =>
    cases directive with
    | tooltip => exact fun h => .inr (Treatment.wrapped.inj h).2.symm
    | first => exact fun h => .inl (Treatment.wrapped.inj h).2.symm
    | group =>
      by_cases hclass : tag.hasClass "group"
      · simp [hclass]
      · simpa [hclass] using fun _ h => .inl h
    | each =>
      by_cases hof : tag.hasAttribute "of"
      · simp [hof]
      · simpa [hof] using fun _ h => .inl h
    | _ => exact Treatment.noConfusion

/-- A node that is entered without a level left is too deep. -/
theorem outcome_eq_verdict_of_zero {depth : Nat} (hdepth : depth = compiler.maxDepth + 1)
    (node : Node) (result : Fragment) :
    (compiler.compileWithin scope 0 node).outcome =
      compiler.verdict scope (compiler.visits scope depth node) result := by
  obtain ⟨rest, hvisits⟩ := compiler.visits_eq_cons scope depth node
  have hdeep : compiler.maxDepth < depth := by omega
  rw [hvisits, verdict_cons_of_fault compiler scope (fault?_of_deep compiler scope hdeep)]
  rfl

/-- The verdict on a wrapper is that on what is inside it. -/
theorem wrapElement_eq_verdict {inner : List Node → Except CompileError String} {output : Tag}
    {nodes plain : List Node} {visits : List Visit}
    (h : isVoid output.name = false →
      inner nodes = compiler.verdict scope visits (outerMarkup plain)) :
    wrapElement inner output nodes =
      compiler.verdict scope (if isVoid output.name then [] else visits)
        (.markup (Node.element output (if isVoid output.name then [] else plain)).outer) := by
  unfold wrapElement
  rw [Node.outer_element]
  cases hvoid : isVoid output.name with
  | true => rfl
  | false =>
    simp only [Bool.false_eq_true, ↓reduceIte, h hvoid]
    exact compiler.map_verdict scope visits _ _

/-- A node that is no element fails only when it is too deep. -/
theorem fault?_of_leaf {depth : Nat} {node : Node} (hdepth : depth ≤ compiler.maxDepth)
    (hleaf : node.element? = none) : compiler.fault? scope ⟨depth, node⟩ = none := by
  have hshallow : ¬ compiler.maxDepth < depth := by omega
  cases node with
  | text content => simp [fault?, hshallow]
  | comment body => simp [fault?, hshallow]
  | element tag children => simp [Node.element?] at hleaf

/-- A text compiles to itself unless it is too deep. -/
theorem outcome_text_eq_verdict {levels depth : Nat}
    (hlevels : levels + depth = compiler.maxDepth + 1) (content : String) :
    (compiler.compileWithin scope levels (.text content)).outcome =
      compiler.verdict scope [⟨depth, .text content⟩] (.markup content) := by
  cases levels with
  | zero =>
    have hdeep : compiler.maxDepth < depth := by omega
    rw [verdict_cons_of_fault compiler scope (fault?_of_deep compiler scope hdeep)]
    rfl
  | succ levels =>
    rw [verdict_cons_of_none compiler scope (fault?_of_leaf compiler scope (by omega) rfl)]
    rfl

/-- A comment compiles to nothing unless it is too deep. -/
theorem outcome_comment_eq_verdict {levels depth : Nat}
    (hlevels : levels + depth = compiler.maxDepth + 1) (body : String) :
    (compiler.compileWithin scope levels (.comment body)).outcome =
      compiler.verdict scope [⟨depth, .comment body⟩] (.markup "") := by
  cases levels with
  | zero =>
    have hdeep : compiler.maxDepth < depth := by omega
    rw [verdict_cons_of_fault compiler scope (fault?_of_deep compiler scope hdeep)]
    rfl
  | succ levels =>
    rw [verdict_cons_of_none compiler scope (fault?_of_leaf compiler scope (by omega) rfl)]
    rfl

/-- Siblings after one that gives markup are visited after it. -/
theorem siblings_cons_eq_verdict {levels : Nat} {node : Node} {rest : List Node}
    {first second : List Visit} {text others : String}
    (hnode : (compiler.compileWithin scope levels node).outcome =
      compiler.verdict scope first (.markup text))
    (hrest : compiler.siblings scope levels rest = compiler.verdict scope second others) :
    compiler.siblings scope levels (node :: rest) =
      compiler.verdict scope (first ++ second) (text ++ others) := by
  rw [siblings_cons, hnode, ← compiler.verdict_bind scope first second text (· ++ others)]
  unfold verdict at hrest ⊢
  cases first.findSome? (compiler.fault? scope) with
  | some error => rfl
  | none =>
    change (text ++ ·) <$> compiler.siblings scope levels rest = _
    rw [hrest]
    cases second.findSome? (compiler.fault? scope) <;> rfl

/-- Siblings after one that halts are not visited. -/
theorem siblings_cons_eq_verdict_of_halt {levels : Nat} {node : Node} {visits : List Visit}
    (hnode : (compiler.compileWithin scope levels node).outcome =
      compiler.verdict scope visits .halt) (rest : List Node) :
    compiler.siblings scope levels (node :: rest) = compiler.verdict scope visits "" := by
  rw [siblings_cons, hnode]
  unfold verdict
  cases visits.findSome? (compiler.fault? scope) <;> rfl

/-- A label compiles to its own markup, unless it is too deep. -/
theorem outcome_label_eq_verdict {levels depth : Nat}
    (hlevels : levels + depth = compiler.maxDepth + 1) (token content : String) :
    (compiler.compileWithin scope levels (.element (.withClass "span" token) [.text content])).outcome =
      compiler.verdict scope
        [⟨depth, .element (.withClass "span" token) [.text content]⟩, ⟨depth + 1, .text content⟩]
        (.markup (Node.element (.withClass "span" token) [.text content]).outer) := by
  have htreatment :
      treatment (.withClass "span" token) [.text content] = .wrapped (.withClass "span" token) [] := by
    have hspan : Directive.ofTag? (Text.toLower "span") = none := by decide
    have houtput : outputTag (.withClass "span" token) = .withClass "span" token :=
      outputTag_eq (by decide : outputTag? (Text.toLower "span") = none)
    simp only [treatment, Tag.withClass, hspan]
    exact congrArg (Treatment.wrapped · []) houtput
  cases levels with
  | zero =>
    have hdeep : compiler.maxDepth < depth := by omega
    rw [verdict_cons_of_fault compiler scope (fault?_of_deep compiler scope hdeep)]
    rfl
  | succ levels =>
    have hcontent : compiler.siblings scope levels [.text content] =
        compiler.verdict scope [⟨depth + 1, .text content⟩] (outerMarkup [.text content]) := by
      simpa [Node.outer] using siblings_cons_eq_verdict compiler scope
        (outcome_text_eq_verdict compiler scope (by omega : levels + (depth + 1) = _) content)
        (show compiler.siblings scope levels [] = compiler.verdict scope [] "" from rfl)
    have hwrapper := @wrapElement_eq_verdict compiler scope _ (.withClass "span" token) _ _ _
      fun _ => hcontent
    have hvoid : isVoid (Tag.withClass "span" token).name = false := by
      change isVoid "span" = false
      decide
    have hchosen : treatment (.withClass "span" token) [.text content] ≠ .chosen := by
      rw [htreatment]
      exact Treatment.noConfusion
    rw [outcome_compileWithin_element, htreatment, carryOut, List.nil_append, hwrapper, hvoid,
      verdict_cons_of_none compiler scope (fault?_of_shallow compiler scope (by omega) hchosen)]
    rfl

/-- What leads the children of an element compiles in front of them. -/
theorem siblings_leading_eq_verdict {levels depth : Nat} {tag output : Tag}
    {children leading : List Node} {visits : List Visit} {text : String}
    (hlevels : levels + depth = compiler.maxDepth + 1)
    (htreatment : treatment tag children = .wrapped output leading)
    (hchildren : compiler.siblings scope levels children = compiler.verdict scope visits text) :
    compiler.siblings scope levels (leading ++ children) =
      compiler.verdict scope (leading.flatMap (labelVisits depth) ++ visits)
        (outerMarkup leading ++ text) := by
  rcases leading_of_wrapped htreatment with rfl | rfl
  · simpa using hchildren
  · have hlabel := outcome_label_eq_verdict compiler scope hlevels
      ("fy-tooltip-text fy-pos-" ++ ((tag.attribute? "ps").filter (!·.isEmpty)).getD "top")
      (tag.attributeOrEmpty "text")
    have hboth := siblings_cons_eq_verdict compiler scope hlabel hchildren
    simpa [tooltipLabel, labelVisits] using hboth

/-- The rule of `if` compiles to the branch that is chosen, after its own children. -/
theorem carryOut_chosen_eq_verdict {inner : List Node → Except CompileError String} {depth : Nat}
    {tag : Tag} {children consequent alternative : List Node} {first second : List Visit}
    (hdepth : depth ≤ compiler.maxDepth) (htreatment : treatment tag children = .chosen)
    (hconsequent : inner children = compiler.verdict scope first (outerMarkup consequent))
    (halternative : compiler.holds scope tag = false → inner (alternativeOf children) =
      compiler.verdict scope second (outerMarkup alternative)) :
    compiler.carryOut scope inner tag children .chosen =
      compiler.verdict scope
        (⟨depth, .element tag children⟩ ::
          (first ++ if compiler.holds scope tag then [] else second))
        (.markup <| outerMarkup <| if compiler.holds scope tag
          then [.element (.withClass "div" "fy-if") consequent]
          else [.element (.withClass "div" "fy-else") alternative]) := by
  have hvoid : isVoid (Tag.withClass "div" "fy-else").name = false := by
    change isVoid "div" = false
    decide
  rw [← List.singleton_append, ← compiler.verdict_bind scope _ _ () fun _ => _, carryOut,
    condition_eq_verdict compiler scope hdepth htreatment, hconsequent]
  congr 1
  funext _
  cases hholds : compiler.holds scope tag with
  | true =>
    simp only [↓reduceIte, List.append_nil, ← wrap_outerMarkup]
    exact compiler.verdict_bind_ok scope first (outerMarkup consequent) fun text =>
      Fragment.markup (wrap "fy-if" text)
  | false =>
    have hwrapper := @wrapElement_eq_verdict compiler scope _ (.withClass "div" "fy-else") _ _ _
      fun _ => halternative hholds
    simp only [hvoid, Bool.false_eq_true, ↓reduceIte] at hwrapper
    simp only [Bool.false_eq_true, ↓reduceIte, hwrapper, Markup.outerMarkup_cons,
      Markup.outerMarkup_nil, String.append_empty]
    exact compiler.verdict_bind scope first second (outerMarkup consequent) fun _ =>
      Fragment.markup (Node.element (.withClass "div" "fy-else") alternative).outer

/-- An element compiles to what it stands for, if its children and its alternative do. -/
theorem outcome_element_eq_verdict {levels depth : Nat} {tag : Tag} {children : List Node}
    (hlevels : levels + (depth + 1) = compiler.maxDepth + 1)
    (hread : ∀ visit ∈ compiler.visits scope depth (.element tag children),
      rereads visit.node = false)
    (hchildren :
      (∀ visit ∈ compiler.visitsForest scope (depth + 1) children, rereads visit.node = false) →
      compiler.siblings scope levels children =
        compiler.verdict scope (compiler.visitsForest scope (depth + 1) children)
          (outerMarkup (compiler.desugarForest scope children)))
    (halternative :
      (∀ visit ∈ compiler.visitsAlternative scope (depth + 1) children,
        rereads visit.node = false) →
      compiler.siblings scope levels (alternativeOf children) =
        compiler.verdict scope (compiler.visitsAlternative scope (depth + 1) children)
          (outerMarkup (compiler.desugarAlternative scope children))) :
    (compiler.compileWithin scope (levels + 1) (.element tag children)).outcome =
      compiler.verdict scope (compiler.visits scope depth (.element tag children))
        (compiler.desugared scope (.element tag children)) := by
  have hdepth : depth ≤ compiler.maxDepth := by omega
  obtain ⟨kind, htreatment⟩ : ∃ kind, treatment tag children = kind := ⟨_, rfl⟩
  have hfault (h : kind ≠ .chosen) :
      compiler.fault? scope ⟨depth, .element tag children⟩ = none :=
    fault?_of_shallow compiler scope hdepth (htreatment ▸ h)
  rw [outcome_compileWithin_element, htreatment]
  simp only [visits, desugared, desugar, cuts, htreatment] at hread ⊢
  cases kind with
  | cut =>
    rw [verdict_cons_of_none compiler scope (hfault Treatment.noConfusion)]
    rfl
  | replaced output =>
    rw [verdict_cons_of_none compiler scope (hfault Treatment.noConfusion)]
    rfl
  | wrapped output leading =>
    have hvisits (h : isVoid output.name = false) := hchildren fun visit hvisit =>
      hread visit (by simp [h, hvisit])
    rw [verdict_cons_of_none compiler scope (hfault Treatment.noConfusion), carryOut]
    have hinside (h : isVoid output.name = false) := siblings_leading_eq_verdict compiler scope
      hlevels htreatment (hvisits h)
    simp only [← Markup.outerMarkup_append] at hinside
    simpa using wrapElement_eq_verdict compiler scope hinside
  | chosen =>
    refine carryOut_chosen_eq_verdict compiler scope hdepth htreatment (hchildren ?_) fun h =>
      halternative ?_
    · exact fun visit hvisit => hread visit (by simp [hvisit])
    · exact fun visit hvisit => hread visit (by simp [h, hvisit])
  | interpolated =>
    have hself := hread ⟨depth, .element tag children⟩ List.mem_cons_self
    simp [rereads, htreatment] at hself
  | iterated =>
    have hself := hread ⟨depth, .element tag children⟩ List.mem_cons_self
    simp [rereads, htreatment] at hself

/-- The first `else` of a forest is its first element, or stands among the rest. -/
theorem alternativeOf_element (tag : Tag) (children rest : List Node) :
    alternativeOf (.element tag children :: rest) =
      if Text.sameIgnoringCase tag.name "else" then children else alternativeOf rest := by
  simp only [alternativeOf, Markup.elements, List.filterMap_cons, Node.element?, List.find?_cons]
  cases Text.sameIgnoringCase tag.name "else" <;> rfl

mutual

/-- A node compiles to what it stands for, or fails with its first visit that fails. -/
theorem outcome_eq_verdict {levels depth : Nat} (hlevels : levels + depth = compiler.maxDepth + 1) :
    ∀ node : Node, (∀ visit ∈ compiler.visits scope depth node, rereads visit.node = false) →
      (compiler.compileWithin scope levels node).outcome =
        compiler.verdict scope (compiler.visits scope depth node) (compiler.desugared scope node)
  | .text content, _ => by
    rw [outcome_text_eq_verdict compiler scope hlevels content]
    simp [visits, desugared, cuts, desugar, Node.outer]
  | .comment body, _ => by
    rw [outcome_comment_eq_verdict compiler scope hlevels body]
    simp [visits, desugared, cuts, desugar]
  | .element tag children, hread => by
    cases levels with
    | zero => exact outcome_eq_verdict_of_zero compiler scope (by omega) _ _
    | succ levels =>
      exact outcome_element_eq_verdict compiler scope (by omega) hread
        (siblings_eq_verdict (by omega) children) (siblings_alternative_eq_verdict (by omega) children)

/-- Siblings compile to what they stand for, or fail with their first visit that fails. -/
theorem siblings_eq_verdict {levels depth : Nat}
    (hlevels : levels + depth = compiler.maxDepth + 1) :
    ∀ nodes : List Node,
      (∀ visit ∈ compiler.visitsForest scope depth nodes, rereads visit.node = false) →
      compiler.siblings scope levels nodes =
        compiler.verdict scope (compiler.visitsForest scope depth nodes)
          (outerMarkup (compiler.desugarForest scope nodes))
  | [], _ => by simp [visitsForest, desugarForest]
  | node :: rest, hread => by
    rw [visitsForest] at hread ⊢
    have hnode := outcome_eq_verdict hlevels node fun visit hvisit =>
      hread visit (List.mem_append_left _ hvisit)
    rw [desugarForest]
    unfold desugared at hnode
    cases hcuts : cuts node with
    | true =>
      simp only [hcuts, ↓reduceIte, List.append_nil] at hnode ⊢
      exact siblings_cons_eq_verdict_of_halt compiler scope hnode rest
    | false =>
      simp only [hcuts, Bool.false_eq_true, ↓reduceIte, Markup.outerMarkup_append] at hread hnode ⊢
      exact siblings_cons_eq_verdict compiler scope hnode <|
        siblings_eq_verdict hlevels rest fun visit hvisit =>
          hread visit (List.mem_append_right _ hvisit)

/-- The same holds of the nodes inside the first `else` of a forest. -/
theorem siblings_alternative_eq_verdict {levels depth : Nat}
    (hlevels : levels + depth = compiler.maxDepth + 1) :
    ∀ nodes : List Node,
      (∀ visit ∈ compiler.visitsAlternative scope depth nodes, rereads visit.node = false) →
      compiler.siblings scope levels (alternativeOf nodes) =
        compiler.verdict scope (compiler.visitsAlternative scope depth nodes)
          (outerMarkup (compiler.desugarAlternative scope nodes))
  | [], _ => by simp [visitsAlternative, desugarAlternative, alternativeOf, Markup.elements]
  | .text content :: rest, hread => by
    simp only [visitsAlternative] at hread
    simp only [visitsAlternative, desugarAlternative]
    exact siblings_alternative_eq_verdict hlevels rest hread
  | .comment body :: rest, hread => by
    simp only [visitsAlternative] at hread
    simp only [visitsAlternative, desugarAlternative]
    exact siblings_alternative_eq_verdict hlevels rest hread
  | .element tag children :: rest, hread => by
    rw [visitsAlternative] at hread ⊢
    rw [desugarAlternative, alternativeOf_element]
    cases helse : Text.sameIgnoringCase tag.name "else" with
    | true =>
      simp only [helse, ↓reduceIte] at hread ⊢
      exact siblings_eq_verdict hlevels children hread
    | false =>
      simp only [helse, Bool.false_eq_true, ↓reduceIte] at hread ⊢
      exact siblings_alternative_eq_verdict hlevels rest hread

end

/-- Compilation is desugaring. A node whose visits read no text again fails with the first of
them that is too deep or has a condition that cannot be evaluated. If there is none, it halts
or compiles to the markup of the plain nodes that it stands for. -/
theorem compileNode_eq_desugar (node : Node)
    (hread : ∀ visit ∈ compiler.visits scope 0 node, rereads visit.node = false) :
    (compiler.compileNode scope node).outcome =
      match (compiler.visits scope 0 node).findSome? (compiler.fault? scope) with
      | some error => .error error
      | none =>
        .ok (if cuts node then .halt else .markup (outerMarkup (compiler.desugar scope node))) :=
  outcome_eq_verdict compiler scope (Nat.add_zero (compiler.maxDepth + 1)) node hread

/-- An `if` that holds, with a tag inside that is renamed, one whose condition is blank, with a halt in
its alternative, and one whose condition is false; tooltips and a style; elements whose children are not
compiled; a `group` and an `each` that are plain; and siblings behind a halt. -/
def branching : Node :=
  .element ⟨"First", []⟩
    [.element ⟨"if", [⟨"c", " 1 "⟩]⟩ [.element ⟨"btn", [⟨"id", "a"⟩]⟩ [.text "b"]],
      .element ⟨"if", [⟨"c", " "⟩]⟩
        [.element ⟨"btn", []⟩ [.text "c"],
          .element ⟨"ELSE", []⟩ [.text "d", .element ⟨"halt", []⟩ [], .text "e"]],
      .element ⟨"tooltip", [⟨"text", "f"⟩, ⟨"ps", "left"⟩]⟩ [.text "g", .comment "h"],
      .element ⟨"style", []⟩ [.text " last \x7b\x7d "],
      .element ⟨"esc", []⟩ [.element ⟨"if", []⟩ [.text "i"]],
      .element ⟨"group", [⟨"class", "j group"⟩]⟩ [.element ⟨"btn", []⟩ [.text "k"]],
      .element ⟨"last", []⟩ [.text "l"],
      .element ⟨"br", [⟨"id", "m"⟩]⟩ [.text "n"],
      .element ⟨"if", [⟨"c", "0"⟩]⟩ [.text "o"], .element ⟨"tooltip", [⟨"text", "p"⟩]⟩ [],
      .element ⟨"else", []⟩ [.text "q"], .element ⟨"await", []⟩ [.text "r"],
      .element ⟨"group", [⟨"class", "s"⟩]⟩ [.text "t"], .element ⟨"each", [⟨"as", "u"⟩]⟩ [.text "v"],
      .element ⟨"halt", []⟩ [], .text "w"]

/-- An `if` with a name that is not bound, inside a discarded one. -/
def unbound : Node :=
  .element ⟨"if", [⟨"c", "false"⟩]⟩ [.element ⟨"if", [⟨"c", " x "⟩]⟩ [.text "a"]]

/-- What the markup of a branching tree is, and why one with a name that is not bound fails. -/
theorem compileNode_branching :
    ((∀ visit ∈ (standard 3).visits .empty 0 branching, rereads visit.node = false) ∧
      ∀ visit ∈ (standard 3).visits .empty 0 unbound, rereads visit.node = false) ∧
      ((standard 3).compileNode .empty branching).outcome = .ok (.markup
        ("<div class=\"fy-first\"><div class=\"fy-if\"><button id=\"a\">b</button></div>" ++
          "<div class=\"fy-else\">d</div>" ++
          "<span class=\"fy-tooltip\"><span class=\"fy-tooltip-text fy-pos-left\">f</span>g</span>" ++
          "<style>/* Selectors may contain compiled mHTML directives. */ div.fy-last \x7b\x7d</style>" ++
          "<div class=\"fy-escape\"><if>i</if></div><div class=\"fy-group\"><btn>k</btn></div>" ++
          "<div class=\"fy-last\"></div><br id=\"m\"><div class=\"fy-else\"></div>" ++
          "<span class=\"fy-tooltip\"><span class=\"fy-tooltip-text fy-pos-top\">p</span></span>" ++
          "<div class=\"fy-await\"></div><div class=\"s\">t</div><div as=\"u\">v</div></div>")) ∧
      ((standard 3).compileNode .empty unbound).outcome =
        .error (.expression .conditional "c" (.undefinedVariable "x")) := by
  have hread : ∀ visit ∈ (standard 3).visits .empty 0 branching, rereads visit.node = false := by
    decide +kernel
  have hread' : ∀ visit ∈ (standard 3).visits .empty 0 unbound, rereads visit.node = false := by
    decide +kernel
  have hfault : ((standard 3).visits .empty 0 branching).findSome?
      ((standard 3).fault? .empty) = none := by
    decide +kernel
  have hfault' : ((standard 3).visits .empty 0 unbound).findSome? ((standard 3).fault? .empty) =
      some (.expression .conditional "c" (.undefinedVariable "x")) := by
    decide +kernel
  refine ⟨⟨hread, hread'⟩, ?_, ?_⟩
  · rw [compileNode_eq_desugar (standard 3) .empty branching hread, hfault]
    exact congrArg Except.ok (by decide +kernel)
  · rw [compileNode_eq_desugar (standard 3) .empty unbound hread', hfault']

end Compiler

end DirectiveMarkup
