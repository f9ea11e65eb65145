import DirectiveMarkup.Proofs.Settling
import DirectiveMarkup.Proofs.Treatment

/-!
# Compiling settled forests

Compilation does not see whether a forest is settled, but for one thing: an empty text takes a
level like any other node, so that leaving it out can save a forest from being nested too deep.
The two outcomes are therefore compared up to that failure, and only where there is an empty
text. The induction is on the levels, since an alternative is not a part of what is compiled
with its element.
-/

namespace DirectiveMarkup

open Expression (Scope Value)
open Markup (Node Tag isVoid outerMarkup attach settleForest)

namespace Markup

mutual

/-- True of a node with an empty text in it. -/
def Node.hasEmptyText : Node → Bool
  | .text content => content.isEmpty
  | .comment _ => false
  | .element _ children => hasEmptyText children

/-- True of a forest with an empty text in it. -/
def hasEmptyText : List Node → Bool
  | [] => false
  | node :: rest => node.hasEmptyText || hasEmptyText rest

end

/-- True of an empty text. -/
def Node.isEmptyText : Node → Bool
  | .text content => content.isEmpty
  | _ => false

mutual

/-- A node with the empty texts inside it left out. -/
def Node.prune : Node → Node
  | .element tag children => .element tag (pruneForest children)
  | node => node

/-- A forest with its empty texts left out. -/
def pruneForest : List Node → List Node
  | [] => []
  | node :: rest =>
    if node.isEmptyText then pruneForest rest else node.prune :: pruneForest rest

end

mutual

/-- A pruned node settles like the node. -/
theorem settle_prune (node : Node) : node.prune.settle = node.settle := by
  match node with
  | .text content => rfl
  | .comment body => rfl
  | .element tag children => exact congrArg (Node.element tag) (settleForest_prune children)

/-- A pruned forest settles like the forest. -/
theorem settleForest_prune (forest : List Node) :
    settleForest (pruneForest forest) = settleForest forest := by
  match forest with
  | [] => rfl
  | node :: rest =>
    have hrest := settleForest_prune rest
    rw [pruneForest]
    split_ifs with hempty
    · cases node with
      | text content =>
        obtain rfl : content = "" := by simpa [Node.isEmptyText] using hempty
        exact hrest
      | comment body => simp [Node.isEmptyText] at hempty
      | element tag children => simp [Node.isEmptyText] at hempty
    · rw [settleForest, settleForest, hrest, settle_prune node]

end

mutual

/-- A pruned node has no empty text in it, unless it is one. -/
theorem hasEmptyText_prune (node : Node) (h : node.isEmptyText = false) :
    node.prune.hasEmptyText = false := by
  match node with
  | .text content => exact h
  | .comment body => rfl
  | .element tag children => exact hasEmptyText_pruneForest children

/-- A pruned forest has no empty text. -/
theorem hasEmptyText_pruneForest (forest : List Node) :
    hasEmptyText (pruneForest forest) = false := by
  match forest with
  | [] => rfl
  | node :: rest =>
    have hrest := hasEmptyText_pruneForest rest
    rw [pruneForest]
    split_ifs with hempty
    · exact hrest
    · rw [hasEmptyText, hasEmptyText_prune node (by simpa using hempty), hrest, Bool.or_self]

end

/-- An empty text in a node is one in the forest. -/
theorem hasEmptyText_of_mem {node : Node} {forest : List Node} (hmem : node ∈ forest)
    (h : node.hasEmptyText) : hasEmptyText forest := by
  induction forest with
  | nil => simp at hmem
  | cons other rest ih =>
    rw [hasEmptyText, Bool.or_eq_true]
    rcases List.mem_cons.mp hmem with rfl | hmem
    · exact .inl h
    · exact .inr (ih hmem)

/-- Only empty texts settle to nothing. -/
theorem hasEmptyText_of_settleForest_nil {node : Node} {rest : List Node}
    (h : settleForest (node :: rest) = []) : hasEmptyText (node :: rest) := by
  rw [settleForest] at h
  cases node with
  | text content =>
    rcases attach_text content (settleForest rest) with ⟨rfl, -⟩ | ⟨-, next, other, -, hattach⟩ |
      ⟨-, -, hattach⟩
    · rfl
    · exact absurd (hattach.symm.trans h) (by simp)
    · exact absurd (hattach.symm.trans h) (by simp)
  | comment body => exact absurd h (by simp [Node.settle, attach])
  | element tag children => exact absurd h (by simp [Node.settle, attach])

/-- The elements of a settled forest are those of the forest, settled. -/
theorem elements_settleForest (forest : List Node) :
    elements (settleForest forest) =
      (elements forest).map fun (tag, children) => (tag, settleForest children) := by
  induction forest with
  | nil => rfl
  | cons node rest ih =>
    cases node with
    | text content =>
      have helements : elements (attach (.text content) (settleForest rest)) =
          elements (settleForest rest) := by
        rcases attach_text content (settleForest rest) with ⟨-, h⟩ | ⟨-, next, other, hrest, h⟩ |
          ⟨-, -, h⟩
        · rw [h]
        · rw [h, hrest]
          rfl
        · rw [h]
          rfl
      exact helements.trans ih
    | comment body => exact ih
    | element tag children => exact congrArg ((tag, settleForest children) :: ·) ih

end Markup

/-! ## Outcomes up to a failure -/

/-- Two outcomes are the same, or the first is a failure and there is an excuse for it. -/
def SameUnless (excuse : Prop) (failure : CompileError) {α : Type} (first second : Except CompileError α) :
    Prop :=
  first = second ∨ excuse ∧ first = .error failure

namespace SameUnless

variable {excuse : Prop} {failure : CompileError} {α β : Type}

/-- An outcome is the same as itself. -/
theorem refl (x : Except CompileError α) : SameUnless excuse failure x x :=
  .inl rfl

/-- Going on in the same way keeps outcomes the same. -/
theorem bind {first second : Except CompileError α} {f g : α → Except CompileError β}
    (h : SameUnless excuse failure first second)
    (hfg : ∀ value, SameUnless excuse failure (f value) (g value)) :
    SameUnless excuse failure (first >>= f) (second >>= g) := by
  rcases h with rfl | ⟨hexcuse, rfl⟩
  · cases first with
    | error error => exact refl _
    | ok value => exact hfg value
  · exact .inr ⟨hexcuse, rfl⟩

/-- Changing the values keeps outcomes the same. -/
theorem map {first second : Except CompileError α} (h : SameUnless excuse failure first second)
    (f : α → β) : SameUnless excuse failure (f <$> first) (f <$> second) := by
  rcases h with rfl | ⟨hexcuse, rfl⟩
  · exact refl _
  · exact .inr ⟨hexcuse, rfl⟩

/-- Without an excuse the outcomes are the same. -/
theorem eq_of_not {first second : Except CompileError α} (h : SameUnless excuse failure first second)
    (hexcuse : ¬ excuse) : first = second :=
  h.resolve_right fun hfailure => hexcuse hfailure.1

/-- An outcome that is no failure is the same. -/
theorem eq_of_ok {second : Except CompileError α} {value : α}
    (h : SameUnless excuse failure (.ok value) second) : second = .ok value :=
  (h.resolve_right fun hfailure => nomatch hfailure.2).symm

end SameUnless

namespace Compiler

variable (compiler : Compiler) (scope : Scope)

/-- The alternative of a settled forest is that of the forest, settled. -/
theorem alternativeOf_settleForest (forest : List Node) :
    alternativeOf (settleForest forest) = settleForest (alternativeOf forest) := by
  unfold alternativeOf
  rw [Markup.elements_settleForest, List.find?_map]
  change Option.elim (Option.map _ ((Markup.elements forest).find? fun (tag, _) =>
    Text.sameIgnoringCase tag.name "else")) [] Prod.snd = _
  cases (Markup.elements forest).find? fun (tag, _) => Text.sameIgnoringCase tag.name "else" with
  | none => rfl
  | some element => rfl

/-- An alternative has an empty text only if the forest has one. -/
theorem hasEmptyText_alternativeOf {forest : List Node}
    (h : Markup.hasEmptyText (alternativeOf forest)) : Markup.hasEmptyText forest := by
  rcases alternativeOf_cases forest with hnil | ⟨tag, hmem⟩
  · rw [hnil] at h
    exact absurd h (by decide)
  · exact Markup.hasEmptyText_of_mem hmem h

section Treatments

variable {excuse : Prop} {failure : CompileError} {inner : List Node → Except CompileError String}

/-- Wrapping the same compiled nodes gives the same. -/
theorem sameUnless_wrapElement {output : Tag} {nodes nodes' : List Node}
    (h : SameUnless excuse failure (inner nodes) (inner nodes')) :
    SameUnless excuse failure (wrapElement inner output nodes) (wrapElement inner output nodes') := by
  unfold wrapElement
  split
  · exact .refl _
  · exact h.map _

/-- Elements that are replaced by the same markup compile to the same. -/
theorem sameUnless_replaced (tag : Tag) (children children' : List Node) {output output' : List Node}
    (h : outerMarkup output' = outerMarkup output) :
    SameUnless excuse failure (compiler.carryOut scope inner tag children (.replaced output))
      (compiler.carryOut scope inner tag children' (.replaced output')) := by
  rw [carryOut, carryOut, h]
  exact .refl _

/-- An element is compiled like the one with settled children. -/
theorem sameUnless_carryOut {children : List Node} (tag : Tag)
    (hleading : ∀ leading, SameUnless excuse failure (inner (leading ++ children))
      (inner (leading ++ settleForest children)))
    (halternative : SameUnless excuse failure (inner (alternativeOf children))
      (inner (settleForest (alternativeOf children)))) :
    SameUnless excuse failure
      (compiler.carryOut scope inner tag children (treatment tag children))
      (compiler.carryOut scope inner tag (settleForest children)
        (treatment tag (settleForest children))) := by
  have hinner : SameUnless excuse failure (inner children) (inner (settleForest children)) :=
    hleading []
  have hwrapped (output : Tag) (leading : List Node) :
      SameUnless excuse failure
        (compiler.carryOut scope inner tag children (.wrapped output leading))
        (compiler.carryOut scope inner tag (settleForest children) (.wrapped output leading)) :=
    sameUnless_wrapElement (hleading leading)
  have hkept (output : Tag) :
      SameUnless excuse failure
        (compiler.carryOut scope inner tag children (.replaced [.element output children]))
        (compiler.carryOut scope inner tag (settleForest children)
          (.replaced [.element output (settleForest children)])) :=
    sameUnless_replaced compiler scope tag children (settleForest children)
      (Markup.outerMarkup_settleForest [.element output children])
  unfold treatment
  cases Directive.ofTag? (Text.toLower tag.name) with
  | none => exact hwrapped _ _
  | some directive =>
    cases directive with
    | halt => exact .refl _
    | alternative => exact .refl _
    | escape => exact hkept _
    | style =>
      apply sameUnless_replaced
      rw [styleText, styleText, Markup.textContent_settleForest]
    | last => exact .refl _
    | await => exact .refl _
    | group =>
      by_cases h : tag.hasClass "group"
      · simpa [h] using hkept _
      · simpa [h] using hwrapped _ _
    | first => exact hwrapped _ _
    | tooltip => exact hwrapped _ _
    | conditional =>
      refine SameUnless.bind (.refl _) fun holds => hinner.bind fun consequent => ?_
      cases holds with
      | true => exact .refl _
      | false =>
        simp only [Bool.false_eq_true, ↓reduceIte, alternativeOf_settleForest]
        exact sameUnless_wrapElement halternative
    | interpolation =>
      simp only [carryOut, interpolatedForest, Markup.outerMarkup_settleForest]
      exact .refl _
    | each =>
      by_cases h : tag.hasAttribute "of"
      · simp only [h, ↓reduceIte, carryOut, iteratedForest]
        refine SameUnless.bind ?_ fun _ => .refl _
        exact SameUnless.bind (.refl _) fun items => hinner.bind fun body => .refl _
      · simpa [h] using hwrapped _ _

end Treatments

/-! ## All levels -/

/-- Siblings compile alike when they start in the same way and go on alike. -/
theorem sameUnless_siblings_cons {excuse : Prop} {failure : CompileError} {levels : Nat}
    {node node' : Node} {rest rest' : List Node}
    (hnode : SameUnless excuse failure (compiler.compileWithin scope levels node).outcome
      (compiler.compileWithin scope levels node').outcome)
    (hrest : SameUnless excuse failure (compiler.siblings scope levels rest)
      (compiler.siblings scope levels rest')) :
    SameUnless excuse failure (compiler.siblings scope levels (node :: rest))
      (compiler.siblings scope levels (node' :: rest')) := by
  rw [siblings_cons, siblings_cons]
  refine hnode.bind fun fragment => ?_
  cases fragment with
  | halt => exact .refl _
  | markup text => exact hrest.map _

/-- A text compiles to itself in front of the rest. -/
theorem siblings_text (levels : Nat) (content : String) (rest : List Node) :
    compiler.siblings scope (levels + 1) (.text content :: rest) =
      (content ++ ·) <$> compiler.siblings scope (levels + 1) rest := by
  rw [siblings_cons, outcome_compileWithin_text]
  rfl

/-- An attached text compiles to itself in front of the rest. -/
theorem siblings_attach_text (levels : Nat) (content : String) (forest : List Node) :
    compiler.siblings scope (levels + 1) (attach (.text content) forest) =
      (content ++ ·) <$> compiler.siblings scope (levels + 1) forest := by
  rcases Markup.attach_text content forest with ⟨rfl, h⟩ | ⟨-, next, rest, rfl, h⟩ | ⟨-, -, h⟩
  · simp [h]
  · rw [h, siblings_text, siblings_text]
    simp only [Functor.map_map, String.append_assoc]
  · rw [h, siblings_text]

/-- A forest compiles like its settled form, unless an empty text is nested too deep. -/
theorem sameUnless_settleForest {excuse : Prop} (levels : Nat) (forest : List Node)
    (h : Markup.hasEmptyText forest → excuse) :
    SameUnless excuse (.nestingTooDeep compiler.maxDepth) (compiler.siblings scope levels forest)
      (compiler.siblings scope levels (settleForest forest)) := by
  induction levels generalizing forest with
  | zero =>
    cases forest with
    | nil => exact .refl _
    | cons node rest =>
      rw [siblings_zero]
      cases hsettled : settleForest (node :: rest) with
      | nil => exact .inr ⟨h (Markup.hasEmptyText_of_settleForest_nil hsettled), rfl⟩
      | cons node' rest' =>
        rw [siblings_zero]
        exact .refl _
  | succ levels ih =>
    induction forest with
    | nil => exact .refl _
    | cons node rest ihrest =>
      simp only [Markup.hasEmptyText, Bool.or_eq_true] at h
      have hrest := ihrest fun hempty => h (.inr hempty)
      cases node with
      | text content =>
        rw [siblings_text]
        exact (siblings_attach_text compiler scope levels content _).symm ▸ hrest.map _
      | comment body => exact sameUnless_siblings_cons compiler scope (.refl _) hrest
      | element tag children =>
        have hchildren : Markup.hasEmptyText children → excuse := fun hempty => h (.inl hempty)
        refine sameUnless_siblings_cons compiler scope ?_ hrest
        rw [outcome_compileWithin_element, Markup.Node.settle, outcome_compileWithin_element]
        refine compiler.sameUnless_carryOut scope tag (fun leading => ?_)
          (ih _ fun hempty => hchildren (hasEmptyText_alternativeOf hempty))
        induction leading with
        | nil => exact ih children hchildren
        | cons node leading ihleading => exact sameUnless_siblings_cons compiler scope (.refl _) ihleading

/-- Without its empty texts a forest compiles like its settled form. -/
theorem siblings_pruneForest (levels : Nat) (forest : List Node) :
    compiler.siblings scope levels (Markup.pruneForest forest) =
      compiler.siblings scope levels (settleForest forest) := by
  have hsame := @sameUnless_settleForest compiler scope False levels
    (Markup.pruneForest forest) (by simp [Markup.hasEmptyText_pruneForest])
  rw [hsame.eq_of_not id, Markup.settleForest_prune]

end Compiler

end DirectiveMarkup
