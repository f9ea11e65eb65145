import DirectiveMarkup.Proofs.Depth

/-!
# Failures inside a tree

The children of most elements are compiled where they stand and in the ambient scope, before the
element does anything with the result. A failure there is the failure of the element, and of every
tree around it, unchanged: the bindings of an `each` are not in sight, its items have not been
looked at, and neither have later siblings or an alternative.

Left out are the elements whose children are compiled after something else or not at all: `inter`,
which interpolates first, and those that put out their children as they are.
-/

namespace DirectiveMarkup

open Expression (Scope Value)
open Markup (Node Tag isVoid)

namespace Compiler

variable (compiler : Compiler) (scope : Scope)

/-- An element compiles its children first, with some nodes in front of them: an element that is put
around them and is not void (`first`, `tooltip` with its label, and all without a rule of their
own), an `if` whose condition can be evaluated if it has one, or an `each` over an array or null. -/
inductive Gathers (tag : Tag) (children : List Node) : (leading : List Node) → Prop where
  | wrapped {output : Tag} {leading : List Node} :
      treatment tag children = .wrapped output leading → isVoid output.name = false →
      Gathers tag children leading
  | conditional :
      Directive.ofTag? (Text.toLower tag.name) = some .conditional →
      (∀ text, tag.attribute? "c" = some text → (Text.trim text).isEmpty = false →
        ∃ value, compiler.evaluate (Text.trim text) scope = .ok value) →
      Gathers tag children []
  | each {value : Value} :
      Directive.ofTag? (Text.toLower tag.name) = some .each → tag.hasAttribute "of" →
      compiler.evaluate (tag.attributeOrEmpty "of") scope = .ok value →
      (value = .null ∨ ∃ items, value = .array items) →
      Gathers tag children []

/-- A node is in a collected position of a tree that is compiled at a depth, that many levels below
its root: each step leads to a child of an element that gathers its children, and everything in
front of that child compiles to markup. -/
inductive Collected (node : Node) : (depth : Nat) → (tree : Node) → (below : Nat) → Prop where
  | here {depth : Nat} : Collected node depth node 0
  | inside {depth below : Nat} {tag : Tag} {leading : List Node} (before : List Node)
      {after : List Node} {child : Node} :
      compiler.Gathers scope tag (before ++ child :: after) leading →
      (∀ other ∈ leading ++ before,
        ∃ text, (compiler.compileAt scope (depth + 1) other).outcome = .ok (.markup text)) →
      Collected node (depth + 1) child below →
      Collected node depth (.element tag (before ++ child :: after)) (below + 1)

section

variable {compiler scope}

/-- The first sibling that fails fails them all. -/
theorem siblingsAt_of_error {depth : Nat} {before after : List Node} {node : Node}
    {error : CompileError}
    (hbefore : ∀ other ∈ before,
      ∃ text, (compiler.compileAt scope depth other).outcome = .ok (.markup text))
    (herror : (compiler.compileAt scope depth node).outcome = .error error) :
    compiler.siblingsAt scope depth (before ++ node :: after) = .error error := by
  induction before with
  | nil =>
    rw [List.nil_append, siblingsAt_cons, herror]
    rfl
  | cons other before ih =>
    rw [List.forall_mem_cons] at hbefore
    obtain ⟨⟨text, htext⟩, hbefore⟩ := hbefore
    rw [List.cons_append, siblingsAt_cons, htext]
    change (text ++ ·) <$> compiler.siblingsAt scope depth (before ++ node :: after) = _
    rw [ih hbefore]
    rfl

/-- A condition that can be evaluated, or is not there, holds or does not. -/
theorem condition_eq_ok {tag : Tag}
    (h : ∀ text, tag.attribute? "c" = some text → (Text.trim text).isEmpty = false →
      ∃ value, compiler.evaluate (Text.trim text) scope = .ok value) :
    ∃ holds, compiler.condition scope tag = .ok holds := by
  unfold condition
  cases htext : tag.attribute? "c" with
  | none => exact ⟨false, rfl⟩
  | some text =>
    dsimp only
    cases hblank : (Text.trim text).isEmpty with
    | true => exact ⟨false, if_pos rfl⟩
    | false =>
      obtain ⟨value, hvalue⟩ := h text htext hblank
      rw [if_neg Bool.false_ne_true, hvalue]
      exact ⟨value.truthy, rfl⟩

/-- An element that gathers its children fails when they do. -/
theorem carryOut_of_gathers {tag : Tag} {children leading : List Node} {error : CompileError}
    {inner : List Node → Except CompileError String}
    (h : compiler.Gathers scope tag children leading)
    (herror : inner (leading ++ children) = .error error) :
    compiler.carryOut scope inner tag children (treatment tag children) = .error error := by
  cases h with
  | wrapped htreatment hvoid =>
    rw [htreatment, carryOut, wrapElement, if_neg (by simp [hvoid]), herror]
    rfl
  | conditional htag hsource =>
    obtain ⟨holds, hholds⟩ := condition_eq_ok hsource
    rw [List.nil_append] at herror
    rw [treatment_of_conditional htag, carryOut, hholds, herror]
    rfl
  | each htag hof hvalue hkind =>
    obtain ⟨items, hitems⟩ : ∃ items, (compiler.eachItems scope tag).outcome = .ok items := by
      rcases hkind with rfl | ⟨items, rfl⟩
      · exact ⟨[], compiler.outcome_eachItems scope (.inr ⟨hvalue, rfl⟩)⟩
      · exact ⟨items, compiler.outcome_eachItems scope (.inl hvalue)⟩
    rw [List.nil_append] at herror
    rw [treatment_of_each htag hof, carryOut, iteratedForest, hitems, herror]
    rfl

end

/-- A node in a collected position that fails makes the whole tree fail with the very same error,
whatever stands behind it and whatever the elements around it bind, repeat or choose. Node and tree
are compiled in the same scope. -/
theorem outcome_compileAt_of_collected {depth below : Nat} {tree node : Node}
    {error : CompileError} (h : compiler.Collected scope node depth tree below)
    (herror : (compiler.compileAt scope (depth + below) node).outcome = .error error) :
    (compiler.compileAt scope depth tree).outcome = .error error := by
  induction h with
  | here => exact herror
  | @inside depth below tag leading before after child hgathers hbefore _ ih =>
    have hchild : (compiler.compileAt scope (depth + 1) child).outcome = .error error :=
      ih (by rwa [Nat.add_right_comm, Nat.add_assoc])
    by_cases hdepth : depth ≤ compiler.maxDepth
    · rw [outcome_compileAt_element scope hdepth]
      refine carryOut_of_gathers hgathers ?_
      rw [← List.append_assoc]
      exact siblingsAt_of_error hbefore hchild
    · -- Beyond the limit the tree and the child fail for the same reason.
      rw [outcome_compileAt_of_deep scope (by omega)] at hchild ⊢
      exact hchild

/-- The name that the items of an `each` get is not bound in its children, even where there are no
items; an `if` that does not hold fails with its children, and a tooltip with what it is about. -/
theorem outcome_compileAt_of_collected_loop :
    let broken : Node := .element ⟨"if", [⟨"c", "x"⟩]⟩ [.text "a"]
    let choice : Node := .element ⟨"if", [⟨"c", "false"⟩]⟩
      [.text "b", broken, .element ⟨"else", []⟩ [.text "c"]]
    let loop : Node := .element ⟨"each", [⟨"of", "[]"⟩, ⟨"as", "x"⟩]⟩ [.text "d", choice]
    let tooltip : Node := .element ⟨"tooltip", [⟨"text", "e"⟩]⟩ [loop, .text "f"]
    let error : CompileError := .expression .conditional "c" (.undefinedVariable "x")
    ((standard 8).compileAt .empty 3 broken).outcome = .error error ∧
      ((standard 8).compileAt .empty 0 tooltip).outcome = .error error := by
  intro broken choice loop tooltip error
  have hbroken : ((standard 8).compileAt .empty 3 broken).outcome = .error error := rfl
  have hchoice : (standard 8).Collected .empty broken 2 choice 1 := by
    refine .inside [.text "b"] (.conditional rfl ?_) ?_ .here
    · intro text htext _
      obtain rfl : "false" = text := Option.some.inj htext
      exact ⟨.bool false, rfl⟩
    · exact List.forall_mem_singleton.mpr ⟨"b", rfl⟩
  have hloop : (standard 8).Collected .empty broken 1 loop 2 := by
    refine .inside [.text "d"] (.each rfl rfl rfl (.inr ⟨[], rfl⟩)) ?_ hchoice
    exact List.forall_mem_singleton.mpr ⟨"d", rfl⟩
  have htooltip : (standard 8).Collected .empty broken 0 tooltip 3 := by
    -- The label of the tooltip comes first.
    refine .inside [] (.wrapped rfl rfl) ?_ hloop
    exact List.forall_mem_singleton.mpr ⟨_, rfl⟩
  exact ⟨hbroken, (standard 8).outcome_compileAt_of_collected .empty htooltip hbroken⟩

end Compiler

end DirectiveMarkup
