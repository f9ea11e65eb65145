import DirectiveMarkup.Compile.Report
import DirectiveMarkup.Proofs.Treatment

/-!
# Depth and its limit

A node is compiled at a depth, and what is inside it one deeper; so the levels that are left say
how deep a node stands. The limit has one effect only: a node beyond it fails, and that failure is
never taken back. A run that does not end in it is therefore the run under any larger limit, in its
notices too.

The parser and the evaluator may answer anything. In particular the forests that `inter` and `each`
read need not be parts of what is compiled, and the comparison of the two runs does not use that
they are.
-/

namespace DirectiveMarkup

open Expression (Scope)
open Markup (Node Tag)

/-! ## Computations up to a failure -/

namespace Reported

/-- Two computations are the same, or the first of them ends in that failure. -/
def SameOrFails (failure : CompileError) {α : Type} (first second : Reported α) : Prop :=
  first = second ∨ first.outcome = .error failure

namespace SameOrFails

variable {failure : CompileError} {α β : Type}

/-- A computation is the same as itself. -/
theorem refl (x : Reported α) : SameOrFails failure x x :=
  .inl rfl

/-- Going on in the same way keeps computations the same, unless one of the steps fails. -/
theorem bind {first second : Reported α} {f g : α → Reported β}
    (h : SameOrFails failure first second)
    (hfg : ∀ value, SameOrFails failure (f value) (g value)) :
    SameOrFails failure (first >>= f) (second >>= g) := by
  rcases h with rfl | hfailed
  · obtain ⟨notices, outcome⟩ := first
    cases outcome with
    | error error => exact .inl rfl
    | ok value =>
      rcases hfg value with hsame | hfailed
      · refine .inl ?_
        change Reported.mk (notices ++ (f value).notices) (f value).outcome = _
        rw [hsame]
        rfl
      · exact .inr hfailed
  · refine .inr ?_
    rw [outcome_bind, hfailed]
    rfl

end SameOrFails

end Reported

namespace Compiler

open Reported (SameOrFails)

variable (compiler : Compiler) (scope : Scope)

/-! ## Compiling at a depth -/

/-- Compile a node that stands at that depth. The outermost nodes stand at depth 0. -/
def compileAt (depth : Nat) (node : Node) : Reported Fragment :=
  compiler.compileWithin scope (compiler.maxDepth + 1 - depth) node

/-- What siblings at that depth compile to, up to a halt. -/
def siblingsAt (depth : Nat) (nodes : List Node) : Except CompileError String :=
  compiler.siblings scope (compiler.maxDepth + 1 - depth) nodes

section At

variable {compiler} {depth : Nat}

/-- A node beyond the limit fails. -/
theorem outcome_compileAt_of_deep (h : compiler.maxDepth < depth) (node : Node) :
    (compiler.compileAt scope depth node).outcome = .error (.nestingTooDeep compiler.maxDepth) := by
  have hlevels : compiler.maxDepth + 1 - depth = 0 := by omega
  rw [compileAt, hlevels, outcome_compileWithin_zero]

/-- A text within the limit compiles to itself. -/
theorem outcome_compileAt_text (h : depth ≤ compiler.maxDepth) (content : String) :
    (compiler.compileAt scope depth (.text content)).outcome = .ok (.markup content) := by
  rw [compileAt, Nat.succ_sub h, outcome_compileWithin_text]

/-- A comment within the limit compiles to nothing. -/
theorem outcome_compileAt_comment (h : depth ≤ compiler.maxDepth) (body : String) :
    (compiler.compileAt scope depth (.comment body)).outcome = .ok (.markup "") := by
  rw [compileAt, Nat.succ_sub h, outcome_compileWithin_comment]

/-- An element within the limit compiles by its treatment, its children one deeper. -/
theorem outcome_compileAt_element (h : depth ≤ compiler.maxDepth) (tag : Tag)
    (children : List Node) :
    (compiler.compileAt scope depth (.element tag children)).outcome =
      compiler.carryOut scope (compiler.siblingsAt scope (depth + 1)) tag children
        (treatment tag children) := by
  have hinside : compiler.siblingsAt scope (depth + 1) =
      compiler.siblings scope (compiler.maxDepth - depth) := by
    funext nodes
    rw [siblingsAt, Nat.add_sub_add_right]
  rw [compileAt, Nat.succ_sub h, outcome_compileWithin_element, hinside]

/-- Siblings compile one after the other at their depth, up to a halt. -/
theorem siblingsAt_cons (node : Node) (rest : List Node) :
    compiler.siblingsAt scope depth (node :: rest) =
      (compiler.compileAt scope depth node).outcome >>= fun
        | .halt => .ok ""
        | .markup text => (text ++ ·) <$> compiler.siblingsAt scope depth rest :=
  compiler.siblings_cons scope _ node rest

end At

/-! ## A larger limit -/

/-- The compiler with that limit in place of its own. -/
def withMaxDepth (limit : Nat) : Compiler :=
  { compiler with maxDepth := limit }

section Rules

variable {failure : CompileError} {inner inner' : List Node → Reported String}
  (h : ∀ nodes, SameOrFails failure (inner nodes) (inner' nodes)) (limit : Nat)
include h

/-- A plain element is the same around children that are. -/
theorem plainElement_sameOrFails (tag : Tag) (children : List Node) :
    SameOrFails failure (plainElement inner tag children) (plainElement inner' tag children) := by
  unfold plainElement
  dsimp only
  split
  · exact .refl _
  · exact (h children).bind fun text => .refl _

/-- An `if` is the same if its branches are. -/
theorem conditionalElement_sameOrFails (tag : Tag) (children : List Node) :
    SameOrFails failure (compiler.conditionalElement scope inner tag children)
      ((compiler.withMaxDepth limit).conditionalElement scope inner' tag children) := by
  have helse := plainElement_sameOrFails h (.withClass "div" "fy-else") (alternativeOf children)
  unfold conditionalElement
  cases sourceOf? tag "c" with
  | none => exact (h children).bind fun consequent => helse
  | some source =>
    refine SameOrFails.bind (.refl _) fun holds => (h children).bind fun consequent => ?_
    cases holds with
    | true => exact .refl _
    | false => exact helse

/-- An `inter` is the same if the forest that it reads is. -/
theorem interpolationElement_sameOrFails (tag : Tag) (children : List Node) :
    SameOrFails failure (compiler.interpolationElement scope inner tag children)
      ((compiler.withMaxDepth limit).interpolationElement scope inner' tag children) :=
  SameOrFails.bind (.refl _) fun _ => .bind (.refl _) fun _ => .bind (.refl _) fun forest =>
    plainElement_sameOrFails h _ forest

/-- An `each` is the same if its children and the forest that it reads are. -/
theorem eachElement_sameOrFails (tag : Tag) (children : List Node) :
    SameOrFails failure (compiler.eachElement scope inner tag children)
      ((compiler.withMaxDepth limit).eachElement scope inner' tag children) := by
  refine SameOrFails.bind (.refl _) fun items => (h children).bind fun body => ?_
  have htexts : (compiler.withMaxDepth limit).iterations scope tag body 0 items =
      compiler.iterations scope tag body 0 items := iterations_congr (by rfl) _ _ _ _ _
  rw [htexts]
  exact .bind (.refl _) fun texts => .bind (.refl _) fun forest =>
    plainElement_sameOrFails h _ forest

/-- An element is the same if what is inside it is, whatever the limit. -/
theorem compileElement_sameOrFails (tag : Tag) (children : List Node) :
    SameOrFails failure (compiler.compileElement scope inner tag children)
      ((compiler.withMaxDepth limit).compileElement scope inner' tag children) := by
  unfold compileElement
  cases Directive.ofTag? (Text.toLower tag.name) with
  | none => exact plainElement_sameOrFails h tag children
  | some directive =>
    cases directive with
    | first => exact plainElement_sameOrFails h _ children
    | tooltip => exact plainElement_sameOrFails h _ _
    | conditional => exact conditionalElement_sameOrFails compiler scope h limit tag children
    | interpolation => exact interpolationElement_sameOrFails compiler scope h limit tag children
    | group =>
      dsimp only
      split
      · exact .refl _
      · exact plainElement_sameOrFails h tag children
    | each =>
      dsimp only
      split
      · exact eachElement_sameOrFails compiler scope h limit tag children
      · exact plainElement_sameOrFails h tag children
    | _ =>
      -- Nothing inside is compiled, so nothing depends on the limit.
      dsimp only
      exact .refl _

end Rules

/-- Siblings are the same if each of them is. -/
theorem collect_sameOrFails {failure : CompileError} {compile compile' : Node → Reported Fragment}
    (h : ∀ node, SameOrFails failure (compile node) (compile' node)) (nodes : List Node) :
    SameOrFails failure (collect compile nodes) (collect compile' nodes) := by
  induction nodes with
  | nil => exact .refl _
  | cons node rest ih =>
    refine (h node).bind fun fragment => ?_
    cases fragment with
    | halt => exact .refl _
    | markup text => exact ih.bind fun texts => .refl _

/-- With more levels left and a larger limit a node compiles as before, unless it was nested too
deep. -/
theorem compileWithin_sameOrFails (limit : Nat) {levels levels' : Nat} (h : levels ≤ levels')
    (node : Node) :
    SameOrFails (.nestingTooDeep compiler.maxDepth) (compiler.compileWithin scope levels node)
      ((compiler.withMaxDepth limit).compileWithin scope levels' node) := by
  -- The forests that are read again are no parts of the node, so the induction is on the levels.
  induction levels generalizing levels' node with
  | zero => exact .inr rfl
  | succ levels ih =>
    obtain ⟨more, rfl⟩ : ∃ more, levels' = more + 1 := ⟨levels' - 1, by omega⟩
    cases node with
    | text content => exact .refl _
    | comment body => exact .refl _
    | element tag children =>
      refine compileElement_sameOrFails compiler scope (fun nodes => ?_) limit tag children
      exact (collect_sameOrFails (ih (Nat.le_of_succ_le_succ h)) nodes).bind fun texts => .refl _

/-- A pass without a certain failure is the pass of every compilation that is the same up to that
failure. -/
theorem compileTop_eq_of_sameOrFails {failure : CompileError}
    {compile compile' : Node → Reported Fragment}
    (h : ∀ node, SameOrFails failure (compile node) (compile' node)) {index : Nat}
    {nodes : List Node}
    (hfailures : ∀ failed ∈ (compileTop compile index nodes).failures, failed.error ≠ failure) :
    compileTop compile' index nodes = compileTop compile index nodes := by
  induction nodes generalizing index with
  | nil => rfl
  | cons node rest ih =>
    rw [compileTop] at hfailures
    rw [compileTop, compileTop]
    rcases h node with hsame | hfailed
    · rw [← hsame]
      cases houtcome : (compile node).outcome with
      | error error =>
        rw [houtcome] at hfailures
        simp only [ih fun failed hmem => hfailures failed (List.mem_cons_of_mem _ hmem)]
      | ok fragment =>
        rw [houtcome] at hfailures
        cases fragment with
        | halt => rfl
        | markup text => simp only [ih hfailures]
    · rw [hfailed] at hfailures
      exact absurd rfl (hfailures ⟨index, failure⟩ List.mem_cons_self)

/-- The limit only ever adds failures: a node that is not nested too deep compiles in the same way
under every larger limit, and a document without such a node has the same report. -/
theorem compile_withMaxDepth {limit : Nat} (hlimit : compiler.maxDepth ≤ limit) :
    (∀ node, (compiler.compileNode scope node).outcome ≠
        .error (.nestingTooDeep compiler.maxDepth) →
      (compiler.withMaxDepth limit).compileNode scope node = compiler.compileNode scope node) ∧
    ∀ branding markup,
      (∀ failed ∈ (compiler.compile scope branding markup).failures,
        failed.error ≠ .nestingTooDeep compiler.maxDepth) →
      (compiler.withMaxDepth limit).compile scope branding markup =
        compiler.compile scope branding markup := by
  have hsame (node : Node) : SameOrFails (.nestingTooDeep compiler.maxDepth)
      (compiler.compileNode scope node) ((compiler.withMaxDepth limit).compileNode scope node) :=
    compileWithin_sameOrFails compiler scope limit (Nat.succ_le_succ hlimit) node
  refine ⟨fun node hnode => ((hsame node).resolve_right hnode).symm, ?_⟩
  intro branding markup hfailures
  have hparse : (compiler.withMaxDepth limit).parse (Text.trim markup) =
      compiler.parse (Text.trim markup) := rfl
  unfold compile at hfailures ⊢
  rw [hparse]
  cases hnodes : compiler.parse (Text.trim markup) with
  | error error => rfl
  | ok nodes =>
    rw [hnodes] at hfailures
    simp only [compileTop_eq_of_sameOrFails hsame hfailures]

/-- A paragraph and a condition on a name that is not bound: the one failure is another one. -/
theorem compile_withMaxDepth_unbound :
    let paragraph : Node := .element ⟨"p", []⟩ [.text "a"]
    let markup := "<p>a</p><if c=missing>b</if>"
    ((standard 8).compileNode .empty paragraph = (standard 1).compileNode .empty paragraph) ∧
      ((standard 1).compile .empty false markup).failures =
        [⟨1, .expression .conditional "c" (.undefinedVariable "missing")⟩] ∧
      (standard 8).compile .empty false markup = (standard 1).compile .empty false markup := by
  intro paragraph markup
  obtain ⟨hnode, hreport⟩ :=
    (standard 1).compile_withMaxDepth .empty (by decide : (standard 1).maxDepth ≤ 8)
  have hparagraph : ((standard 1).compileNode .empty paragraph).outcome ≠ .error (.nestingTooDeep 1) :=
    fun h => nomatch h
  have hfailures : ((standard 1).compile .empty false markup).failures =
      [⟨1, .expression .conditional "c" (.undefinedVariable "missing")⟩] := by
    decide +kernel
  refine ⟨hnode paragraph hparagraph, hfailures, hreport false markup ?_⟩
  rw [hfailures]
  exact List.forall_mem_singleton.mpr fun h => nomatch h

end Compiler

end DirectiveMarkup
