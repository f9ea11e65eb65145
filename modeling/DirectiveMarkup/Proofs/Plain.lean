import DirectiveMarkup.Proofs.PartialFailure
import DirectiveMarkup.Proofs.Substitution

/-!
# Plain forests

A forest is ordinary when it has no comments and no tag in it stands for a directive, and plain
when no tag is renamed either. With levels enough for its height, an ordinary forest compiles, in
every scope, to what is written for it under the new names, and a plain one to what is written for
it. Being plain, and the height, depend on tag names and shape only, so a filled forest is plain
and as high as before.
-/

namespace DirectiveMarkup

open Expression (Scope)
open Markup (Node Tag isVoid outerMarkup fillForest settleForest)

namespace Markup

mutual

/-- True of a node without comments and directives. -/
def Node.ordinary : Node → Bool
  | .text _ => true
  | .comment _ => false
  | .element tag children =>
    (Directive.ofTag? (Text.toLower tag.name)).isNone && ordinaryForest children

/-- True of a forest without comments and directives. -/
def ordinaryForest : List Node → Bool
  | [] => true
  | node :: rest => node.ordinary && ordinaryForest rest

end

mutual

/-- A node with its tags under their new names. -/
def Node.rename : Node → Node
  | .element tag children => .element (outputTag tag) (renameForest children)
  | node => node

/-- A forest with its tags under their new names. -/
def renameForest : List Node → List Node
  | [] => []
  | node :: rest => node.rename :: renameForest rest

end

mutual

/-- True of a node without comments, directives and tags that are renamed. -/
def Node.plain : Node → Bool
  | .text _ => true
  | .comment _ => false
  | .element tag children =>
    (Directive.ofTag? (Text.toLower tag.name)).isNone &&
      (outputTag? (Text.toLower tag.name)).isNone && plainForest children

/-- True of a forest without comments, directives and tags that are renamed. -/
def plainForest : List Node → Bool
  | [] => true
  | node :: rest => node.plain && plainForest rest

end

mutual

/-- The number of nodes on the longest way down from a node, its own included. -/
def Node.height : Node → Nat
  | .element _ children => height children + 1
  | _ => 1

/-- The number of nodes on the longest way down in a forest. -/
def height : List Node → Nat
  | [] => 0
  | node :: rest => max node.height (height rest)

end

/-- A forest is ordinary when its nodes are. -/
theorem ordinaryForest_iff {forest : List Node} :
    ordinaryForest forest ↔ ∀ node ∈ forest, node.ordinary := by
  induction forest with
  | nil => simp [ordinaryForest]
  | cons node rest ih => simp [ordinaryForest, ih]

/-- A forest is renamed node by node. -/
theorem renameForest_eq_map (forest : List Node) : renameForest forest = forest.map Node.rename := by
  induction forest with
  | nil => rfl
  | cons node rest ih => rw [renameForest, ih, List.map_cons]

/-- A forest is plain when its nodes are. -/
theorem plainForest_iff {forest : List Node} :
    plainForest forest ↔ ∀ node ∈ forest, node.plain := by
  induction forest with
  | nil => simp [plainForest]
  | cons node rest ih => simp [plainForest, ih]

/-- A forest is as high as its highest node. -/
theorem height_le_iff {forest : List Node} {levels : Nat} :
    height forest ≤ levels ↔ ∀ node ∈ forest, node.height ≤ levels := by
  induction forest with
  | nil => simp [height]
  | cons node rest ih => rw [height, Nat.max_le, ih, List.forall_mem_cons]

mutual

/-- A plain node is ordinary and keeps its names. -/
theorem ordinary_of_plain (node : Node) (h : node.plain) : node.ordinary ∧ node.rename = node := by
  match node with
  | .text content => exact ⟨rfl, rfl⟩
  | .comment body => simp [Node.plain] at h
  | .element tag children =>
    simp only [Node.plain, Bool.and_eq_true, Option.isNone_iff_eq_none] at h
    obtain ⟨⟨hdirective, houtput⟩, hchildren⟩ := h
    obtain ⟨hordinary, hrename⟩ := ordinaryForest_of_plain children hchildren
    rw [Node.ordinary, hdirective, hordinary, Node.rename, outputTag_eq houtput, hrename]
    exact ⟨rfl, rfl⟩

/-- A plain forest is ordinary and keeps its names. -/
theorem ordinaryForest_of_plain (forest : List Node) (h : plainForest forest) :
    ordinaryForest forest ∧ renameForest forest = forest := by
  match forest with
  | [] => exact ⟨rfl, rfl⟩
  | node :: rest =>
    simp only [plainForest, Bool.and_eq_true] at h
    obtain ⟨hnode, hnodeRename⟩ := ordinary_of_plain node h.1
    obtain ⟨hrest, hrestRename⟩ := ordinaryForest_of_plain rest h.2
    rw [ordinaryForest, hnode, hrest, renameForest, hnodeRename, hrestRename]
    exact ⟨rfl, rfl⟩

end

section Fill

variable (value : List Char → List Char)

mutual

/-- Filling a node keeps it plain. -/
theorem plain_fill (node : Node) : (node.fill value).plain = node.plain := by
  match node with
  | .text content => rfl
  | .comment body => rfl
  | .element tag children =>
    have hname : (tag.fill value).name = tag.name := rfl
    rw [Node.fill, Node.plain, Node.plain, hname, plainForest_fill children]

/-- Filling a forest keeps it plain. -/
theorem plainForest_fill (forest : List Node) :
    plainForest (fillForest value forest) = plainForest forest := by
  match forest with
  | [] => rfl
  | node :: rest =>
    rw [fillForest, plainForest, plainForest, plain_fill node, plainForest_fill rest]

end

mutual

/-- Filling a node keeps its height. -/
theorem height_fill (node : Node) : (node.fill value).height = node.height := by
  match node with
  | .text content => rfl
  | .comment body => rfl
  | .element tag children => exact congrArg (· + 1) (height_fillForest children)

/-- Filling a forest keeps its height. -/
theorem height_fillForest (forest : List Node) :
    height (fillForest value forest) = height forest := by
  match forest with
  | [] => rfl
  | node :: rest => rw [fillForest, height, height, height_fill node, height_fillForest rest]

end

end Fill

mutual

/-- A settled node is plain when the node is. -/
theorem plain_settle (node : Node) (h : node.plain) : node.settle.plain := by
  match node with
  | .text content => rfl
  | .comment body => exact h
  | .element tag children =>
    simp only [Node.plain, Bool.and_eq_true] at h
    rw [Node.settle, Node.plain, h.1.1, h.1.2, plainForest_settle children h.2]
    rfl

/-- A settled forest is plain when the forest is. -/
theorem plainForest_settle (forest : List Node) (h : plainForest forest) :
    plainForest (settleForest forest) := by
  match forest with
  | [] => rfl
  | node :: rest =>
    simp only [plainForest, Bool.and_eq_true] at h
    exact plainForest_iff.mpr (forall_mem_attach (fun _ _ _ => rfl) (plain_settle node h.1)
      (plainForest_iff.mp (plainForest_settle rest h.2)))

end

mutual

/-- Settling makes a node no higher. -/
theorem height_settle_le (node : Node) : node.settle.height ≤ node.height := by
  match node with
  | .text content => exact Nat.le_refl _
  | .comment body => exact Nat.le_refl _
  | .element tag children => exact Nat.succ_le_succ (height_settleForest_le children)

/-- Settling makes a forest no higher. -/
theorem height_settleForest_le (forest : List Node) :
    height (settleForest forest) ≤ height forest := by
  match forest with
  | [] => exact Nat.le_refl _
  | node :: rest =>
    have hnode : node.settle.height ≤ height (node :: rest) :=
      Nat.le_trans (height_settle_le node) (Nat.le_max_left _ _)
    have hrest : height (settleForest rest) ≤ height (node :: rest) :=
      Nat.le_trans (height_settleForest_le rest) (Nat.le_max_right _ _)
    exact height_le_iff.mpr (forall_mem_attach (fun _ _ h => h) hnode (height_le_iff.mp hrest))

end

end Markup

/-! ## Compiling ordinary forests -/

namespace Compiler

variable (compiler : Compiler) (scope : Scope)

mutual

/-- An ordinary node compiles to what is written for it under the new names. -/
theorem outcome_compileWithin_ordinary (node : Node) (levels : Nat) (hordinary : node.ordinary)
    (hheight : node.height ≤ levels) :
    (compiler.compileWithin scope levels node).outcome = .ok (.markup node.rename.outer) := by
  cases levels with
  | zero => cases node <;> simp [Node.height] at hheight
  | succ levels =>
    match node with
    | .text content => rfl
    | .comment body => simp [Node.ordinary] at hordinary
    | .element tag children =>
      simp only [Node.ordinary, Bool.and_eq_true, Option.isNone_iff_eq_none] at hordinary
      obtain ⟨hdirective, hchildren⟩ := hordinary
      have hinner := siblings_ordinary children levels hchildren
        (Nat.le_of_succ_le_succ (by simpa [Node.height] using hheight))
      rw [outcome_compileWithin_element, treatment, hdirective]
      change wrapElement (compiler.siblings scope levels) (outputTag tag) children = _
      rw [wrapElement, hinner, Node.rename, Node.outer_element]
      split_ifs <;> rfl

/-- An ordinary forest compiles to what is written for it under the new names. -/
theorem siblings_ordinary (forest : List Node) (levels : Nat)
    (hordinary : Markup.ordinaryForest forest) (hheight : Markup.height forest ≤ levels) :
    compiler.siblings scope levels forest = .ok (outerMarkup (Markup.renameForest forest)) := by
  match forest with
  | [] => rfl
  | node :: rest =>
    simp only [Markup.ordinaryForest, Bool.and_eq_true] at hordinary
    rw [Markup.height, Nat.max_le] at hheight
    rw [siblings_cons, outcome_compileWithin_ordinary node levels hordinary.1 hheight.1]
    change (node.rename.outer ++ ·) <$> compiler.siblings scope levels rest = _
    rw [siblings_ordinary rest levels hordinary.2 hheight.2, Markup.renameForest,
      Markup.outerMarkup_cons]
    rfl

end

/-- A plain forest compiles to what is written for it. -/
theorem siblings_plain (forest : List Node) (levels : Nat) (hplain : Markup.plainForest forest)
    (hheight : Markup.height forest ≤ levels) :
    compiler.siblings scope levels forest = .ok (outerMarkup forest) := by
  obtain ⟨hordinary, hrename⟩ := Markup.ordinaryForest_of_plain forest hplain
  rw [compiler.siblings_ordinary scope forest levels hordinary hheight, hrename]

/-- The html of a document that is read as an ordinary forest is that forest under the new names,
and nothing fails. -/
theorem compile_of_ordinary {markup : String} {forest : List Node} (branding : Bool)
    (hparse : compiler.parse (Text.trim markup) = .ok forest)
    (hordinary : Markup.ordinaryForest forest) (hheight : Markup.height forest ≤ compiler.maxDepth + 1) :
    let report := compiler.compile scope branding markup
    report.html = brand branding (Text.trim (outerMarkup (Markup.renameForest forest))) ∧
      report.failures = [] := by
  have hnodes : ∀ node ∈ forest,
      (compiler.compileNode scope node).outcome = .ok (.markup node.rename.outer) := fun node hmem =>
    compiler.outcome_compileWithin_ordinary scope node _
      (Markup.ordinaryForest_iff.mp hordinary node hmem) (Markup.height_le_iff.mp hheight node hmem)
  obtain ⟨hpieces, hfailures, -⟩ := compileTop_of_forall_markup hnodes 0
  have hwritten : String.join (forest.map fun node => node.rename.outer) =
      outerMarkup (Markup.renameForest forest) := by
    rw [outerMarkup, Markup.outers_eq_map, Markup.renameForest_eq_map, List.map_map]
    rfl
  rw [compile_of_parse compiler scope branding hparse]
  dsimp only
  rw [hpieces, hwritten]
  exact ⟨rfl, hfailures⟩

end Compiler

end DirectiveMarkup
