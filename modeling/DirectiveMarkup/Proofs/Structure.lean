import DirectiveMarkup.Proofs.Renaming

/-!
# The structure of ordinary documents

The structure of a document is the tree of its elements, with their names and attributes and
without texts. Compiling an ordinary document and reading its html again gives the structure that
the document had, with the names that are renamed replaced.

This is not so for every ordinary document, because html is written without any encoding. A value
that was read between single quotes may hold a double quote, at which it ends when it is read
again. And an angle bracket that was text in front of a dropped declaration or closing tag comes to
stand in front of what followed that. Both are excluded here.
-/

namespace DirectiveMarkup.Markup

open DirectiveMarkup.Expression (Scope)
open DirectiveMarkup.Text (isBlank)

/-! ## Renamed forests -/

/-- Renaming does not change the texts that a forest starts with. -/
theorem leadingText_renameForest (forest : List Node) :
    leadingText (renameForest forest) = leadingText forest := by
  induction forest with
  | nil => rfl
  | cons node rest ih =>
    cases node with
    | text content => exact congrArg (content.toList ++ ·) ih
    | comment body => rfl
    | element tag children => rfl

/-- Raw content and the content of void elements have nothing to rename. -/
theorem rename_of_not_holdsNodes {tag : Tag} {children : List Node}
    (h : (Node.element tag children).wellRead) (hholds : tag.holdsNodes = false) :
    (Node.element tag children).rename = .element tag children := by
  have hname : outputTag tag = tag := by
    rcases outputTag_cases tag with ⟨-, hsame⟩ | ⟨hother, -⟩
    · exact hsame
    · simp [hholds] at hother
  simp only [Node.wellRead, Bool.and_eq_true] at h
  rw [Node.rename, hname]
  obtain ⟨-, hchildren⟩ := h
  split_ifs at hchildren with hvoid hraw
  · rw [List.isEmpty_iff.mp hchildren]
    rfl
  · rcases isRawContent_iff.mp hchildren with rfl | ⟨body, rfl, -, -⟩
    · rfl
    · rfl
  · simp [Tag.holdsNodes, hvoid, hraw] at hholds

mutual

/-- A node that can have been read can have been read under new names. -/
theorem wellRead_rename (node : Node) (h : node.wellRead) : node.rename.wellRead := by
  match node with
  | .text content => exact h
  | .comment body => exact h
  | .element tag children =>
    by_cases hholds : tag.holdsNodes
    · simp only [Node.wellRead, Bool.and_eq_true] at h
      simp only [Tag.holdsNodes, Bool.and_eq_true, Bool.not_eq_true'] at hholds
      have hchildren : wellReadForest children := by simpa [hholds] using h.2
      simp [Node.rename, Node.wellRead, readable_outputTag h.1, hholds,
        wellReadForest_rename children hchildren]
    · rwa [rename_of_not_holdsNodes h (by simpa using hholds)]

/-- A forest that can have been read can have been read under new names. -/
theorem wellReadForest_rename (forest : List Node) (h : wellReadForest forest) :
    wellReadForest (renameForest forest) := by
  match forest with
  | [] => rfl
  | node :: rest =>
    simp only [wellReadForest, Bool.and_eq_true] at h
    rw [renameForest, wellReadForest, wellRead_rename node h.1, wellReadForest_rename rest h.2]
    rfl

end

mutual

/-- Renaming keeps the values of a node. -/
theorem unquoted_rename (node : Node) : node.rename.unquoted = node.unquoted := by
  match node with
  | .text content => rfl
  | .comment body => rfl
  | .element tag children =>
    have hattributes : (outputTag tag).attributes = tag.attributes := rfl
    rw [Node.rename, Node.unquoted, Node.unquoted, hattributes, unquotedForest_rename children]

/-- Renaming keeps the values of a forest. -/
theorem unquotedForest_rename (forest : List Node) :
    unquotedForest (renameForest forest) = unquotedForest forest := by
  match forest with
  | [] => rfl
  | node :: rest =>
    rw [renameForest, unquotedForest, unquotedForest, unquoted_rename node,
      unquotedForest_rename rest]

end

mutual

/-- Renaming keeps the texts of a node. -/
theorem inert_rename (node : Node) : node.rename.inert = node.inert := by
  match node with
  | .text content => rfl
  | .comment body => rfl
  | .element tag children =>
    rw [Node.rename, Node.inert, Node.inert, isRawText_outputTag, inertForest_rename children]

/-- Renaming keeps the texts of a forest. -/
theorem inertForest_rename (forest : List Node) :
    inertForest (renameForest forest) = inertForest forest := by
  match forest with
  | [] => rfl
  | node :: rest =>
    have hopens (following : List Char) :
        opensNothingBefore following node.rename = opensNothingBefore following node := by
      cases node <;> rfl
    rw [renameForest, inertForest, inertForest, inert_rename node, leadingText_renameForest, hopens,
      inertForest_rename rest]

end

/-! ## Structure -/

mutual

/-- The elements of a node, without texts and comments. -/
def Node.skeleton : Node → List Node
  | .element tag children => [.element tag (skeleton children)]
  | _ => []

/-- The elements of a forest, nested as they are, without texts and comments. -/
def skeleton : List Node → List Node
  | [] => []
  | node :: rest => node.skeleton ++ skeleton rest

end

mutual

/-- The structure of a renamed node is the renamed structure. -/
theorem skeleton_rename (node : Node) : node.rename.skeleton = renameForest node.skeleton := by
  match node with
  | .text content => rfl
  | .comment body => rfl
  | .element tag children =>
    rw [Node.rename, Node.skeleton, Node.skeleton, skeleton_renameForest children]
    rfl

/-- The structure of a renamed forest is the renamed structure. -/
theorem skeleton_renameForest (forest : List Node) :
    skeleton (renameForest forest) = renameForest (skeleton forest) := by
  match forest with
  | [] => rfl
  | node :: rest =>
    rw [renameForest, skeleton, skeleton, skeleton_rename node, skeleton_renameForest rest,
      renameForest_eq_map, renameForest_eq_map, renameForest_eq_map, List.map_append]

end

/-- Gluing a node puts its structure in front. -/
theorem skeleton_glue (node : Node) (forest : List Node) :
    skeleton (glue node forest) = node.skeleton ++ skeleton forest := by
  rcases glue_cases node forest with ⟨-, h⟩ | ⟨content, next, rest, rfl, rfl, -, h⟩
  · rw [h, skeleton]
  · rw [h]
    rfl

mutual

/-- Coalescing keeps the structure of a node. -/
theorem skeleton_coalesce (node : Node) : node.coalesce.skeleton = node.skeleton := by
  match node with
  | .text content => rfl
  | .comment body => rfl
  | .element tag children =>
    rw [Node.coalesce, Node.skeleton, Node.skeleton, skeleton_coalesceForest children]

/-- Coalescing keeps the structure of a forest. -/
theorem skeleton_coalesceForest (forest : List Node) :
    skeleton (coalesceForest forest) = skeleton forest := by
  match forest with
  | [] => rfl
  | node :: rest =>
    rw [coalesceForest, skeleton_glue, skeleton_coalesce node, skeleton_coalesceForest rest, skeleton]

end

/-- What is written as blanks has no elements. -/
theorem skeleton_of_blank {forest : List Node} (h : (outerMarkup forest).toList.all isBlank) :
    skeleton forest = [] := by
  induction forest with
  | nil => rfl
  | cons node rest ih =>
    rw [outerMarkup_cons, String.toList_append, List.all_append, Bool.and_eq_true] at h
    have hrest := ih h.2
    cases node with
    | text content => exact hrest
    | comment body => exact hrest
    | element tag children =>
      have hne : ∀ content, Node.element tag children ≠ .text content := by simp
      obtain ⟨inside, hinside⟩ := outer_of_ne_text hne
      have hangle : isBlank '<' = true := by
        rw [hinside, List.all_cons, Bool.and_eq_true] at h
        exact h.1.1
      exact absurd hangle (by decide)

/-- Trimming keeps the structure of a forest. -/
theorem skeleton_trimForest (forest : List Node) :
    skeleton (trimForest forest) = skeleton forest := by
  have hfront : skeleton (trimFront forest) = skeleton forest := by
    induction forest with
    | nil => rfl
    | cons node rest ih =>
      cases node with
      | text content =>
        rw [trimFront]
        split_ifs
        · exact ih
        · rfl
      | comment body => rfl
      | element tag children => rfl
  have hnode (node : Node) : skeleton node.trimBack = node.skeleton := by
    cases node with
    | text content =>
      rw [Node.trimBack]
      split_ifs <;> rfl
    | comment body => rfl
    | element tag children => rfl
  have hback (forest : List Node) : skeleton (trimBack forest) = skeleton forest := by
    induction forest with
    | nil => rfl
    | cons node rest ih =>
      rw [trimBack, skeleton]
      split_ifs with hblank
      · rw [hnode, skeleton_of_blank hblank, List.append_nil]
      · rw [skeleton, ih]
  rw [trimForest, hback, hfront]

/-! ## Documents -/

/-- Compiling an ordinary document and reading the html again keeps the structure of the document,
with tags under their new names and every attribute as it was. -/
theorem skeleton_parse_compile {maxDepth : Nat} (scope : Scope) {markup : String}
    (hordinary : ordinaryForest (parse (Text.trim markup)))
    (hheight : height (parse (Text.trim markup)) ≤ maxDepth + 1)
    (hvalues : unquotedForest (parse (Text.trim markup)))
    (htexts : inertForest (parse (Text.trim markup))) :
    skeleton (parse ((Compiler.standard maxDepth).compile scope false markup).html) =
      renameForest (skeleton (parse (Text.trim markup))) := by
  obtain ⟨hhtml, -⟩ : ((Compiler.standard maxDepth).compile scope false markup).html =
      Text.trim (outerMarkup (renameForest (parse (Text.trim markup)))) ∧ _ :=
    (Compiler.standard maxDepth).compile_of_ordinary scope false rfl hordinary hheight
  have hread := wellReadForest_parse (Text.trim markup)
  rw [hhtml]
  -- From here on only the forest counts, and that it has been read.
  generalize parse (Text.trim markup) = forest at *
  have hcanonical : canonicalForest (coalesceForest (renameForest forest)) :=
    canonicalForest_coalesce _ (wellReadForest_rename forest hread)
      (by rwa [unquotedForest_rename]) (by rwa [inertForest_rename])
  rw [← outerMarkup_coalesceForest, parse_trim hcanonical, skeleton_trimForest,
    skeleton_coalesceForest, skeleton_renameForest]

/-- A quotation with a button in it keeps attributes of every form. -/
theorem skeleton_parse_compile_quotation :
    outerMarkup (skeleton (parse ((Compiler.standard 3).compile .empty false
      "<bq id=1 T='>' x>2<3<Btn></btn><!d></p></bq> ").html)) =
    "<blockquote id=\"1\" T=\">\" x=\"\"><button></button></blockquote>" := by
  rw [skeleton_parse_compile .empty (by decide +kernel) (by decide +kernel) (by decide +kernel)
    (by decide +kernel)]
  decide +kernel

/-- A value that holds a double quote ends early, and an angle bracket opens what followed a dropped
declaration. -/
theorem skeleton_parse_compile_ne :
    let kept : String → Prop := fun markup =>
      skeleton (parse ((Compiler.standard defaultMaxDepth).compile .empty false markup).html) =
        renameForest (skeleton (parse (Text.trim markup)))
    let applies : String → Prop := fun markup =>
      ordinaryForest (parse (Text.trim markup)) ∧
        height (parse (Text.trim markup)) ≤ defaultMaxDepth + 1
    (applies "<a b='x\"y'></a>" ∧ ¬ kept "<a b='x\"y'></a>") ∧
      (applies "<<!x>b>" ∧ ¬ kept "<<!x>b>") := by
  intro kept applies
  refine ⟨⟨⟨by decide +kernel, by decide +kernel⟩, fun h => ?_⟩,
    ⟨⟨by decide +kernel, by decide +kernel⟩, fun h => ?_⟩⟩
  · exact absurd (congrArg outerMarkup h) (by decide +kernel)
  · exact absurd (congrArg outerMarkup h) (by decide +kernel)

end DirectiveMarkup.Markup
