import DirectiveMarkup.Proofs.Settling
import Mathlib.Data.List.DropRight

/-!
# Trimming written markup

The html of a document is trimmed as text. On a forest this takes blanks from the texts that stand
at its two ends, and the texts that are blank as a whole; an element or a comment starts and ends
with an angle bracket and stops it. A trimmed canonical forest is canonical, so what is read of
trimmed markup is the trimmed forest.
-/

namespace DirectiveMarkup.Markup

open DirectiveMarkup.Text (isBlank trimChars)

/-- A forest without the blanks that its written form starts with. -/
def trimFront : List Node → List Node
  | .text content :: rest =>
    let kept := content.toList.dropWhile isBlank
    if kept.isEmpty then trimFront rest else .text (.ofList kept) :: rest
  | forest => forest

/-- A node without the blanks that its written form ends with, or nothing if it is all blank. -/
def Node.trimBack : Node → List Node
  | .text content =>
    let kept := content.toList.rdropWhile isBlank
    if kept.isEmpty then [] else [.text (.ofList kept)]
  | node => [node]

/-- A forest without the blanks that its written form ends with. -/
def trimBack : List Node → List Node
  | [] => []
  | node :: rest =>
    if (outerMarkup rest).toList.all isBlank then node.trimBack else node :: trimBack rest

/-- A forest without the blanks at both ends of its written form. -/
def trimForest (forest : List Node) : List Node :=
  trimBack (trimFront forest)

/-! ## What is written -/

/-- A node that is no text is written between angle brackets. -/
theorem outer_of_ne_text {node : Node} (h : ∀ content, node ≠ .text content) :
    ∃ inside, node.outer.toList = '<' :: (inside ++ ['>']) := by
  cases node with
  | text content => exact absurd rfl (h content)
  | comment body => exact ⟨"!--".toList ++ (body.toList ++ "--".toList), by simp [Node.outer]⟩
  | element tag children =>
    rw [Node.outer_element]
    split_ifs
    · exact ⟨tag.name.toList ++ tag.attributesText.toList, by simp [Tag.opening]⟩
    · refine ⟨tag.name.toList ++ (tag.attributesText.toList ++ '>' ::
        ((outerMarkup children).toList ++ ("</".toList ++ tag.name.toList))), ?_⟩
      simp [Tag.opening, Tag.closing]

/-- Dropping at the end of two texts leaves the first alone, unless all of the second is dropped. -/
theorem rdropWhile_append (p : Char → Bool) (first second : List Char) :
    (first ++ second).rdropWhile p =
      if second.all p then first.rdropWhile p else first ++ second.rdropWhile p := by
  have hempty : (second.reverse.dropWhile p).isEmpty = second.all p := by
    rw [Bool.eq_iff_iff, List.isEmpty_iff, List.dropWhile_eq_nil_iff]
    simp
  rw [List.rdropWhile, List.reverse_append, List.dropWhile_append, hempty]
  split_ifs <;> simp [List.rdropWhile]

/-- Trimming a trimmed text changes nothing. -/
theorem trim_trim (text : String) : Text.trim (Text.trim text) = Text.trim text := by
  have hchars (text : List Char) :
      trimChars text = (text.dropWhile isBlank).rdropWhile isBlank := rfl
  rw [← String.toList_inj, Text.toList_trim, Text.toList_trim, hchars, hchars]
  generalize hfront : text.toList.dropWhile isBlank = kept
  obtain ⟨dropped, hkept⟩ : kept.rdropWhile isBlank <+: kept := List.rdropWhile_prefix _ _
  cases hback : kept.rdropWhile isBlank with
  | nil => rfl
  | cons c rest =>
    -- The first character of what is kept is the first that is not blank.
    have hfirst : ¬ isBlank c := by
      have hhead := List.head?_dropWhile_not isBlank text.toList
      rw [hfront, ← hkept, hback] at hhead
      simpa using hhead
    rw [List.dropWhile_cons_of_neg hfirst, ← hback, List.rdropWhile_idempotent]

/-- Trimming a forest in front drops the blanks that its written form starts with. -/
theorem outerMarkup_trimFront (forest : List Node) :
    (outerMarkup (trimFront forest)).toList = (outerMarkup forest).toList.dropWhile isBlank := by
  have hother {node : Node} (h : ∀ content, node ≠ .text content) (rest : List Node) :
      (outerMarkup (node :: rest)).toList =
        (outerMarkup (node :: rest)).toList.dropWhile isBlank := by
    obtain ⟨inside, hinside⟩ := outer_of_ne_text h
    rw [outerMarkup_cons, String.toList_append, hinside, List.cons_append,
      List.dropWhile_cons_of_neg (by decide)]
  induction forest with
  | nil => rfl
  | cons node rest ih =>
    cases node with
    | text content =>
      rw [trimFront, outerMarkup_cons, String.toList_append, List.dropWhile_append, Node.outer]
      split_ifs
      · exact ih
      · simp [Node.outer]
    | comment body => exact hother (by simp) rest
    | element tag children => exact hother (by simp) rest

/-- Trimming a forest behind drops the blanks that its written form ends with. -/
theorem outerMarkup_trimBack (forest : List Node) :
    (outerMarkup (trimBack forest)).toList = (outerMarkup forest).toList.rdropWhile isBlank := by
  induction forest with
  | nil => rfl
  | cons node rest ih =>
    have hlast {node : Node} (h : ∀ content, node ≠ .text content) :
        (outerMarkup [node]).toList = node.outer.toList.rdropWhile isBlank := by
      obtain ⟨inside, hinside⟩ := outer_of_ne_text h
      rw [outerMarkup_cons, outerMarkup_nil, String.append_empty, hinside, ← List.cons_append,
        List.rdropWhile_concat_neg _ _ _ (by decide)]
    rw [outerMarkup_cons, String.toList_append, rdropWhile_append, trimBack]
    split_ifs with hblank
    · cases node with
      | text content =>
        rw [Node.trimBack, Node.outer]
        split_ifs with hkept
        · rw [List.isEmpty_iff.mp hkept]
          rfl
        · simp [Node.outer]
      | comment body => exact hlast (by simp)
      | element tag children => exact hlast (by simp)
    · rw [outerMarkup_cons, String.toList_append, ih]

/-- Writing a trimmed forest is trimming what is written. -/
theorem outerMarkup_trimForest (forest : List Node) :
    outerMarkup (trimForest forest) = Text.trim (outerMarkup forest) := by
  rw [← String.toList_inj, trimForest, outerMarkup_trimBack, outerMarkup_trimFront,
    Text.toList_trim]
  rfl

/-! ## What stays canonical -/

/-- The start of what opens nothing opens nothing. -/
theorem opensNothing_of_begins {first body : List Char} (hbegins : first <+: body)
    (h : opensNothing body) : opensNothing first := by
  obtain ⟨rest, rfl⟩ := hbegins
  cases first with
  | nil => rfl
  | cons c first =>
    by_cases hslash : c = '/'
    · subst hslash
      cases first with
      | nil => rfl
      | cons d first => exact h
    · simpa [opensNothing, hslash] using h

/-- The start of a text, if it is not empty, is a text. -/
theorem isOneText_of_begins {first content : List Char} (hbegins : first <+: content)
    (hne : first ≠ []) (h : isOneText content) : isOneText first := by
  obtain ⟨rest, rfl⟩ := hbegins
  cases first with
  | nil => exact absurd rfl hne
  | cons c first =>
    simp only [List.cons_append, isOneText, Bool.and_eq_true, Bool.not_eq_true',
      List.contains_eq_mem, decide_eq_false_iff_not, Bool.or_eq_true, List.mem_append, not_or]
      at h ⊢
    exact ⟨h.1.1, h.2.imp_right (opensNothing_of_begins (List.prefix_append first rest))⟩

/-- A text without its first blanks, if something is left, is a text. -/
theorem isOneText_dropWhile {content : List Char} (hne : content.dropWhile isBlank ≠ [])
    (h : isOneText content) : isOneText (content.dropWhile isBlank) := by
  cases content with
  | nil => exact absurd rfl hne
  | cons c body =>
    by_cases hblank : isBlank c
    · have hangle : '<' ∉ body := by
        simp only [isOneText, Bool.and_eq_true, Bool.not_eq_true', List.contains_eq_mem,
          decide_eq_false_iff_not] at h
        exact h.1
      rw [List.dropWhile_cons_of_pos hblank] at hne ⊢
      obtain ⟨d, rest, hrest⟩ := List.exists_cons_of_ne_nil hne
      have hkept : '<' ∉ d :: rest := fun hmem =>
        hangle ((List.dropWhile_suffix isBlank).subset (hrest ▸ hmem))
      rw [List.mem_cons, not_or] at hkept
      simp [hrest, isOneText, hkept.2, Ne.symm hkept.1]
    · rwa [List.dropWhile_cons_of_neg hblank]

/-- Trimming in front keeps a forest canonical. -/
theorem canonicalForest_trimFront {forest : List Node} (h : canonicalForest forest) :
    canonicalForest (trimFront forest) := by
  induction forest with
  | nil => rfl
  | cons node rest ih =>
    cases node with
    | text content =>
      simp only [canonicalForest, Node.canonical, Bool.and_eq_true, Bool.not_eq_true'] at h
      obtain ⟨⟨hcontent, hrun⟩, hrest⟩ := h
      rw [trimFront]
      split_ifs with hkept
      · exact ih hrest
      · have hone := isOneText_dropWhile (mt List.isEmpty_iff.mpr hkept) hcontent
        rw [canonicalForest, Node.canonical, String.toList_ofList, hone,
          runsOn_text _ content, hrun, hrest]
        rfl
    | comment body => exact h
    | element tag children => exact h

/-- Trimming a node behind leaves a canonical forest of it. -/
theorem canonicalForest_trimBack_node {node : Node} (h : node.canonical) :
    canonicalForest node.trimBack := by
  have hother {node : Node} (h : node.canonical) : canonicalForest [node] := by
    have hrun : runsOn node [] = false := by cases node <;> rfl
    rw [canonicalForest, h, hrun]
    rfl
  cases node with
  | text content =>
    rw [Node.trimBack]
    split_ifs with hkept
    · rfl
    · refine hother ?_
      rw [Node.canonical, String.toList_ofList]
      exact isOneText_of_begins (List.rdropWhile_prefix _ _) (mt List.isEmpty_iff.mpr hkept) h
  | comment body => exact hother h
  | element tag children => exact hother h

/-- What does not run on does not run on into a trimmed forest. -/
theorem runsOn_trimBack {node : Node} {forest : List Node} (h : runsOn node forest = false) :
    runsOn node (trimBack forest) = false := by
  cases node with
  | comment body => rfl
  | element tag children => rfl
  | text content =>
    cases forest with
    | nil => rfl
    | cons head rest =>
      rw [trimBack]
      split_ifs with hblank
      · cases head with
        | comment body => rfl
        | element tag children => rfl
        | text next =>
          rw [Node.trimBack]
          split_ifs with hkept
          · rfl
          · -- What is left of the next text starts like it.
            obtain ⟨c, kept, hcons⟩ := List.exists_cons_of_ne_nil (mt List.isEmpty_iff.mpr hkept)
            obtain ⟨dropped, hnext⟩ : next.toList.rdropWhile isBlank <+: next.toList :=
              List.rdropWhile_prefix _ _
            rw [hcons] at hnext
            rw [runsOn, ← hnext] at h
            rw [runsOn, String.toList_ofList, hcons]
            exact h
      · cases head <;> exact h

/-- Trimming behind keeps a forest canonical. -/
theorem canonicalForest_trimBack {forest : List Node} (h : canonicalForest forest) :
    canonicalForest (trimBack forest) := by
  induction forest with
  | nil => rfl
  | cons node rest ih =>
    simp only [canonicalForest, Bool.and_eq_true, Bool.not_eq_true'] at h
    obtain ⟨⟨hnode, hrun⟩, hrest⟩ := h
    rw [trimBack]
    split_ifs
    · exact canonicalForest_trimBack_node hnode
    · rw [canonicalForest, hnode, runsOn_trimBack hrun, ih hrest]
      rfl

/-- What is read of the trimmed markup of a canonical forest is the trimmed forest. -/
theorem parse_trim {forest : List Node} (h : canonicalForest forest) :
    parse (Text.trim (outerMarkup forest)) = trimForest forest := by
  rw [← outerMarkup_trimForest, trimForest]
  exact parse_outerMarkup (canonicalForest_trimBack (canonicalForest_trimFront h))

/-- What holds of all nodes of a forest, and of every text if it holds of one, holds of all nodes
that trimming leaves. -/
theorem forall_mem_trimForest {P : Node → Prop} {forest : List Node}
    (htext : ∀ content kept, P (.text content) → P (.text kept)) (h : ∀ node ∈ forest, P node) :
    ∀ node ∈ trimForest forest, P node := by
  have hfront {forest : List Node} (h : ∀ node ∈ forest, P node) :
      ∀ node ∈ trimFront forest, P node := by
    induction forest with
    | nil => exact h
    | cons first rest ih =>
      cases first with
      | text content =>
        rw [List.forall_mem_cons] at h
        rw [trimFront]
        split_ifs
        · exact ih h.2
        · exact List.forall_mem_cons.mpr ⟨htext content _ h.1, h.2⟩
      | comment body => exact h
      | element tag children => exact h
  have hnode {node : Node} (h : P node) : ∀ last ∈ node.trimBack, P last := by
    cases node with
    | text content =>
      rw [Node.trimBack]
      split_ifs
      · exact List.forall_mem_nil _
      · exact List.forall_mem_singleton.mpr (htext content _ h)
    | comment body => exact List.forall_mem_singleton.mpr h
    | element tag children => exact List.forall_mem_singleton.mpr h
  have hback {forest : List Node} (h : ∀ node ∈ forest, P node) :
      ∀ node ∈ trimBack forest, P node := by
    induction forest with
    | nil => exact h
    | cons first rest ih =>
      rw [List.forall_mem_cons] at h
      rw [trimBack]
      split_ifs
      · exact hnode h.1
      · exact List.forall_mem_cons.mpr ⟨h.1, ih h.2⟩
  exact hback (hfront h)

end DirectiveMarkup.Markup
