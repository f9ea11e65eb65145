import DirectiveMarkup.Proofs.WellRead

/-!
# Reading again

A forest that has been read may hold texts next to each other, and writing it runs them together.
An angle bracket starts a text of its own, so what is read again is the forest in which a text is
joined to the texts behind it up to one that starts with an angle bracket. This needs two things
of the forest. No value may hold a double quote, which would end it. And an angle bracket that was
only text may not come to stand in front of text with which it opens something; a dropped
declaration or closing tag may have stood between the two.
-/

namespace DirectiveMarkup.Markup

/-- Put a node in front of a forest. A text is joined to a text behind it, unless that one starts
with an angle bracket. -/
def glue : Node → List Node → List Node
  | .text content, .text next :: rest =>
    if endsText next.toList then .text content :: .text next :: rest
    else .text (content ++ next) :: rest
  | node, forest => node :: forest

mutual

/-- A node with the texts inside it joined where writing joins them. -/
def Node.coalesce : Node → Node
  | .element tag children => .element tag (coalesceForest children)
  | node => node

/-- A forest with its texts joined where writing joins them. -/
def coalesceForest : List Node → List Node
  | [] => []
  | node :: rest => glue node.coalesce (coalesceForest rest)

end

/-- The characters of the texts that a forest starts with. -/
def leadingText : List Node → List Char
  | .text content :: rest => content.toList ++ leadingText rest
  | _ => []

/-- True of a node in front of texts, unless it is a text that starts with an angle bracket and
opens something together with them. -/
def opensNothingBefore (following : List Char) : Node → Bool
  | .text content =>
    match content.toList with
    | '<' :: body => opensNothing (body ++ following)
    | _ => true
  | _ => true

mutual

/-- True of a node in which all texts stay texts when it is written. -/
def Node.inert : Node → Bool
  | .element tag children => isRawText tag.name || inertForest children
  | _ => true

/-- True of a forest in which all texts stay texts when it is written. -/
def inertForest : List Node → Bool
  | [] => true
  | node :: rest => node.inert && opensNothingBefore (leadingText rest) node && inertForest rest

end

/-- True of an attribute whose value is not ended by its own characters. -/
def Attribute.unquoted (a : Attribute) : Bool :=
  !a.value.toList.contains '"'

mutual

/-- True of a node in which no value holds a double quote. -/
def Node.unquoted : Node → Bool
  | .element tag children => tag.attributes.all Attribute.unquoted && unquotedForest children
  | _ => true

/-- True of a forest in which no value holds a double quote. -/
def unquotedForest : List Node → Bool
  | [] => true
  | node :: rest => node.unquoted && unquotedForest rest

end

/-- A text is joined to what follows it, or any node is put in front of it. -/
theorem glue_cases (node : Node) (forest : List Node) :
    (runsOn node forest = false ∧ glue node forest = node :: forest) ∨
      ∃ content next rest, node = .text content ∧ forest = .text next :: rest ∧
        endsText next.toList = false ∧ glue node forest = .text (content ++ next) :: rest := by
  match node, forest with
  | .text content, .text next :: rest =>
    by_cases h : endsText next.toList
    · exact .inl ⟨by simp [runsOn, h], by simp [glue, h]⟩
    · exact .inr ⟨content, next, rest, rfl, rfl, by simpa using h, by simp [glue, h]⟩
  | .text content, [] => exact .inl ⟨rfl, rfl⟩
  | .text content, .comment body :: rest => exact .inl ⟨rfl, rfl⟩
  | .text content, .element tag children :: rest => exact .inl ⟨rfl, rfl⟩
  | .comment body, forest => exact .inl ⟨rfl, rfl⟩
  | .element tag children, forest => exact .inl ⟨rfl, rfl⟩

/-! ## What is written -/

/-- Gluing a node writes it in front. -/
theorem outerMarkup_glue (node : Node) (forest : List Node) :
    outerMarkup (glue node forest) = node.outer ++ outerMarkup forest := by
  rcases glue_cases node forest with ⟨-, h⟩ | ⟨content, next, rest, rfl, rfl, -, h⟩
  · rw [h, outerMarkup_cons]
  · simp [h, Node.outer, String.append_assoc]

mutual

/-- A coalesced node is written in the same way. -/
theorem outer_coalesce (node : Node) : node.coalesce.outer = node.outer := by
  match node with
  | .text content => rfl
  | .comment body => rfl
  | .element tag children =>
    rw [Node.coalesce, Node.outer_element, Node.outer_element, outerMarkup_coalesceForest children]

/-- A coalesced forest is written in the same way. -/
theorem outerMarkup_coalesceForest (forest : List Node) :
    outerMarkup (coalesceForest forest) = outerMarkup forest := by
  match forest with
  | [] => rfl
  | node :: rest =>
    rw [coalesceForest, outerMarkup_glue, outer_coalesce node, outerMarkup_coalesceForest rest,
      outerMarkup_cons]

end

/-- Gluing does not change the texts that a forest starts with. -/
theorem leadingText_glue (node : Node) (forest : List Node) :
    leadingText (glue node forest) = leadingText (node :: forest) := by
  rcases glue_cases node forest with ⟨-, h⟩ | ⟨content, next, rest, rfl, rfl, -, h⟩
  · rw [h]
  · simp [h, leadingText]

/-- Coalescing does not change the texts that a forest starts with. -/
theorem leadingText_coalesceForest (forest : List Node) :
    leadingText (coalesceForest forest) = leadingText forest := by
  induction forest with
  | nil => rfl
  | cons node rest ih =>
    rw [coalesceForest, leadingText_glue]
    cases node with
    | text content => exact congrArg (content.toList ++ ·) ih
    | comment body => rfl
    | element tag children => rfl

/-! ## What is read again -/

/-- A text with a text behind it that does not start with an angle bracket is one text, unless an
angle bracket opens something now. -/
theorem isOneText_append {first second : List Char} (hfirst : isOneText first)
    (hsecond : isOneText second) (hstart : endsText second = false)
    (hopens : ∀ body, first = '<' :: body → opensNothing (body ++ second)) :
    isOneText (first ++ second) := by
  cases first with
  | nil => exact hsecond
  | cons c body =>
    cases second with
    | nil => simp [endsText] at hstart
    | cons d rest =>
      simp only [endsText, decide_eq_false_iff_not] at hstart
      simp only [isOneText, Bool.and_eq_true, Bool.not_eq_true', List.contains_eq_mem,
        decide_eq_false_iff_not] at hfirst hsecond
      have hangle : '<' ∉ body ++ d :: rest := by
        simp [hfirst.1, hsecond.1, Ne.symm hstart]
      rw [List.cons_append, isOneText, List.contains_eq_mem, decide_eq_false hangle]
      by_cases hc : c = '<'
      · subst hc
        simp [hopens body rfl]
      · simp [hc]

/-- A tag is read back when it can have been read and its values do not end early. -/
theorem legible_iff_readable {tag : Tag} :
    tag.legible ↔ tag.readable ∧ tag.attributes.all Attribute.unquoted := by
  simp only [Tag.legible, Tag.readable, Bool.and_eq_true, List.all_eq_true, and_assoc]
  refine and_congr_right fun _ => and_congr_right fun _ => ?_
  rw [← forall₂_and]
  refine forall₂_congr fun a _ => ?_
  rw [Attribute.legible, Bool.and_eq_true]
  rfl

/-- Gluing a node keeps a forest canonical, if the texts that it joins open nothing. -/
theorem canonicalForest_glue {node : Node} {forest : List Node} (hnode : node.canonical)
    (hopens : opensNothingBefore (leadingText forest) node) (h : canonicalForest forest) :
    canonicalForest (glue node forest) := by
  rcases glue_cases node forest with ⟨hrun, hglue⟩ | ⟨content, next, rest, rfl, rfl, hstart, hglue⟩
  · rw [hglue, canonicalForest, hnode, hrun, h]
    rfl
  · simp only [canonicalForest, Node.canonical, Bool.and_eq_true] at h hnode
    obtain ⟨⟨hnext, hrun⟩, hrest⟩ := h
    have hjoined : isOneText (content ++ next).toList := by
      rw [String.toList_append]
      refine isOneText_append hnode hnext hstart fun body hbody => ?_
      simp only [opensNothingBefore, hbody, leadingText] at hopens
      exact opensNothing_of_begins ⟨leadingText rest, by simp⟩ hopens
    rw [hglue, canonicalForest, Node.canonical, hjoined, runsOn_text _ next, hrun, hrest]
    rfl

mutual

/-- A coalesced node is canonical. -/
theorem canonical_coalesce (node : Node) (hread : node.wellRead) (hvalues : node.unquoted)
    (hinert : node.inert) : node.coalesce.canonical := by
  match node with
  | .text content => exact hread
  | .comment body => exact hread
  | .element tag children =>
    simp only [Node.wellRead, Bool.and_eq_true] at hread
    simp only [Node.unquoted, Bool.and_eq_true] at hvalues
    obtain ⟨htag, hchildren⟩ := hread
    rw [Node.coalesce, Node.canonical, legible_iff_readable.mpr ⟨htag, hvalues.1⟩, Bool.true_and]
    split_ifs at hchildren ⊢ with hvoid hraw
    · rw [List.isEmpty_iff.mp hchildren]
      rfl
    · have hsame : coalesceForest children = children := by
        rcases isRawContent_iff.mp hchildren with rfl | ⟨body, rfl, -, -⟩
        · rfl
        · rfl
      rwa [hsame]
    · have hinside : inertForest children := by simpa [Node.inert, hraw] using hinert
      exact canonicalForest_coalesce children hchildren hvalues.2 hinside

/-- A coalesced forest is canonical. -/
theorem canonicalForest_coalesce (forest : List Node) (hread : wellReadForest forest)
    (hvalues : unquotedForest forest) (hinert : inertForest forest) :
    canonicalForest (coalesceForest forest) := by
  match forest with
  | [] => rfl
  | node :: rest =>
    simp only [wellReadForest, unquotedForest, inertForest, Bool.and_eq_true] at hread hvalues hinert
    refine canonicalForest_glue (canonical_coalesce node hread.1 hvalues.1 hinert.1.1) ?_
      (canonicalForest_coalesce rest hread.2 hvalues.2 hinert.2)
    rw [leadingText_coalesceForest]
    cases node with
    | text content => exact hinert.1.2
    | comment body => rfl
    | element tag children => rfl

end

end DirectiveMarkup.Markup
