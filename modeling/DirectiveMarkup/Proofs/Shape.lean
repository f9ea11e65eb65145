import DirectiveMarkup.Proofs.Canonical
import DirectiveMarkup.Proofs.WellRead

/-!
# The shape of read forests

What a node of a forest that has been read may look like, wherever it stands: what texts, comments
and names consist of, and which elements may have children. A text in a raw-text element may hold
angle brackets; any other text has one at most in front. Markup that is cut off, stray slashes and
closing tags in another case make no difference to this.

The shape of a node depends on the element around it, so nodes are followed down a forest together
with the tag that they stand in.
-/

namespace DirectiveMarkup.Markup

open DirectiveMarkup.Text (isBlank)

/-- A node stands at the top of a forest, or in an element with some tag that stands in it. -/
inductive Stands (forest : List Node) : (around : Option Tag) → Node → Prop
  | top {node : Node} : node ∈ forest → Stands forest none node
  | inside {around : Option Tag} {tag : Tag} {children : List Node} {node : Node} :
      Stands forest around (.element tag children) → node ∈ children →
      Stands forest (some tag) node

/-- An attribute name is not empty and has no blanks, equals signs, slashes and closing angle
brackets. -/
structure IsAttributeName (name : List Char) : Prop where
  named : name ≠ []
  inside : ∀ c ∈ name, isBlank c = false ∧ c ≠ '=' ∧ c ≠ '>' ∧ c ≠ '/'

/-- True when the element around a node is a raw-text element. -/
def InRawText (around : Option Tag) : Prop :=
  ∃ tag ∈ around, isRawText tag.name

/-- The shape of a node that stands in an element with some tag, or at the top. -/
def Node.Shaped (around : Option Tag) : Node → Prop
  | .text content => content ≠ "" ∧ (¬ InRawText around → '<' ∉ content.toList.tail)
  | .comment body => ¬ "-->".toList <:+: body.toList
  | .element tag children =>
    IsTagName tag.name.toList ∧ (∀ a ∈ tag.attributes, IsAttributeName a.name.toList) ∧
      (isVoid tag.name → children = []) ∧
      (isRawText tag.name → children = [] ∨ ∃ body, children = [.text body] ∧
        ¬ ("</" ++ asciiLower tag.name).toList <:+: (asciiLower body).toList)

/-- The name of a readable attribute is an attribute name. -/
theorem isAttributeName_of_readable {a : Attribute} (h : a.readable) :
    IsAttributeName a.name.toList := by
  simp only [Attribute.readable, Bool.and_eq_true, Bool.not_eq_true', List.all_eq_true,
    isAttributeNameChar, bne_iff_ne, and_assoc] at h
  refine ⟨fun hempty => ?_, h.2⟩
  rw [String.toList_eq_nil_iff] at hempty
  simp [hempty] at h

/-- A text that is read as one lexeme has an angle bracket at most in front. -/
theorem notMem_tail_of_isOneText {content : List Char} (h : isOneText content) :
    content ≠ [] ∧ '<' ∉ content.tail := by
  cases content with
  | nil => simp [isOneText] at h
  | cons c body =>
    simp only [isOneText, Bool.and_eq_true, Bool.not_eq_true', List.contains_eq_mem,
      decide_eq_false_iff_not] at h
    exact ⟨List.cons_ne_nil c body, h.1⟩

/-- A node that can have been read has its shape wherever it stands. -/
theorem Node.shaped_of_wellRead {node : Node} (h : node.wellRead) (around : Option Tag) :
    node.Shaped around := by
  cases node with
  | text content =>
    obtain ⟨hne, htail⟩ := notMem_tail_of_isOneText h
    exact ⟨fun hempty => hne (String.toList_eq_nil_iff.mpr hempty), fun _ => htail⟩
  | comment body =>
    rw [Node.wellRead, Bool.not_eq_true', decide_eq_false_iff_not] at h
    exact h
  | element tag children =>
    rw [Node.wellRead, Bool.and_eq_true, Tag.readable, Bool.and_eq_true, isTagName_iff,
      List.all_eq_true] at h
    obtain ⟨⟨hname, hattributes⟩, hchildren⟩ := h
    refine ⟨hname, fun a ha => isAttributeName_of_readable (hattributes a ha), fun hvoid => ?_,
      fun hraw => ?_⟩
    · simpa [hvoid] using hchildren
    · split_ifs at hchildren with hvoid
      · exact .inl (List.isEmpty_iff.mp hchildren)
      · rcases isRawContent_iff.mp hchildren with hnone | ⟨body, hbody, -, hclosing⟩
        · exact .inl hnone
        · exact .inr ⟨body, hbody, hclosing⟩

/-- A node of a forest that can have been read is a text that is not empty, in a raw-text element,
and can itself have been read anywhere else. -/
theorem Stands.wellRead {forest : List Node} (hforest : wellReadForest forest)
    {around : Option Tag} {node : Node} (h : Stands forest around node) :
    InRawText around ∧ (∃ body, node = .text body ∧ body ≠ "") ∨
      ¬ InRawText around ∧ node.wellRead := by
  induction h with
  | top hmem =>
    have hnone : ¬ InRawText none := by
      rintro ⟨tag, htag, -⟩
      exact nomatch htag
    exact .inr ⟨hnone, wellReadForest_iff.mp hforest _ hmem⟩
  | @inside around tag children node _ hmem ih =>
    -- An element is no text, so the element around the node can itself have been read.
    obtain ⟨-, helement⟩ := ih.resolve_left fun ⟨_, body, htext, _⟩ => nomatch htext
    rw [Node.wellRead, Bool.and_eq_true] at helement
    obtain ⟨-, hchildren⟩ := helement
    split_ifs at hchildren with hvoid hraw
    · rw [List.isEmpty_iff.mp hchildren] at hmem
      exact absurd hmem List.not_mem_nil
    · rcases isRawContent_iff.mp hchildren with rfl | ⟨body, rfl, hne, -⟩
      · exact absurd hmem List.not_mem_nil
      · exact .inl ⟨⟨tag, rfl, hraw⟩, body, List.mem_singleton.mp hmem, hne⟩
    · refine .inr ⟨?_, wellReadForest_iff.mp hchildren node hmem⟩
      rintro ⟨other, hother, hotherRaw⟩
      rw [← Option.some.inj hother] at hotherRaw
      exact hraw hotherRaw

/-- Every node of a forest that is read has its shape. -/
theorem shaped_of_stands_parse {markup : String} {around : Option Tag} {node : Node}
    (h : Stands (parse markup) around node) : node.Shaped around := by
  rcases h.wellRead (wellReadForest_parse markup) with ⟨haround, body, rfl, hne⟩ | ⟨-, hread⟩
  · exact ⟨hne, fun hnone => absurd haround hnone⟩
  · exact Node.shaped_of_wellRead hread around

/-- In markup that is cut off, a raw text holds an angle bracket, and the text behind it has one in
front only. -/
theorem shaped_of_stands_parse_cutOff :
    let forest := parse "<p/=x><STYLE>a<b</style>< 1"
    let style : Node := .element ⟨"STYLE", []⟩ [.text "a<b"]
    Stands forest (some ⟨"p", [⟨"x", ""⟩]⟩) style ∧ style.Shaped (some ⟨"p", [⟨"x", ""⟩]⟩) ∧
      Stands forest (some ⟨"p", [⟨"x", ""⟩]⟩) (.text "< 1") ∧
      (Node.text "< 1").Shaped (some ⟨"p", [⟨"x", ""⟩]⟩) := by
  intro forest style
  have hforest : forest = [.element ⟨"p", [⟨"x", ""⟩]⟩ [style, .text "< 1"]] := rfl
  have hparagraph : Stands forest none (.element ⟨"p", [⟨"x", ""⟩]⟩ [style, .text "< 1"]) :=
    .top (hforest ▸ List.mem_singleton_self _)
  have hstyle : Stands forest (some ⟨"p", [⟨"x", ""⟩]⟩) style :=
    hparagraph.inside List.mem_cons_self
  have htext : Stands forest (some ⟨"p", [⟨"x", ""⟩]⟩) (.text "< 1") :=
    hparagraph.inside (List.mem_cons_of_mem _ List.mem_cons_self)
  exact ⟨hstyle, shaped_of_stands_parse hstyle, htext, shaped_of_stands_parse htext⟩

end DirectiveMarkup.Markup
