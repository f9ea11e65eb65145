import DirectiveMarkup.Proofs.Renaming

/-!
# Clean forests

A forest is clean when it can be written and read back, up to the texts that this joins, and when
none of its elements puts markup into the output that is not compiled. Whatever a clean element
compiles to directly, its treatment shows: an element with a tag that stands for nothing but
itself, around nodes that are clean again.
-/

namespace DirectiveMarkup

open Markup (Node Tag isRawText)

namespace Markup

/-- True of a tag that is read back and whose element is compiled inside: no `escape` or `style`,
no `group` that is kept as it is, and no `tooltip` with an angle bracket in its text. -/
def Tag.clean (tag : Tag) : Bool :=
  tag.legible &&
    match Directive.ofTag? (Text.toLower tag.name) with
    | some .escape => false
    | some .style => false
    | some .group => !tag.hasClass "group"
    | some .tooltip => !(tag.attributeOrEmpty "text").toList.contains '<'
    | _ => true

/-- True of no nodes and of one text. -/
def isTextOrEmpty : List Node → Bool
  | [] => true
  | [.text _] => true
  | _ => false

mutual

/-- True of a node of which nothing but plain markup is left. -/
def Node.clean : Node → Bool
  | .text content => !content.toList.contains '<'
  | .comment _ => true
  | .element tag children =>
    tag.clean && (!isRawText tag.name || isTextOrEmpty children) && cleanForest children

/-- True of a forest of which nothing but plain markup is left. -/
def cleanForest : List Node → Bool
  | [] => true
  | node :: rest => node.clean && cleanForest rest

end

/-- A forest is clean when its nodes are. -/
theorem cleanForest_iff {forest : List Node} :
    cleanForest forest ↔ ∀ node ∈ forest, node.clean := by
  induction forest with
  | nil => simp [cleanForest]
  | cons node rest ih => simp [cleanForest, ih]

/-- Clean raw content is legible. -/
theorem legibleForest_of_clean {nodes : List Node} (hcontent : isTextOrEmpty nodes)
    (h : cleanForest nodes) : legibleForest nodes := by
  match nodes with
  | [] => rfl
  | [.text body] => exact h

/-- The alternative of a clean forest is clean. -/
theorem cleanForest_alternativeOf {forest : List Node} (h : cleanForest forest) :
    cleanForest (Compiler.alternativeOf forest) := by
  rcases Compiler.alternativeOf_cases forest with hnil | ⟨tag, hmem⟩
  · rw [hnil]
    rfl
  · have helement := cleanForest_iff.mp h _ hmem
    rw [Node.clean, Bool.and_eq_true] at helement
    exact helement.2

/-! ## Tags that are put out -/

/-- True of a tag that stands for no directive and is not renamed. -/
def Tag.plain (tag : Tag) : Bool :=
  (Directive.ofTag? (Text.toLower tag.name)).isNone && (outputTag? (Text.toLower tag.name)).isNone

/-- A tag that is put out by a directive: it is read back, is plain, and holds no raw text. -/
structure IsWrapper (tag : Tag) : Prop where
  legible : tag.legible
  plain : tag.plain
  notRaw : isRawText tag.name = false

/-- A wrapper is clean. -/
theorem IsWrapper.clean {tag : Tag} (h : IsWrapper tag) : tag.clean := by
  have hplain := h.plain
  rw [Tag.plain, Bool.and_eq_true, Option.isNone_iff_eq_none] at hplain
  rw [Tag.clean, h.legible, hplain.1]
  rfl

/-- Elements that stand in for directives are wrappers, if their values do not end early. -/
theorem isWrapper_of_name {name : String} {attributes : List Attribute}
    (hname : IsWrapper ⟨name, []⟩) (hattributes : attributes.all Attribute.legible) :
    IsWrapper ⟨name, attributes⟩ := by
  refine ⟨?_, hname.plain, hname.notRaw⟩
  have hlegible := hname.legible
  rw [Tag.legible, Bool.and_eq_true] at hlegible ⊢
  exact ⟨hlegible.1, hattributes⟩

/-- An attribute with a name that is read back is legible if its value does not end early. -/
theorem legible_attribute {name value : String}
    (hname : !name.isEmpty && name.toList.all isAttributeNameChar) (hvalue : '"' ∉ value.toList) :
    (Attribute.mk name value).legible := by
  rw [Attribute.legible, hname]
  simpa using hvalue

/-- A class without double quotes is legible. -/
theorem legible_class {token : String} (h : '"' ∉ token.toList) :
    [Attribute.mk "class" token].all Attribute.legible :=
  List.all_eq_true.mpr (List.forall_mem_singleton.mpr (legible_attribute (by decide) h))

/-- A `div` with legible attributes is a wrapper. -/
theorem isWrapper_div {attributes : List Attribute} (h : attributes.all Attribute.legible) :
    IsWrapper ⟨"div", attributes⟩ :=
  isWrapper_of_name ⟨by decide, by decide, by decide⟩ h

/-- A `span` with legible attributes is a wrapper. -/
theorem isWrapper_span {attributes : List Attribute} (h : attributes.all Attribute.legible) :
    IsWrapper ⟨"span", attributes⟩ :=
  isWrapper_of_name ⟨by decide, by decide, by decide⟩ h

/-- The element that `each` compiles to is a wrapper. -/
theorem isWrapper_eachTag (count : Nat) : IsWrapper (eachTag count) := by
  have hcount : '"' ∉ (toString count).toList := by
    intro hmem
    rw [Nat.toString_eq_repr, Nat.toList_repr] at hmem
    exact absurd (Nat.isDigit_of_mem_toDigits (by decide) (by decide) hmem) (by decide)
  refine isWrapper_div (List.all_eq_true.mpr (List.forall_mem_cons.mpr ⟨by decide, ?_⟩))
  exact List.forall_mem_singleton.mpr (legible_attribute (by decide) hcount)

/-- A tag that is put out around clean nodes: it is read back and plain, and with raw text in it the
nodes are one text. -/
structure WrapsClean (output : Tag) (nodes : List Node) : Prop where
  legible : output.legible
  plain : output.plain
  clean : cleanForest nodes
  raw : isRawText output.name → isTextOrEmpty nodes

/-- A wrapper may be put around any clean nodes. -/
theorem IsWrapper.wrapsClean {output : Tag} {nodes : List Node} (h : IsWrapper output)
    (hnodes : cleanForest nodes) : WrapsClean output nodes :=
  ⟨h.legible, h.plain, hnodes, by simp [h.notRaw]⟩

/-- A clean element that is no directive, or is renamed, is put out around its own children. -/
theorem wrapsClean_outputTag {tag : Tag} {children : List Node}
    (hclean : (Node.element tag children).clean)
    (h : Directive.ofTag? (Text.toLower tag.name) = none ∨
      outputTag? (Text.toLower tag.name) ≠ none) : WrapsClean (outputTag tag) children := by
  simp only [Node.clean, Tag.clean, Bool.and_eq_true, Bool.or_eq_true, Bool.not_eq_true'] at hclean
  obtain ⟨⟨⟨hlegible, -⟩, hraw⟩, hchildren⟩ := hclean
  refine ⟨legible_outputTag hlegible, ?_, hchildren, fun hisRaw => ?_⟩
  · rw [Tag.plain, ofTag?_outputTag h, outputTag?_outputTag]
    rfl
  · rw [isRawText_outputTag] at hisRaw
    exact hraw.resolve_left (by simp [hisRaw])

/-- The label of a tooltip is clean if its text has no angle bracket. -/
theorem clean_tooltipLabel {tag : Tag} (h : tag.legible)
    (htext : !(tag.attributeOrEmpty "text").toList.contains '<') :
    (Compiler.tooltipLabel tag).clean := by
  have hposition : '"' ∉ (((tag.attribute? "ps").filter (!·.isEmpty)).getD "top").toList := by
    cases hfound : (tag.attribute? "ps").filter (!·.isEmpty) with
    | none => decide
    | some value =>
      obtain ⟨a, ha, rfl⟩ := Option.map_eq_some_iff.mp (Option.filter_eq_some_iff.mp hfound).1
      have hvalues := (legible_iff_readable.mp h).2
      rw [List.all_eq_true] at hvalues
      have hvalue := hvalues a (List.mem_of_find?_eq_some ha)
      simpa [Attribute.unquoted] using hvalue
  have hwrapper := isWrapper_span (@legible_class ("fy-tooltip-text fy-pos-" ++ _)
    (by simpa using hposition))
  rw [Compiler.tooltipLabel, Tag.withClass, Node.clean, hwrapper.clean, hwrapper.notRaw, cleanForest,
    Node.clean, htext]
  rfl

end Markup

/-! ## How clean elements are treated -/

/-- A clean element that is replaced leaves nothing, or a wrapper without children. -/
theorem replaced_of_clean {tag : Tag} {children output : List Node} (hclean : tag.clean)
    (h : treatment tag children = .replaced output) :
    output = [] ∨ ∃ wrapper, Markup.IsWrapper wrapper ∧ output = [.element wrapper []] := by
  rw [Tag.clean, Bool.and_eq_true] at hclean
  unfold treatment at h
  cases hdirective : Directive.ofTag? (Text.toLower tag.name) with
  | none => simp [hdirective] at h
  | some directive =>
    simp only [hdirective] at h hclean
    cases directive with
    | alternative => exact .inl (Treatment.replaced.inj h).symm
    | last =>
      have hwrapper := Markup.isWrapper_div (@Markup.legible_class "fy-last" (by decide))
      exact .inr ⟨_, hwrapper, (Treatment.replaced.inj h).symm⟩
    | await =>
      have hwrapper := Markup.isWrapper_div (@Markup.legible_class "fy-await" (by decide))
      exact .inr ⟨_, hwrapper, (Treatment.replaced.inj h).symm⟩
    | escape => simp at hclean
    | style => simp at hclean
    | group =>
      have hclass : tag.hasClass "group" = false := by simpa using hclean.2
      simp [hclass] at h
    | each => by_cases hhas : tag.hasAttribute "of" <;> simp [hhas] at h
    | halt => exact nomatch h
    | first => exact nomatch h
    | tooltip => exact nomatch h
    | conditional => exact nomatch h
    | interpolation => exact nomatch h

/-- A clean element that is wrapped is put out around clean nodes. -/
theorem wrapsClean_of_clean {tag output : Tag} {children leading : List Node}
    (hclean : (Node.element tag children).clean)
    (h : treatment tag children = .wrapped output leading) :
    Markup.WrapsClean output (leading ++ children) := by
  have helement := hclean
  simp only [Node.clean, Tag.clean, Bool.and_eq_true] at helement
  obtain ⟨⟨⟨hlegible, htag⟩, -⟩, hchildren⟩ := helement
  have hrenamed {directive : Directive}
      (hdirective : Directive.ofTag? (Text.toLower tag.name) = some directive)
      (hname : ∀ entry ∈ Directive.tags, entry.2 = directive → outputTag? entry.1 ≠ none) :=
    Markup.wrapsClean_outputTag hclean (.inr (hname _ (mem_tags_of_ofTag? hdirective) rfl))
  unfold treatment at h
  cases hdirective : Directive.ofTag? (Text.toLower tag.name) with
  | none =>
    rw [hdirective] at h
    obtain ⟨rfl, rfl⟩ := Treatment.wrapped.inj h
    exact Markup.wrapsClean_outputTag hclean (.inl hdirective)
  | some directive =>
    simp only [hdirective] at h htag
    cases directive with
    | first =>
      obtain ⟨rfl, rfl⟩ := Treatment.wrapped.inj h
      exact (Markup.isWrapper_div (Markup.legible_class (by decide))).wrapsClean hchildren
    | tooltip =>
      obtain ⟨rfl, rfl⟩ := Treatment.wrapped.inj h
      refine (Markup.isWrapper_span (Markup.legible_class (by decide))).wrapsClean ?_
      rw [List.singleton_append, Markup.cleanForest, Markup.clean_tooltipLabel hlegible htag,
        hchildren]
      rfl
    | group =>
      have hclass : tag.hasClass "group" = false := by simpa using htag
      rw [hclass] at h
      obtain ⟨rfl, rfl⟩ := Treatment.wrapped.inj h
      exact hrenamed hdirective (by decide)
    | each =>
      cases hhas : tag.hasAttribute "of" with
      | true => simp [hhas] at h
      | false =>
        rw [hhas] at h
        obtain ⟨rfl, rfl⟩ := Treatment.wrapped.inj h
        exact hrenamed hdirective (by decide)
    | halt => exact nomatch h
    | alternative => exact nomatch h
    | escape => exact nomatch h
    | style => exact nomatch h
    | last => exact nomatch h
    | await => exact nomatch h
    | conditional => exact nomatch h
    | interpolation => exact nomatch h

end DirectiveMarkup
