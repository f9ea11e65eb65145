import DirectiveMarkup.Proofs.Quotation
import DirectiveMarkup.Proofs.Settling

/-!
# Substitution in a forest

Interpolation works on text. When every opening brace of a forest is closed inside of the same
text or attribute value, and none stands anywhere else, filling the written forest is writing
the forest whose texts and values are filled. The values put in keep a forest legible when they
have no angle bracket and no double quote.

Such a span lies inside of a text, which has no angle bracket, or inside of a value, which has
no double quote. It never runs over both.
-/

namespace DirectiveMarkup

namespace Interpolation

/-- Every opening brace is closed before both an angle bracket and a double quote are passed. -/
def Confined (text : List Char) : Prop :=
  ∀ before after, text = before ++ '{' :: after →
    ∃ source rest, after = source ++ '}' :: rest ∧ ('<' ∉ source ∨ '"' ∉ source)

/-- A text that confines its spans closes them. -/
theorem Confined.closed {text : List Char} (h : Confined text) : Closed text := by
  intro before after htext
  obtain ⟨source, rest, rfl, -⟩ := h before after htext
  simp

/-- A text without an opening brace confines its spans. -/
theorem confined_of_notMem {text : List Char} (h : '{' ∉ text) : Confined text := by
  intro before after htext
  exact absurd (htext ▸ by simp) h

/-- A text that closes its spans and has no angle bracket, or no double quote, confines them. -/
theorem Closed.confined {text : List Char} (h : Closed text) (hc : '<' ∉ text ∨ '"' ∉ text) :
    Confined text := by
  rintro before after rfl
  obtain ⟨source, rest, rfl⟩ := List.append_of_mem (h before after rfl)
  refine ⟨source, rest, rfl, ?_⟩
  simp only [List.mem_append, List.mem_cons, not_or] at hc
  exact hc.imp (fun h => h.2.2.1) fun h => h.2.2.1

/-- Two texts that confine their spans do so together. -/
theorem Confined.append {first second : List Char} (hfirst : Confined first)
    (hsecond : Confined second) : Confined (first ++ second) := by
  intro before after htext
  rcases List.append_eq_append_iff.mp htext with ⟨middle, rfl, hsecond'⟩ | ⟨middle, hfirst', hafter⟩
  · exact hsecond middle after hsecond'
  · cases middle with
    | nil => exact hsecond [] after (by simpa using hafter.symm)
    | cons c middle =>
      simp only [List.cons_append, List.cons.injEq] at hafter
      obtain ⟨rfl, rfl⟩ := hafter
      obtain ⟨source, rest, rfl, hsource⟩ := hfirst before middle hfirst'
      exact ⟨source, rest ++ second, by simp, hsource⟩

/-- What follows in a text that confines its spans does so too. -/
theorem Confined.of_append {first second : List Char} (h : Confined (first ++ second)) :
    Confined second := by
  intro before after hsecond
  exact h (first ++ before) after (by rw [hsecond, List.append_assoc])

/-- A character that is neither in a text nor in the values of its sources is not in the filled
text. -/
theorem notMem_fill {c : Char} {value : List Char → List Char} {text : List Char} (htext : c ∉ text)
    (hvalue : ∀ source ∈ sources text, c ∉ value source) : c ∉ fill value text := by
  induction spanned text with
  | nil => exact htext
  | plain hd _ ih =>
    rw [sources_cons hd] at hvalue
    rw [fill_cons value hd]
    simp only [List.mem_cons, not_or] at htext ⊢
    exact ⟨htext.1, ih htext.2 hvalue⟩
  | span hsource _ ih =>
    rw [sources_span hsource] at hvalue
    rw [fill_span value hsource]
    simp only [List.mem_append, not_or] at htext ⊢
    exact ⟨hvalue _ List.mem_cons_self, ih htext.2 fun source hm =>
      hvalue source (List.mem_cons_of_mem _ hm)⟩
  | unclosed htail => rwa [fill_unclosed value htail]

/-- A text with its sources and the text that it is filled to. -/
structure Fills (value : List Char → List Char) (text : List Char) (inner : List (List Char))
    (filled : List Char) : Prop where
  confined : Confined text
  sources_eq : sources text = inner
  fill_eq : fill value text = filled

namespace Fills

variable {value : List Char → List Char}

/-- A text without an opening brace is filled already. -/
theorem const {text : List Char} (h : '{' ∉ text) : Fills value text [] text :=
  ⟨confined_of_notMem h, sources_eq_nil h, fill_of_notMem value h⟩

/-- A text that confines its spans is filled by itself. -/
theorem self {text : List Char} (h : Confined text) :
    Fills value text (sources text) (fill value text) :=
  ⟨h, rfl, rfl⟩

/-- Texts in a row are filled in a row. -/
theorem append {first second filled filled' : List Char} {inner inner' : List (List Char)}
    (hfirst : Fills value first inner filled) (hsecond : Fills value second inner' filled') :
    Fills value (first ++ second) (inner ++ inner') (filled ++ filled') where
  confined := hfirst.confined.append hsecond.confined
  sources_eq := by
    rw [sources_append hfirst.confined.closed, hfirst.sources_eq, hsecond.sources_eq]
  fill_eq := by
    rw [fill_append value hfirst.confined.closed, hfirst.fill_eq, hsecond.fill_eq]

end Fills

/-- Fill the spans of a text. -/
def fillText (value : List Char → List Char) (text : String) : String :=
  .ofList (fill value text.toList)

end Interpolation

namespace Markup

open Interpolation

/-! ## Spans in a forest -/

/-- The sources of the values of a tag. -/
def Tag.sources (tag : Tag) : List (List Char) :=
  tag.attributes.flatMap fun a => Interpolation.sources a.value.toList

/-- Fill the values of a tag. -/
def Tag.fill (value : List Char → List Char) (tag : Tag) : Tag :=
  ⟨tag.name, tag.attributes.map fun a => ⟨a.name, fillText value a.value⟩⟩

/-- True of an attribute whose spans are closed in its value. -/
def Attribute.closed (a : Attribute) : Bool :=
  !a.name.toList.contains '{' && decide (Closed a.value.toList)

/-- True of a tag whose spans are closed in its values. -/
def Tag.closed (tag : Tag) : Bool :=
  !tag.name.toList.contains '{' && tag.attributes.all Attribute.closed

mutual

/-- The sources of the texts and values of a node. -/
def Node.sources : Node → List (List Char)
  | .text content => Interpolation.sources content.toList
  | .comment _ => []
  | .element tag children => tag.sources ++ sourcesOf children

/-- The sources of the texts and values of a forest. -/
def sourcesOf : List Node → List (List Char)
  | [] => []
  | node :: rest => node.sources ++ sourcesOf rest

end

mutual

/-- Fill the texts and values of a node. -/
def Node.fill (value : List Char → List Char) : Node → Node
  | .text content => .text (fillText value content)
  | .comment body => .comment body
  | .element tag children => .element (tag.fill value) (fillForest value children)

/-- Fill the texts and values of a forest. -/
def fillForest (value : List Char → List Char) : List Node → List Node
  | [] => []
  | node :: rest => node.fill value :: fillForest value rest

end

mutual

/-- True of a node whose spans are closed in its texts and values. -/
def Node.closed : Node → Bool
  | .text content => decide (Closed content.toList)
  | .comment body => !body.toList.contains '{'
  | .element tag children => tag.closed && closedForest children

/-- True of a forest whose spans are closed in its texts and values. -/
def closedForest : List Node → Bool
  | [] => true
  | node :: rest => node.closed && closedForest rest

end

section Fill

variable (value : List Char → List Char)

/-- The attributes of a tag are filled one by one. -/
theorem fills_attributesText {name : String} {attributes : List Attribute}
    (hlegible : attributes.all Attribute.legible)
    (hclosed : attributes.all Attribute.closed) :
    Fills value (Tag.attributesText ⟨name, attributes⟩).toList (Tag.sources ⟨name, attributes⟩)
      (Tag.attributesText (Tag.fill value ⟨name, attributes⟩)).toList := by
  induction attributes with
  | nil => exact .const (by simp [Tag.attributesText])
  | cons a attributes ih =>
    simp only [List.all_cons, Bool.and_eq_true] at hlegible hclosed
    have hrest := ih hlegible.2 hclosed.2
    obtain ⟨ha, -⟩ := hlegible
    obtain ⟨hspans, -⟩ := hclosed
    simp only [Attribute.legible, Attribute.closed, Bool.and_eq_true, Bool.not_eq_true',
      List.contains_eq_mem, decide_eq_false_iff_not, decide_eq_true_eq] at ha hspans
    have hfront : Fills value (' ' :: (a.name.toList ++ ['=', '"'])) [] _ :=
      .const (by simp [hspans.1])
    have hself : Fills value a.value.toList _ _ := .self (hspans.2.confined (.inr ha.2))
    have hquote' : Fills value ['"'] [] _ := .const (by simp)
    have hall := hfront.append (hself.append (hquote'.append hrest))
    simpa [toList_attributesText_cons, Tag.sources, Tag.fill, fillText] using hall

/-- The spans of an opening tag are in its values. -/
theorem fills_opening {tag : Tag} (hlegible : tag.legible) (hclosed : tag.closed) :
    Fills value tag.opening.toList tag.sources (tag.fill value).opening.toList := by
  simp only [Tag.legible, Bool.and_eq_true] at hlegible
  simp only [Tag.closed, Bool.and_eq_true] at hclosed
  have hname : '{' ∉ tag.name.toList := by simpa using hclosed.1
  have hfront : Fills value ('<' :: tag.name.toList) [] _ := .const (by simp [hname])
  have hend : Fills value ['>'] [] _ := .const (by simp)
  have hattributes := @fills_attributesText value tag.name tag.attributes hlegible.2 hclosed.2
  simpa [Tag.opening, Tag.fill] using hfront.append (hattributes.append hend)

mutual

/-- The spans of a written node are in its texts and values. -/
theorem fills_outer (node : Node) (hlegible : node.legible) (hclosed : node.closed) :
    Fills value node.outer.toList node.sources (node.fill value).outer.toList := by
  match node with
  | .text content =>
    have hangle : '<' ∉ content.toList := by simpa [Node.legible] using hlegible
    have hspans : Closed content.toList := by simpa [Node.closed] using hclosed
    simpa [Node.outer, Node.sources, Node.fill, fillText] using
      (Fills.self (hspans.confined (.inl hangle)) : Fills value content.toList _ _)
  | .comment body =>
    have hbody : '{' ∉ body.toList := by simpa [Node.closed] using hclosed
    exact .const (by simp [Node.outer, hbody])
  | .element tag children =>
    simp only [Node.legible, Bool.and_eq_true, Bool.or_eq_true, Bool.not_eq_true'] at hlegible
    obtain ⟨⟨⟨htag, hchildren⟩, hvoid⟩, -⟩ := hlegible
    simp only [Node.closed, Bool.and_eq_true] at hclosed
    have hopening := fills_opening value htag hclosed.1
    have hname : (tag.fill value).name = tag.name := rfl
    rw [Node.fill, Node.outer_element, Node.outer_element, hname]
    split_ifs with hisVoid
    · have hempty := List.isEmpty_iff.mp (hvoid.resolve_left (by simp [hisVoid]))
      simpa [hempty, Node.sources, sourcesOf] using hopening
    · have hinner := fills_outerMarkup children hchildren hclosed.2
      have hbrace : '{' ∉ tag.name.toList := by
        have htagClosed := hclosed.1
        simp only [Tag.closed, Bool.and_eq_true] at htagClosed
        simpa using htagClosed.1
      have hclosing : Fills value tag.closing.toList [] tag.closing.toList :=
        .const (by simp [Tag.closing, hbrace])
      have hall := hopening.append (hinner.append hclosing)
      simpa [Node.sources, Tag.closing, hname] using hall

/-- The spans of a written forest are in its texts and values. -/
theorem fills_outerMarkup (forest : List Node) (hlegible : legibleForest forest)
    (hclosed : closedForest forest) :
    Fills value (outerMarkup forest).toList (sourcesOf forest)
      (outerMarkup (fillForest value forest)).toList := by
  match forest with
  | [] => exact .const (by simp)
  | node :: rest =>
    simp only [legibleForest, Bool.and_eq_true] at hlegible
    simp only [closedForest, Bool.and_eq_true] at hclosed
    have hall := (fills_outer node hlegible.1 hclosed.1).append
      (fills_outerMarkup rest hlegible.2 hclosed.2)
    simpa [fillForest, sourcesOf] using hall

end

end Fill

/-! ## Filled forests are legible -/

section Legible

variable {value : List Char → List Char}

/-- A filled tag is legible when the values have no double quote. -/
theorem Tag.legible_fill {tag : Tag} (h : tag.legible)
    (hvalue : ∀ source ∈ tag.sources, '"' ∉ value source) : (tag.fill value).legible := by
  simp only [Tag.legible, Bool.and_eq_true, List.all_eq_true] at h ⊢
  refine ⟨h.1, fun filled hfilled => ?_⟩
  obtain ⟨a, ha, rfl⟩ := List.mem_map.mp hfilled
  have hlegible := h.2 a ha
  simp only [Attribute.legible, Bool.and_eq_true, Bool.not_eq_true', List.contains_eq_mem,
    decide_eq_false_iff_not] at hlegible ⊢
  refine ⟨hlegible.1, ?_⟩
  rw [fillText, String.toList_ofList]
  exact notMem_fill hlegible.2 fun source hsource =>
    hvalue source (List.mem_flatMap.mpr ⟨a, ha, hsource⟩)

/-- Filling keeps what is a text. -/
theorem isText_fill (node : Node) : (node.fill value).isText = node.isText := by
  cases node <;> rfl

/-- Filling a forest fills its nodes. -/
theorem fillForest_eq_map (forest : List Node) :
    fillForest value forest = forest.map (Node.fill value) := by
  induction forest with
  | nil => rfl
  | cons node rest ih => rw [fillForest, ih, List.map_cons]

mutual

/-- A filled node is legible when the values have no angle bracket and no double quote. -/
theorem legible_fill (node : Node) (h : node.legible)
    (hvalue : ∀ source ∈ node.sources, '<' ∉ value source ∧ '"' ∉ value source) :
    (node.fill value).legible := by
  match node with
  | .text content =>
    have hangle : '<' ∉ content.toList := by simpa [Node.legible] using h
    have hfill := notMem_fill hangle fun source hsource => (hvalue source hsource).1
    simpa [Node.fill, Node.legible, fillText] using hfill
  | .comment body => exact h
  | .element tag children =>
    simp only [Node.legible, Bool.and_eq_true, Bool.or_eq_true, Bool.not_eq_true'] at h
    obtain ⟨⟨⟨htag, hchildren⟩, hvoid⟩, hraw⟩ := h
    have htag' := Tag.legible_fill htag fun source hsource =>
      (hvalue source (List.mem_append_left _ hsource)).2
    have hchildren' := legibleForest_fill children hchildren fun source hsource =>
      hvalue source (List.mem_append_right _ hsource)
    have hname : (tag.fill value).name = tag.name := rfl
    have htexts : (fillForest value children).all Node.isText = children.all Node.isText := by
      simp [fillForest_eq_map, List.all_map, Function.comp_def, isText_fill]
    have hempty : (fillForest value children).isEmpty = children.isEmpty := by
      simp [fillForest_eq_map]
    simp only [Node.fill, Node.legible, Bool.and_eq_true, Bool.or_eq_true, Bool.not_eq_true', hname,
      htexts, hempty]
    exact ⟨⟨⟨htag', hchildren'⟩, hvoid⟩, hraw⟩

/-- A filled forest is legible when the values have no angle bracket and no double quote. -/
theorem legibleForest_fill (forest : List Node) (h : legibleForest forest)
    (hvalue : ∀ source ∈ sourcesOf forest, '<' ∉ value source ∧ '"' ∉ value source) :
    legibleForest (fillForest value forest) := by
  match forest with
  | [] => rfl
  | node :: rest =>
    simp only [legibleForest, Bool.and_eq_true] at h
    have hnode := legible_fill node h.1 fun source hsource =>
      hvalue source (List.mem_append_left _ hsource)
    have hrest := legibleForest_fill rest h.2 fun source hsource =>
      hvalue source (List.mem_append_right _ hsource)
    simp only [fillForest, legibleForest, hnode, hrest, Bool.and_self]

end

end Legible

end Markup

/-! ## Interpolating a written forest -/

namespace Interpolation

open Expression (Scope Value evaluateSource)
open Markup (Node outerMarkup legibleForest closedForest sourcesOf fillForest settleForest)

/-- True of a value that can be put into markup and adds no span and no tag and ends no value. -/
def isInert (value : Value) : Bool :=
  ['<', '{', '"'].all fun c => !value.display.toList.contains c

/-- An inert value brings none of the three characters. -/
theorem notMem_of_isInert {value : Value} (h : isInert value) :
    '<' ∉ value.display.toList ∧ '{' ∉ value.display.toList ∧ '"' ∉ value.display.toList := by
  simpa [isInert] using h

/-- Interpolating a written forest writes the filled forest. -/
theorem interpolate_outerMarkup {forest : List Node} {scope : Scope} {value : List Char → Value}
    (hlegible : legibleForest forest) (hclosed : closedForest forest)
    (heval : ∀ source ∈ sourcesOf forest,
      evaluateSource (.ofList source) scope = .ok (value source))
    (hinert : ∀ source ∈ sourcesOf forest, isInert (value source)) :
    interpolate (evaluateSource · scope) (outerMarkup forest) =
      .ok (outerMarkup (fillForest (fun source => (value source).display.toList) forest)) := by
  obtain ⟨-, hsources, hfill⟩ :=
    Markup.fills_outerMarkup (fun source => (value source).display.toList) forest hlegible hclosed
  rw [interpolate_evaluateSource, hfill, String.ofList_toList]
  · rwa [hsources]
  · rw [hsources]
    exact fun source hsource => (notMem_of_isInert (hinert source hsource)).2.1

/-- Inert values keep a forest legible. -/
theorem legibleForest_fill_isInert {forest : List Node} {value : List Char → Value}
    (hlegible : legibleForest forest)
    (hinert : ∀ source ∈ sourcesOf forest, isInert (value source)) :
    legibleForest (fillForest (fun source => (value source).display.toList) forest) :=
  Markup.legibleForest_fill forest hlegible fun source hsource =>
    have hnone := notMem_of_isInert (hinert source hsource)
    ⟨hnone.1, hnone.2.2⟩

/-- A paragraph with a name in a value and in a text. -/
def greeting (name : String) : List Node :=
  [.element ⟨"p", [⟨"title", name⟩]⟩ [.text ("Dear " ++ name)]]

end Interpolation

end DirectiveMarkup
