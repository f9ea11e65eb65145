import DirectiveMarkup.Proofs.Reading

/-!
# Canonical forests

The forests that reading gives back as they were written, described without the reader: what a
tag, an attribute, a text, a comment and raw text may consist of, which elements may have
children, and which texts may stand next to each other. A text may start with an angle bracket
that opens nothing; such a text is told apart from a text in front of it, and from nothing else.

The description is the decidable one of `canonicalForest`, case by case.
-/

namespace DirectiveMarkup.Markup

open DirectiveMarkup.Text (isBlank)

/-- A tag name starts with an ASCII letter and has no blank, slash or closing angle bracket. -/
structure IsTagName (name : List Char) : Prop where
  start : ∃ c rest, name = c :: rest ∧ c.isAlpha
  inside : ∀ c ∈ name, isBlank c = false ∧ c ≠ '/' ∧ c ≠ '>'

/-- An attribute has a name without blanks, equals signs, slashes and closing angle brackets, and
a value without double quotes. -/
structure IsAttribute (a : Attribute) : Prop where
  named : a.name ≠ ""
  inside : ∀ c ∈ a.name.toList, isBlank c = false ∧ c ≠ '=' ∧ c ≠ '>' ∧ c ≠ '/'
  value : '"' ∉ a.value.toList

/-- A tag that can be written. -/
structure IsTag (tag : Tag) : Prop where
  name : IsTagName tag.name.toList
  attributes : ∀ a ∈ tag.attributes, IsAttribute a

/-- What makes an angle bracket in front of it more than text: a letter, an exclamation or question
mark, or a slash with a letter. -/
inductive Opens : List Char → Prop where
  | letter {c : Char} (rest : List Char) : c.isAlpha → Opens (c :: rest)
  | exclamation (rest : List Char) : Opens ('!' :: rest)
  | question (rest : List Char) : Opens ('?' :: rest)
  | closing {c : Char} (rest : List Char) : c.isAlpha → Opens ('/' :: c :: rest)

/-- A text is not empty, and has no angle bracket, or only one that comes first and opens
nothing. -/
inductive IsContent : List Char → Prop where
  | plain {content : List Char} : content ≠ [] → '<' ∉ content → IsContent content
  | angle {body : List Char} : '<' ∉ body → ¬ Opens body → IsContent ('<' :: body)

mutual

/-- A node that is read back as it is written. -/
inductive CanonicalNode : Node → Prop where
  | text {content : String} : IsContent content.toList → CanonicalNode (.text content)
  | comment {body : String} : ¬ "-->".toList <:+: body.toList → CanonicalNode (.comment body)
  | void {tag : Tag} : IsTag tag → isVoid tag.name → CanonicalNode (.element tag [])
  | emptyRaw {tag : Tag} : IsTag tag → isVoid tag.name = false → isRawText tag.name →
      CanonicalNode (.element tag [])
  | raw {tag : Tag} {body : String} : IsTag tag → isVoid tag.name = false → isRawText tag.name →
      body ≠ "" →
      ¬ ("</" ++ asciiLower tag.name).toList <:+: (asciiLower body).toList →
      CanonicalNode (.element tag [.text body])
  | element {tag : Tag} {children : List Node} : IsTag tag → isVoid tag.name = false →
      isRawText tag.name = false → Canonical children → CanonicalNode (.element tag children)

/-- A forest that is read back as it is written: a text right behind a text starts with an angle
bracket. -/
inductive Canonical : List Node → Prop where
  | nil : Canonical []
  | cons {node : Node} {rest : List Node} : CanonicalNode node →
      (∀ content next others, node = .text content → rest = .text next :: others →
        ∃ body, next.toList = '<' :: body) →
      Canonical rest → Canonical (node :: rest)

end

/-! ## The description is decidable -/

/-- The test of a tag name is its description. -/
theorem isTagName_iff {name : List Char} :
    name.head?.any Char.isAlpha && name.all isTagNameChar ↔ IsTagName name := by
  cases name with
  | nil =>
    constructor
    · intro h
      simp at h
    · intro h
      obtain ⟨c, rest, hcons, -⟩ := h.start
      cases hcons
  | cons c rest =>
    simp only [Bool.and_eq_true, List.all_eq_true, isTagNameChar, Bool.not_eq_true', bne_iff_ne,
      List.head?_cons, Option.any_some, and_assoc]
    constructor
    · rintro ⟨hc, h⟩
      exact ⟨⟨c, rest, rfl, hc⟩, h⟩
    · intro h
      obtain ⟨d, others, hcons, hd⟩ := h.start
      obtain ⟨rfl, -⟩ := List.cons.inj hcons
      exact ⟨hd, h.inside⟩

/-- The test of an attribute is its description. -/
theorem legible_iff_isAttribute {a : Attribute} : a.legible ↔ IsAttribute a := by
  simp only [Attribute.legible, Bool.and_eq_true, Bool.not_eq_true', List.all_eq_true,
    isAttributeNameChar, bne_iff_ne, and_assoc]
  constructor
  · rintro ⟨hnamed, hinside, hvalue⟩
    refine ⟨?_, hinside, by simpa using hvalue⟩
    rintro h
    simp [h] at hnamed
  · intro h
    exact ⟨by simpa using h.named, h.inside, by simpa using h.value⟩

/-- A tag is legible exactly when it is made of a tag name and attributes. -/
theorem legible_iff_isTag {tag : Tag} : tag.legible ↔ IsTag tag := by
  rw [Tag.legible, Bool.and_eq_true, isTagName_iff, List.all_eq_true]
  constructor
  · rintro ⟨hname, hattributes⟩
    exact ⟨hname, fun a ha => legible_iff_isAttribute.mp (hattributes a ha)⟩
  · intro h
    exact ⟨h.name, fun a ha => legible_iff_isAttribute.mpr (h.attributes a ha)⟩

/-- What opens nothing is what does not open anything. -/
theorem opensNothing_iff {body : List Char} : opensNothing body ↔ ¬ Opens body := by
  cases body with
  | nil =>
    refine iff_of_true rfl fun h => ?_
    cases h
  | cons d rest =>
    by_cases hslash : d = '/'
    · subst hslash
      cases rest with
      | nil =>
        refine iff_of_true rfl fun h => ?_
        cases h with
        | letter _ hletter => exact absurd hletter (by decide)
      | cons e rest =>
        rw [opensNothing, Bool.not_eq_true']
        constructor
        · intro he h
          cases h with
          | letter _ hletter => exact absurd hletter (by decide)
          | closing _ hletter => exact absurd hletter (by simp [he])
        · intro h
          exact Bool.eq_false_iff.mpr fun he => h (.closing rest he)
    · have hopens : opensNothing (d :: rest) ↔ (d ≠ '!' ∧ d ≠ '?') ∧ d.isAlpha = false := by
        simp [opensNothing, hslash]
      rw [hopens]
      constructor
      · rintro ⟨⟨hbang, hquestion⟩, hletter⟩ h
        cases h with
        | letter _ hd => simp [hd] at hletter
        | exclamation => exact hbang rfl
        | question => exact hquestion rfl
        | closing => exact hslash rfl
      · intro h
        refine ⟨⟨?_, ?_⟩, ?_⟩
        · rintro rfl
          exact h (.exclamation rest)
        · rintro rfl
          exact h (.question rest)
        · exact Bool.eq_false_iff.mpr fun hd => h (.letter rest hd)

/-- A text is read as one lexeme exactly when it is the content of a text. -/
theorem isOneText_iff {content : List Char} : isOneText content ↔ IsContent content := by
  cases content with
  | nil =>
    refine iff_of_false (by simp [isOneText]) fun h => ?_
    cases h with
    | plain hne _ => exact hne rfl
  | cons c body =>
    simp only [isOneText, Bool.and_eq_true, Bool.not_eq_true', List.contains_eq_mem,
      decide_eq_false_iff_not, Bool.or_eq_true, bne_iff_ne, opensNothing_iff]
    constructor
    · rintro ⟨hbody, hplain⟩
      by_cases hc : c = '<'
      · subst hc
        exact .angle hbody (hplain.resolve_left fun h => h rfl)
      · exact .plain (by simp) (by simp [hbody, Ne.symm hc])
    · intro h
      cases h with
      | plain hne hangle =>
        rw [List.mem_cons, not_or] at hangle
        exact ⟨hangle.2, .inl (Ne.symm hangle.1)⟩
      | angle hbody hopens => exact ⟨hbody, .inr hopens⟩

/-- A text ends in front of a canonical text exactly when that one starts with an angle bracket. -/
theorem endsText_iff {next : String} (h : isOneText next.toList) :
    endsText next.toList ↔ ∃ body, next.toList = '<' :: body := by
  cases hnext : next.toList with
  | nil => simp [hnext, isOneText] at h
  | cons c body => simp [endsText]

/-- A text runs on exactly when a text follows that starts without an angle bracket. -/
theorem runsOn_eq_false_iff {node : Node} {rest : List Node} (h : canonicalForest rest) :
    runsOn node rest = false ↔
      ∀ content next others, node = .text content → rest = .text next :: others →
        ∃ body, next.toList = '<' :: body := by
  constructor
  · rintro hrun content next others rfl rfl
    simp only [canonicalForest, Node.canonical, Bool.and_eq_true] at h
    exact (endsText_iff h.1.1).mp (by simpa [runsOn] using hrun)
  · intro hbehind
    refine Bool.eq_false_iff.mpr fun hrun => ?_
    cases node with
    | comment body => simp [runsOn] at hrun
    | element tag children => simp [runsOn] at hrun
    | text content =>
      cases rest with
      | nil => simp [runsOn] at hrun
      | cons head others =>
        cases head with
        | comment body => simp [runsOn] at hrun
        | element tag children => simp [runsOn] at hrun
        | text next =>
          simp only [canonicalForest, Node.canonical, Bool.and_eq_true] at h
          have hends := (endsText_iff h.1.1).mpr (hbehind content next others rfl rfl)
          simp [runsOn, hends] at hrun

mutual

/-- A node is canonical exactly when it is described as such. -/
theorem canonical_iff (node : Node) : node.canonical ↔ CanonicalNode node := by
  match node with
  | .text content =>
    rw [Node.canonical, isOneText_iff]
    exact ⟨.text, fun h => by cases h with | text h => exact h⟩
  | .comment body =>
    rw [Node.canonical, Bool.not_eq_true', decide_eq_false_iff_not]
    exact ⟨.comment, fun h => by cases h with | comment h => exact h⟩
  | .element tag children =>
    have hchildren := canonicalForest_iff children
    rw [Node.canonical, Bool.and_eq_true, legible_iff_isTag]
    constructor
    · rintro ⟨htag, h⟩
      split_ifs at h with hvoid hraw
      · obtain rfl := List.isEmpty_iff.mp h
        exact .void htag hvoid
      · rcases isRawContent_iff.mp h with rfl | ⟨body, rfl, hne, hclosing⟩
        · exact .emptyRaw htag (by simpa using hvoid) hraw
        · exact .raw htag (by simpa using hvoid) hraw hne hclosing
      · exact .element htag (by simpa using hvoid) (by simpa using hraw) (hchildren.mp h)
    · intro h
      cases h with
      | void htag hvoid => exact ⟨htag, by simp [hvoid]⟩
      | emptyRaw htag hvoid hraw => exact ⟨htag, by simp [hvoid, hraw, isRawContent]⟩
      | raw htag hvoid hraw hne hclosing =>
        have hcontent := isRawContent_iff.mpr (.inr ⟨_, rfl, hne, hclosing⟩)
        exact ⟨htag, by simp [hvoid, hraw, hcontent]⟩
      | element htag hvoid hraw h => exact ⟨htag, by simp [hvoid, hraw, hchildren.mpr h]⟩

/-- A forest is canonical exactly when it is described as such. -/
theorem canonicalForest_iff (forest : List Node) : canonicalForest forest ↔ Canonical forest := by
  match forest with
  | [] => exact ⟨fun _ => .nil, fun _ => rfl⟩
  | node :: rest =>
    have hnode := canonical_iff node
    have hrest := canonicalForest_iff rest
    rw [canonicalForest, Bool.and_eq_true, Bool.and_eq_true, Bool.not_eq_true']
    constructor
    · rintro ⟨⟨h, hrun⟩, hfollowing⟩
      exact .cons (hnode.mp h) ((runsOn_eq_false_iff hfollowing).mp hrun) (hrest.mp hfollowing)
    · intro h
      cases h with
      | cons h hrun hfollowing =>
        have hcanonical := hrest.mpr hfollowing
        exact ⟨⟨hnode.mpr h, (runsOn_eq_false_iff hcanonical).mpr hrun⟩, hcanonical⟩

end

/-- Whether a forest is canonical can be decided. -/
instance (forest : List Node) : Decidable (Canonical forest) :=
  decidable_of_iff _ (canonicalForest_iff forest)

/-- Reading undoes writing on canonical forests. -/
theorem parse_outerMarkup_of_canonical {forest : List Node} (h : Canonical forest) :
    parse (outerMarkup forest) = forest :=
  parse_outerMarkup ((canonicalForest_iff forest).mpr h)

/-- Elements of one name inside each other, raw text in a tag of mixed case, a comment that ends
in dashes, and angle brackets that are only text. -/
def intricate : List Node :=
  [.text "1 ", .text "< 2", .text "</", .element ⟨"P", [⟨"title", "a > b"⟩, ⟨"hidden", ""⟩]⟩
    [.element ⟨"p", []⟩ [.text "<"], .comment "a --", .element ⟨"Script", []⟩ [.text "a</b><!--"],
      .element ⟨"BR", []⟩ []], .element ⟨"textarea", []⟩ []]

/-- An intricate forest is read back. -/
theorem parse_outerMarkup_intricate :
    Canonical intricate ∧ parse (outerMarkup intricate) = intricate := by
  have hcanonical : Canonical intricate := by decide
  exact ⟨hcanonical, parse_outerMarkup_of_canonical hcanonical⟩

end DirectiveMarkup.Markup
