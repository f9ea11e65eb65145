import DirectiveMarkup.Proofs.Coalescing
import DirectiveMarkup.Proofs.Plain

/-!
# Tags under new names

A tag that is renamed is an ordinary one before and after: neither name is that of a void or a
raw-text element, and the new name stands for nothing else. So renaming the tags of a forest
changes nothing about how the forest is written and read again.

Names are renamed in the lower case of all letters, and recognised as void in the lower case of
ASCII letters. On ASCII names the two agree.
-/

namespace DirectiveMarkup

open Markup (Node Tag asciiLower isRawText isTagNameChar isVoid rawTextTags voidTags)

/-! ## Lower case of ASCII names -/

namespace Text

/-- Only ASCII characters have an ASCII character as their lower case in ASCII. -/
theorem toNat_lt_of_toLower {c : Char} (h : c.toLower.toNat < 0x80) : c.toNat < 0x80 := by
  unfold Char.toLower at h
  split at h
  next hupper =>
    have hle := UInt32.le_iff_toNat_le.mp hupper.2
    exact Nat.lt_of_le_of_lt hle (by decide)
  · exact h

/-- ASCII text is lowered letter by letter. -/
theorem lowerAfter_ascii {text : List Char} (h : ∀ c ∈ text, c.toNat < 0x80)
    (passed written : List Char) :
    lowerAfter passed written text = written.reverse ++ text.map Char.toLower := by
  induction text generalizing passed written with
  | nil => simp [lowerAfter]
  | cons c rest ih =>
    rw [List.forall_mem_cons] at h
    have hsigma : c ≠ 'Σ' := by
      rintro rfl
      exact absurd h.1 (by decide)
    rw [lowerAfter, if_neg hsigma, lowerChars, if_pos h.1, ih h.2]
    simp

/-- A text that is an ASCII text in ASCII lower case is that text in lower case. -/
theorem toLower_of_asciiLower {text lower : String} (h : asciiLower text = lower)
    (hascii : ∀ c ∈ lower.toList, c.toNat < 0x80) : toLower text = lower := by
  subst h
  rw [asciiLower, String.toList_ofList] at hascii
  have htext : ∀ c ∈ text.toList, c.toNat < 0x80 := fun c hc =>
    toNat_lt_of_toLower (hascii c.toLower (List.mem_map_of_mem hc))
  rw [toLower, lowerAfter_ascii htext]
  rfl

end Text

/-! ## New names -/

/-- Names of void and raw-text elements are not renamed. -/
theorem outputTag?_of_special {name : String} (h : isVoid name ∨ isRawText name) :
    outputTag? (Text.toLower name) = none := by
  have hspecial : ∀ lower ∈ voidTags ++ rawTextTags,
      (lower.toList.all fun c => c.toNat < 0x80) ∧ outputTag? lower = none := by decide
  have hlower : ∀ lower ∈ voidTags, lower.toList.map Char.toLower = lower.toList := by decide
  have hmem : asciiLower name ∈ voidTags ++ rawTextTags := by
    rcases h with hvoid | hraw
    · obtain ⟨lower, hmem, hsame⟩ := List.any_eq_true.mp hvoid
      rw [asciiLower, ← beq_iff_eq.mp hsame, hlower lower hmem, String.ofList_toList]
      exact List.mem_append_left _ hmem
    · exact List.mem_append_right _ (List.contains_iff_mem.mp hraw)
  obtain ⟨hascii, hnone⟩ := hspecial _ hmem
  rw [Text.toLower_of_asciiLower rfl (by simpa using hascii), hnone]

/-- A tag keeps its name, or it is a tag for any children and gets one of the new names. -/
theorem outputTag_cases (tag : Tag) :
    (outputTag? (Text.toLower tag.name) = none ∧ outputTag tag = tag) ∨
      (tag.holdsNodes ∧ ∃ name ∈ renamedTags.map Prod.snd, outputTag tag = ⟨name, tag.attributes⟩) := by
  cases h : outputTag? (Text.toLower tag.name) with
  | none => exact .inl ⟨rfl, outputTag_eq h⟩
  | some name =>
    have hspecial (special : isVoid tag.name ∨ isRawText tag.name) : False :=
      nomatch h.symm.trans (outputTag?_of_special special)
    obtain ⟨before, after, htags, -⟩ := List.lookup_eq_some_iff.mp h
    have hmem : (Text.toLower tag.name, name) ∈ renamedTags := htags ▸ by simp
    refine .inr ⟨?_, name, List.mem_map_of_mem hmem, by rw [outputTag, h]; rfl⟩
    rw [Tag.holdsNodes, Bool.and_eq_true, Bool.not_eq_true', Bool.not_eq_true']
    exact ⟨Bool.eq_false_iff.mpr fun hvoid => hspecial (.inl hvoid),
      Bool.eq_false_iff.mpr fun hraw => hspecial (.inr hraw)⟩

/-- A new name is a tag name that stands for nothing but itself. -/
theorem new_name {name : String} (h : name ∈ renamedTags.map Prod.snd) :
    (name.toList.head?.any Char.isAlpha && name.toList.all isTagNameChar) ∧
      (isVoid name = false ∧ isRawText name = false) ∧
      Directive.ofTag? (Text.toLower name) = none ∧ outputTag? (Text.toLower name) = none := by
  revert name
  decide

/-- Renaming does not make a tag void, nor one that is void another. -/
@[simp] theorem isVoid_outputTag (tag : Tag) : isVoid (outputTag tag).name = isVoid tag.name := by
  rcases outputTag_cases tag with ⟨-, h⟩ | ⟨hholds, name, hname, h⟩
  · rw [h]
  · simp only [Tag.holdsNodes, Bool.and_eq_true, Bool.not_eq_true'] at hholds
    rw [h, hholds.1]
    exact (new_name hname).2.1.1

/-- Renaming changes nothing about which elements hold raw text. -/
@[simp] theorem isRawText_outputTag (tag : Tag) :
    isRawText (outputTag tag).name = isRawText tag.name := by
  rcases outputTag_cases tag with ⟨-, h⟩ | ⟨hholds, name, hname, h⟩
  · rw [h]
  · simp only [Tag.holdsNodes, Bool.and_eq_true, Bool.not_eq_true'] at hholds
    rw [h, hholds.2]
    exact (new_name hname).2.1.2

/-- A tag that can have been read can have been read under its new name. -/
theorem readable_outputTag {tag : Tag} (h : tag.readable) : (outputTag tag).readable := by
  rcases outputTag_cases tag with ⟨-, houtput⟩ | ⟨-, name, hname, houtput⟩
  · rwa [houtput]
  · rw [Tag.readable, Bool.and_eq_true] at h
    rw [houtput, Tag.readable, (new_name hname).1, h.2]
    rfl

/-- A tag that is read back is read back under its new name. -/
theorem legible_outputTag {tag : Tag} (h : tag.legible) : (outputTag tag).legible := by
  obtain ⟨hreadable, hvalues⟩ := Markup.legible_iff_readable.mp h
  exact Markup.legible_iff_readable.mpr ⟨readable_outputTag hreadable, hvalues⟩

/-- A tag that is no directive, or is renamed, is no directive under its new name. -/
theorem ofTag?_outputTag {tag : Tag} (h : Directive.ofTag? (Text.toLower tag.name) = none ∨
    outputTag? (Text.toLower tag.name) ≠ none) :
    Directive.ofTag? (Text.toLower (outputTag tag).name) = none := by
  rcases outputTag_cases tag with ⟨hnone, hsame⟩ | ⟨-, name, hname, hrenamed⟩
  · rw [hsame]
    exact h.resolve_right fun hne => hne hnone
  · rw [hrenamed]
    exact (new_name hname).2.2.1

/-- No tag is renamed twice. -/
theorem outputTag?_outputTag (tag : Tag) : outputTag? (Text.toLower (outputTag tag).name) = none := by
  rcases outputTag_cases tag with ⟨hnone, h⟩ | ⟨-, name, hname, h⟩
  · rw [h, hnone]
  · rw [h]
    exact (new_name hname).2.2.2

end DirectiveMarkup
