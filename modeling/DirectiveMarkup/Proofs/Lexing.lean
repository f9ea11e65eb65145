import DirectiveMarkup.Markup.Forest
import DirectiveMarkup.Proofs.Occurrences

/-!
# Lexemes of written markup

Every lexeme uses up a character, so markup is cut by one equation: its first lexeme, and the
lexemes of what follows. With it each piece that writing produces is read in front of any
other markup: a text up to the next angle bracket, a comment, an opening tag with its
attributes, a closing tag, and a raw-text element as a whole.
-/

namespace DirectiveMarkup.Markup

open DirectiveMarkup.Text (isBlank)

/-! ## Reading uses up characters -/

/-- Passing over characters does not make a text longer. -/
theorem length_dropWhile_le (p : Char → Bool) (text : List Char) :
    (text.dropWhile p).length ≤ text.length :=
  (List.dropWhile_suffix p).length_le

/-- What follows a pattern is no longer than the text. -/
theorem length_upTo_le (pattern text : List Char) :
    (upTo pattern text).2.length ≤ text.length := by
  unfold upTo
  cases h : Text.breakAt pattern text with
  | none => exact Nat.zero_le _
  | some parts => exact Text.length_of_breakAt h

/-- What follows an assignment is no longer than the text. -/
theorem length_readAssignment_le (text : List Char) :
    (readAssignment text).2.length ≤ text.length := by
  have hvalue (text : List Char) : (readValue text).2.length ≤ text.length := by
    unfold readValue
    split
    · exact Nat.le_refl _
    next quote rest =>
      split
      · have hrest := length_dropWhile_le (· != quote) rest
        simp only [List.length_drop, List.length_cons]
        omega
      · exact length_dropWhile_le isBareValueChar (quote :: rest)
  unfold readAssignment
  split
  next rest =>
    have hrest := length_dropWhile_le isBlank rest
    have hread := hvalue (rest.dropWhile isBlank)
    simp only [List.length_cons]
    omega
  · exact Nat.le_refl _

/-- What follows attributes is no longer than the text. -/
theorem length_readAttributes_le (steps : Nat) (text : List Char) :
    (readAttributes steps text).2.2.length ≤ text.length := by
  induction steps generalizing text with
  | zero => exact Nat.le_refl _
  | succ steps ih =>
    have hblank := length_dropWhile_le isBlank text
    rw [readAttributes]
    split
    next => exact Nat.zero_le _
    next rest hrest =>
      simp only [hrest, List.length_cons] at hblank
      dsimp only
      omega
    next rest hrest =>
      simp only [hrest, List.length_cons] at hblank
      dsimp only
      omega
    next c rest _ _ hrest =>
      rw [hrest] at hblank
      have hcons : rest.length < (c :: rest).length := Nat.lt_succ_self _
      dsimp only
      split
      · have hread := ih rest
        omega
      · have hname := length_dropWhile_le isAttributeNameChar (c :: rest)
        have hblanks := length_dropWhile_le isBlank ((c :: rest).dropWhile isAttributeNameChar)
        have hassign := length_readAssignment_le
          (((c :: rest).dropWhile isAttributeNameChar).dropWhile isBlank)
        have hread := ih (readAssignment
          (((c :: rest).dropWhile isAttributeNameChar).dropWhile isBlank)).2
        exact Nat.le_trans hread (by omega)

/-- What follows a raw text is no longer than the text. -/
theorem length_readRawText_le (name : String) (text : List Char) :
    (readRawText name text).2.length ≤ text.length := by
  unfold readRawText
  split
  next before _ _ =>
    have hend := length_upTo_le ['>'] (text.drop before.length)
    rw [List.length_drop] at hend
    dsimp only
    omega
  · exact Nat.zero_le _

/-- What follows an opening tag is no longer than the text. -/
theorem length_readOpening_le (text : List Char) : (readOpening text).2.length ≤ text.length := by
  have hname := length_dropWhile_le isTagNameChar text
  have hattributes := length_readAttributes_le ((text.dropWhile isTagNameChar).length + 1)
    (text.dropWhile isTagNameChar)
  have hrest := Nat.le_trans hattributes hname
  unfold readOpening
  dsimp only
  split_ifs
  · exact hrest
  · exact Nat.le_trans (length_readRawText_le _ _) hrest
  · exact hrest

/-- What follows a lexeme is no longer than the markup after its first character. -/
theorem length_readLexeme_le (c : Char) (rest : List Char) :
    (readLexeme c rest).2.length ≤ rest.length := by
  have htext (rest : List Char) : (readText c rest).2.length ≤ rest.length :=
    length_dropWhile_le _ rest
  have hclosing (text : List Char) : (readClosing text).2.length ≤ text.length := by
    have hname := length_dropWhile_le (fun c => !isBlank c && c != '>') text
    have hend := length_upTo_le ['>'] (text.dropWhile fun c => !isBlank c && c != '>')
    unfold readClosing
    dsimp only
    omega
  unfold readLexeme
  split_ifs
  · exact htext rest
  · split
    next rest =>
      have hend := length_upTo_le ['-', '-', '>'] rest
      simp only [List.length_cons]
      omega
    next rest _ =>
      have hend := length_upTo_le ['>'] rest
      simp only [List.length_cons]
      omega
    next rest =>
      have hend := length_upTo_le ['>'] rest
      simp only [List.length_cons]
      omega
    next d rest =>
      have hend := hclosing (d :: rest)
      have htext := htext ('/' :: d :: rest)
      split_ifs <;> simp only [List.length_cons] at hend htext ⊢ <;> omega
    next d rest _ _ _ _ =>
      have hopening := length_readOpening_le (d :: rest)
      have htext := htext (d :: rest)
      split_ifs <;> omega
    next => exact htext []

/-- More steps than characters cut the markup in the same way. -/
theorem lexemesWithin_eq (steps : Nat) (markup : List Char) (h : markup.length ≤ steps) :
    lexemesWithin steps markup = lexemes markup := by
  suffices hsteps : ∀ steps other, markup.length ≤ steps → markup.length ≤ other →
      lexemesWithin steps markup = lexemesWithin other markup from
    hsteps steps markup.length h (Nat.le_refl _)
  clear h steps
  intro steps other hsteps hother
  induction steps generalizing markup other with
  | zero =>
    obtain rfl := List.length_eq_zero_iff.mp (Nat.le_zero.mp hsteps)
    cases other <;> rfl
  | succ steps ih =>
    cases markup with
    | nil => cases other <;> rfl
    | cons c rest =>
      cases other with
      | zero => simp at hother
      | succ other =>
        have hafter := length_readLexeme_le c rest
        simp only [List.length_cons] at hsteps hother
        simp only [lexemesWithin]
        rw [ih _ other (by omega) (by omega)]

/-- Markup is its first lexeme and the lexemes of what follows. -/
theorem lexemes_cons (c : Char) (rest : List Char) :
    lexemes (c :: rest) = (readLexeme c rest).1 :: lexemes (readLexeme c rest).2 := by
  rw [← lexemesWithin_eq rest.length _ (length_readLexeme_le c rest)]
  rfl

/-! ## Texts and comments -/

/-- True of markup at which a text ends: nothing, or an angle bracket. -/
def endsText : List Char → Bool
  | [] => true
  | c :: _ => c = '<'

/-- True of what can follow an angle bracket that is only text. -/
def opensNothing : List Char → Bool
  | [] => true
  | '/' :: d :: _ => !d.isAlpha
  | d :: _ => d != '!' && d != '?' && !d.isAlpha

/-- True of a text that is read as one lexeme. -/
def isOneText : List Char → Bool
  | [] => false
  | c :: body => !body.contains '<' && (c != '<' || opensNothing body)

/-- An angle bracket that opens nothing starts a text. -/
theorem readLexeme_angle {body : List Char} (h : opensNothing body) :
    readLexeme '<' body = readText '<' body := by
  cases body with
  | nil => rfl
  | cons d rest =>
    by_cases hslash : d = '/'
    · subst hslash
      cases rest with
      | nil => rfl
      | cons e rest =>
        have he : e.isAlpha = false := by simpa [opensNothing] using h
        simp [readLexeme, he]
    · have hd : (d ≠ '!' ∧ d ≠ '?') ∧ d.isAlpha = false := by
        simpa [opensNothing, hslash] using h
      simp [readLexeme, hd, hslash]

/-- What opens nothing does so in front of another angle bracket as well. -/
theorem opensNothing_append {body rest : List Char} (hbody : opensNothing body)
    (hrest : endsText rest) : opensNothing (body ++ rest) := by
  have hhead : rest = [] ∨ ∃ after, rest = '<' :: after := by
    cases rest with
    | nil => exact .inl rfl
    | cons c after => exact .inr ⟨after, by simpa [endsText] using hrest⟩
  cases body with
  | nil => rcases hhead with rfl | ⟨after, rfl⟩ <;> rfl
  | cons d body =>
    by_cases hslash : d = '/'
    · subst hslash
      cases body with
      | nil => rcases hhead with rfl | ⟨after, rfl⟩ <;> rfl
      | cons e body => exact hbody
    · simpa [opensNothing, hslash] using hbody

/-- A text is read up to the end of markup or the next angle bracket. -/
theorem lexemes_text {content rest : List Char} (hcontent : isOneText content)
    (hrest : endsText rest) :
    lexemes (content ++ rest) = .text (.ofList content) :: lexemes rest := by
  cases content with
  | nil => simp [isOneText] at hcontent
  | cons c body =>
    simp only [isOneText, Bool.and_eq_true, Bool.not_eq_true', Bool.or_eq_true, bne_iff_ne] at hcontent
    obtain ⟨hbody, hplain⟩ := hcontent
    have hpass : ∀ d ∈ body, (d != '<') = true := by
      intro d hd
      rw [bne_iff_ne]
      rintro rfl
      simp_all
    have hstop : rest.takeWhile (· != '<') = [] ∧ rest.dropWhile (· != '<') = rest := by
      cases rest with
      | nil => simp
      | cons d rest =>
        simp only [endsText, decide_eq_true_eq] at hrest
        simp [hrest]
    have hread : readText c (body ++ rest) = (.text (.ofList (c :: body)), rest) := by
      rw [readText, List.takeWhile_append_of_pos hpass, List.dropWhile_append_of_pos hpass,
        hstop.1, hstop.2, List.append_nil]
    have hlexeme : readLexeme c (body ++ rest) = readText c (body ++ rest) := by
      by_cases hc : c = '<'
      · subst hc
        exact readLexeme_angle (opensNothing_append (hplain.resolve_left fun h => h rfl) hrest)
      · simp [readLexeme, hc]
    rw [List.cons_append, lexemes_cons, hlexeme, hread]

/-- The mark that ends a comment cannot overlap itself. -/
theorem unbordered_commentEnd : Text.Unbordered ['-', '-', '>'] := by
  intro back hsuffix hbegins hne
  simp only [List.suffix_cons_iff, List.suffix_nil] at hsuffix
  rcases hsuffix with rfl | rfl | rfl | rfl
  · rfl
  · revert hbegins
    decide
  · revert hbegins
    decide
  · exact absurd rfl hne

/-- Where a comment starts, it goes up to its end mark. -/
theorem readLexeme_comment (text : List Char) :
    readLexeme '<' ('!' :: '-' :: '-' :: text) =
      (.comment (.ofList (upTo ['-', '-', '>'] text).1), (upTo ['-', '-', '>'] text).2) := rfl

/-- A comment is read as a whole. -/
theorem lexemes_comment {body : String} (h : ¬ ['-', '-', '>'] <:+: body.toList)
    (rest : List Char) :
    lexemes (("<!--" ++ body ++ "-->").toList ++ rest) = .comment body :: lexemes rest := by
  have hwritten : ("<!--" ++ body ++ "-->").toList ++ rest =
      '<' :: '!' :: '-' :: '-' :: (body.toList ++ (['-', '-', '>'] ++ rest)) := by
    simp
  have hend : upTo ['-', '-', '>'] (body.toList ++ (['-', '-', '>'] ++ rest)) =
      (body.toList, rest) := by
    rw [upTo, Text.breakAt_of_absent unbordered_commentEnd (by simp) h rest]
    rfl
  rw [hwritten, lexemes_cons, readLexeme_comment, hend, String.ofList_toList]

/-! ## Tags -/

/-- A letter in lower case is in lower case already. -/
theorem toLower_toLower (c : Char) : c.toLower.toLower = c.toLower := by
  unfold Char.toLower
  split
  next h =>
    have hlower : ¬ (c.val + ('a'.val - 'A'.val) ≥ 'A'.val ∧
        c.val + ('a'.val - 'A'.val) ≤ 'Z'.val) := by
      simp only [UInt32.le_iff_toNat_le, UInt32.toNat_add, ge_iff_le, Char.reduceVal,
        UInt32.reduceToNat, UInt32.reduceSub] at h ⊢
      omega
    simp only [hlower, ↓reduceDIte]
  · rfl

/-- No letter becomes an angle bracket in lower case. -/
theorem toLower_ne_angle {c : Char} (h : c ≠ '<') : c.toLower ≠ '<' := by
  unfold Char.toLower
  split
  next hupper =>
    intro heq
    have hval := congrArg (fun d : Char => d.val.toNat) heq
    simp only [UInt32.le_iff_toNat_le, ge_iff_le, UInt32.toNat_add, Char.reduceVal,
      UInt32.reduceToNat, UInt32.reduceSub] at hupper hval
    omega
  · exact h

/-- True of an attribute that is read back as it is written. -/
def Attribute.legible (a : Attribute) : Bool :=
  !a.name.isEmpty && a.name.toList.all isAttributeNameChar && !a.value.toList.contains '"'

/-- True of a tag that is read back as it is written. -/
def Tag.legible (tag : Tag) : Bool :=
  (tag.name.toList.head?.any Char.isAlpha && tag.name.toList.all isTagNameChar) &&
    tag.attributes.all Attribute.legible

/-- The attributes of a tag are written one after the other. -/
theorem toList_attributesText_cons (name : String) (a : Attribute) (rest : List Attribute) :
    (Tag.attributesText ⟨name, a :: rest⟩).toList =
      ' ' :: (a.name.toList ++ '=' :: '"' :: (a.value.toList ++ '"' ::
        (Tag.attributesText ⟨name, rest⟩).toList)) := by
  simp [Tag.attributesText, String.join_cons]

/-- A value in double quotes is read up to its closing quote. -/
theorem readAssignment_written {value : List Char} (h : '"' ∉ value) (rest : List Char) :
    readAssignment ('=' :: '"' :: (value ++ '"' :: rest)) = (value, rest) := by
  have hpass : ∀ c ∈ value, (c != '"') = true := by
    intro c hc
    rw [bne_iff_ne]
    rintro rfl
    exact h hc
  have hblank : ('"' :: (value ++ '"' :: rest)).dropWhile isBlank = '"' :: (value ++ '"' :: rest) :=
    List.dropWhile_cons_of_neg (by decide)
  rw [readAssignment, hblank]
  simp only [readValue, decide_true, Bool.true_or, ↓reduceIte]
  rw [List.takeWhile_append_of_pos hpass, List.dropWhile_append_of_pos hpass]
  simp

/-- Where a name stands behind blanks, an attribute is read. -/
theorem readAttributes_name {text rest : List Char} {c : Char} (hc : isAttributeNameChar c)
    (htext : text.dropWhile isBlank = c :: rest) (steps : Nat) :
    let assigned := readAssignment (((c :: rest).dropWhile isAttributeNameChar).dropWhile isBlank)
    let read := readAttributes steps assigned.2
    readAttributes (steps + 1) text =
      (⟨.ofList ((c :: rest).takeWhile isAttributeNameChar), .ofList assigned.1⟩ :: read.1,
        read.2) := by
  have hslash : c ≠ '/' := by
    rintro rfl
    exact absurd hc (by decide)
  have hangle : c ≠ '>' := by
    rintro rfl
    exact absurd hc (by decide)
  dsimp only
  rw [readAttributes, htext]
  simp [hslash, hc]

/-- A written attribute is read back in front of any other. -/
theorem readAttributes_attribute {a : Attribute} (h : a.legible) (steps : Nat) (rest : List Char) :
    readAttributes (steps + 1)
        (' ' :: (a.name.toList ++ '=' :: '"' :: (a.value.toList ++ '"' :: rest))) =
      (a :: (readAttributes steps rest).1, (readAttributes steps rest).2) := by
  simp only [Attribute.legible, Bool.and_eq_true, Bool.not_eq_true', List.all_eq_true] at h
  obtain ⟨⟨hname, hchars⟩, hvalue⟩ := h
  have hquote : '"' ∉ a.value.toList := by simpa using hvalue
  have hletters : a.name.toList ≠ [] := by simpa using hname
  obtain ⟨c, letters, hc⟩ := List.exists_cons_of_ne_nil hletters
  rw [hc] at hchars
  have hstart := hchars c List.mem_cons_self
  have hblank : isBlank c = false := by
    simp only [isAttributeNameChar, Bool.and_eq_true, Bool.not_eq_true'] at hstart
    exact hstart.1.1.1
  let assigned := '=' :: '"' :: (a.value.toList ++ '"' :: rest)
  have hequals : isAttributeNameChar '=' = false := by decide
  have hpass : (c :: (letters ++ assigned)).dropWhile isAttributeNameChar = assigned := by
    rw [← List.cons_append, List.dropWhile_append_of_pos hchars,
      List.dropWhile_cons_of_neg (by simp [hequals])]
  have htake : (c :: (letters ++ assigned)).takeWhile isAttributeNameChar = a.name.toList := by
    rw [← List.cons_append, List.takeWhile_append_of_pos hchars,
      List.takeWhile_cons_of_neg (by simp [hequals]), List.append_nil, hc]
  have hgap : assigned.dropWhile isBlank = assigned := List.dropWhile_cons_of_neg (by decide)
  have hskip : (' ' :: (a.name.toList ++ assigned)).dropWhile isBlank = c :: (letters ++ assigned) := by
    rw [hc, List.dropWhile_cons_of_pos (by decide), List.cons_append,
      List.dropWhile_cons_of_neg (by simp [hblank])]
  have hread := readAttributes_name hstart hskip steps
  simp only [hpass, htake, hgap] at hread
  rw [hread, readAssignment_written hquote rest, String.ofList_toList, String.ofList_toList]

/-- Attributes are read back up to the end of their tag. -/
theorem readAttributes_written {attributes : List Attribute}
    (h : attributes.all Attribute.legible) (name : String) {steps : Nat}
    (hsteps : attributes.length < steps) (rest : List Char) :
    readAttributes steps ((Tag.attributesText ⟨name, attributes⟩).toList ++ '>' :: rest) =
      (attributes, false, rest) := by
  induction attributes generalizing steps with
  | nil =>
    have hblank : ('>' :: rest).dropWhile isBlank = '>' :: rest :=
      List.dropWhile_cons_of_neg (by decide)
    cases steps with
    | zero => simp at hsteps
    | succ steps =>
      change readAttributes _ ('>' :: rest) = _
      rw [readAttributes, hblank]
      rfl
  | cons a attributes ih =>
    simp only [List.all_cons, Bool.and_eq_true] at h
    cases steps with
    | zero => simp at hsteps
    | succ steps =>
      have hread := readAttributes_attribute h.1 steps
        ((Tag.attributesText ⟨name, attributes⟩).toList ++ '>' :: rest)
      rw [ih h.2 (Nat.lt_of_succ_lt_succ hsteps)] at hread
      rw [toList_attributesText_cons]
      simpa using hread

/-- Attributes are no more than the characters that they are written with. -/
theorem length_attributes_le (tag : Tag) :
    tag.attributes.length ≤ tag.attributesText.toList.length := by
  obtain ⟨name, attributes⟩ := tag
  induction attributes with
  | nil => exact Nat.zero_le _
  | cons a attributes ih =>
    rw [toList_attributesText_cons]
    simp only [List.length_cons, List.length_append] at ih ⊢
    omega

/-- A name in lower case is void when the name is. -/
@[simp] theorem isVoid_asciiLower (name : String) : isVoid (asciiLower name) = isVoid name := by
  have hlower : (asciiLower name).toList.map Char.toLower = name.toList.map Char.toLower := by
    rw [asciiLower, String.toList_ofList, List.map_map]
    exact congrArg (List.map · name.toList) (funext toLower_toLower)
  simp [isVoid, Text.sameIgnoringCase, hlower]

/-- True of the names of raw-text elements, in any ASCII case. -/
def isRawText (name : String) : Bool :=
  rawTextTags.contains (asciiLower name)

/-- An opening tag is read back; what it opens depends on its name. -/
theorem readOpening_written {tag : Tag} (h : tag.legible) (rest : List Char) :
    readOpening (tag.name.toList ++ (tag.attributesText.toList ++ '>' :: rest)) =
      if isVoid tag.name then (.leaf tag, rest)
      else if isRawText tag.name then
        let (body, after) := readRawText (asciiLower tag.name) rest
        (.raw tag (.ofList body), after)
      else (.opening tag, rest) := by
  simp only [Tag.legible, Bool.and_eq_true, List.all_eq_true] at h
  obtain ⟨⟨-, hname⟩, hattributes⟩ := h
  let after := tag.attributesText.toList ++ '>' :: rest
  have hafter : ∃ c text, after = c :: text ∧ isTagNameChar c = false := by
    obtain ⟨name, attributes⟩ := tag
    cases attributes with
    | nil => exact ⟨'>', rest, rfl, by decide⟩
    | cons a attributes =>
      refine ⟨' ', _, congrArg (· ++ '>' :: rest) (toList_attributesText_cons name a attributes), ?_⟩
      decide
  obtain ⟨c, text, hcons, hc⟩ := hafter
  have hpass : (tag.name.toList ++ after).dropWhile isTagNameChar = after := by
    rw [List.dropWhile_append_of_pos hname, hcons, List.dropWhile_cons_of_neg (by simp [hc])]
  have htake : (tag.name.toList ++ after).takeWhile isTagNameChar = tag.name.toList := by
    rw [List.takeWhile_append_of_pos hname, hcons, List.takeWhile_cons_of_neg (by simp [hc]),
      List.append_nil]
  have hread : readAttributes (after.length + 1) after = (tag.attributes, false, rest) := by
    refine readAttributes_written (List.all_eq_true.mpr hattributes) tag.name ?_ rest
    have hlength := length_attributes_le tag
    simp only [after, List.length_append]
    omega
  change readOpening (tag.name.toList ++ after) = _
  rw [readOpening]
  simp only [hpass, htake, hread, String.ofList_toList, Bool.false_or, isVoid_asciiLower]
  rfl

/-- Up to a character that does not come before, all is passed. -/
theorem upTo_char {c : Char} {before : List Char} (h : c ∉ before) (rest : List Char) :
    upTo [c] (before ++ c :: rest) = (before, rest) := by
  have hborder : Text.Unbordered [c] := Text.unbordered_cons List.not_mem_nil
  have hpart : ¬ [c] <:+: before := fun hin => h (hin.subset List.mem_cons_self)
  have hbreak := Text.breakAt_of_absent hborder (by simp) hpart rest
  rw [List.singleton_append] at hbreak
  rw [upTo, hbreak]
  rfl

/-- A letter after an angle bracket starts an opening tag. -/
theorem readLexeme_opening {c : Char} (hc : c.isAlpha) (rest : List Char) :
    readLexeme '<' (c :: rest) = readOpening (c :: rest) := by
  have hne {d : Char} (hd : d.isAlpha = false) : c ≠ d := by
    rintro rfl
    simp [hc] at hd
  have hbang : c ≠ '!' := hne rfl
  have hquestion : c ≠ '?' := hne rfl
  have hslash : c ≠ '/' := hne rfl
  simp [readLexeme, hbang, hslash, hc]

/-- A letter after an angle bracket and a slash starts a closing tag. -/
theorem readLexeme_closing {c : Char} (hc : c.isAlpha) (rest : List Char) :
    readLexeme '<' ('/' :: c :: rest) = readClosing (c :: rest) := by
  simp [readLexeme, hc]

/-- An opening tag is one lexeme, and with a raw text in it all up to the closing tag is. -/
theorem lexemes_opening {tag : Tag} (h : tag.legible) (rest : List Char) :
    lexemes (tag.opening.toList ++ rest) =
      if isVoid tag.name then .leaf tag :: lexemes rest
      else if isRawText tag.name then
        let (body, after) := readRawText (asciiLower tag.name) rest
        .raw tag (.ofList body) :: lexemes after
      else .opening tag :: lexemes rest := by
  have hread := readOpening_written h rest
  simp only [Tag.legible, Bool.and_eq_true] at h
  obtain ⟨⟨hhead, -⟩, -⟩ := h
  have hwritten : tag.opening.toList ++ rest =
      '<' :: (tag.name.toList ++ (tag.attributesText.toList ++ '>' :: rest)) := by
    simp [Tag.opening]
  cases hname : tag.name.toList with
  | nil => simp [hname] at hhead
  | cons c letters =>
    have hc : c.isAlpha := by simpa [hname] using hhead
    rw [hname, List.cons_append] at hwritten hread
    rw [hwritten, lexemes_cons, readLexeme_opening hc, hread]
    split_ifs <;> rfl

/-- A closing tag is one lexeme. -/
theorem lexemes_closing {tag : Tag} (h : tag.legible) (rest : List Char) :
    lexemes (tag.closing.toList ++ rest) = .closing tag.name :: lexemes rest := by
  simp only [Tag.legible, Bool.and_eq_true, List.all_eq_true] at h
  obtain ⟨⟨hhead, hchars⟩, -⟩ := h
  have hwritten : tag.closing.toList ++ rest = '<' :: '/' :: (tag.name.toList ++ '>' :: rest) := by
    simp [Tag.closing]
  have hpass : ∀ c ∈ tag.name.toList, (!isBlank c && c != '>') = true := by
    intro c hc
    have hchar := hchars c hc
    simp only [isTagNameChar, Bool.and_eq_true] at hchar
    simp [hchar]
  have hread : readClosing (tag.name.toList ++ '>' :: rest) = (.closing tag.name, rest) := by
    have hend : upTo ['>'] ('>' :: rest) = ([], rest) := upTo_char List.not_mem_nil rest
    rw [readClosing]
    simp only [List.takeWhile_append_of_pos hpass, List.dropWhile_append_of_pos hpass]
    simp [hend]
  cases hname : tag.name.toList with
  | nil => simp [hname] at hhead
  | cons c letters =>
    have hc : c.isAlpha := by simpa [hname] using hhead
    rw [hname, List.cons_append] at hwritten hread
    rw [hwritten, lexemes_cons, readLexeme_closing hc, hread]

/-- A raw text is read up to the closing tag of its element. -/
theorem readRawText_written {tag : Tag} (h : tag.legible) (hraw : isRawText tag.name)
    {body : List Char}
    (hbody : ¬ '<' :: '/' :: (asciiLower tag.name).toList <:+: body.map Char.toLower)
    (rest : List Char) :
    readRawText (asciiLower tag.name) (body ++ (tag.closing.toList ++ rest)) = (body, rest) := by
  simp only [Tag.legible, Bool.and_eq_true, List.all_eq_true] at h
  obtain ⟨⟨-, hchars⟩, -⟩ := h
  have hlower : (asciiLower tag.name).toList = tag.name.toList.map Char.toLower := by
    simp [asciiLower]
  have hborder : Text.Unbordered ('<' :: '/' :: (asciiLower tag.name).toList) := by
    have hangle : ∀ name ∈ rawTextTags, '<' ∉ name.toList := by decide
    have hname := hangle _ (List.contains_iff_mem.mp hraw)
    exact Text.unbordered_cons (by simpa using hname)
  have htext : (body ++ (tag.closing.toList ++ rest)).map Char.toLower =
      body.map Char.toLower ++ ('<' :: '/' :: (asciiLower tag.name).toList ++
        '>' :: rest.map Char.toLower) := by
    simp [Tag.closing, hlower]
  have hend : upTo ['>'] (tag.closing.toList ++ rest) = ('<' :: '/' :: tag.name.toList, rest) := by
    have hname : '>' ∉ '<' :: '/' :: tag.name.toList := by
      have hchar : '>' ∉ tag.name.toList := fun hmem => absurd (hchars _ hmem) (by decide)
      simpa using hchar
    have hupTo := upTo_char hname rest
    simpa [Tag.closing] using hupTo
  rw [readRawText, htext, Text.breakAt_of_absent hborder (by simp) hbody]
  simp [hend]

/-- A raw text with its closing tag is in the lexeme of its opening tag. -/
theorem lexemes_raw {tag : Tag} (h : tag.legible) (hvoid : isVoid tag.name = false)
    (hraw : isRawText tag.name) {body : String}
    (hbody : ¬ '<' :: '/' :: (asciiLower tag.name).toList <:+: body.toList.map Char.toLower)
    (rest : List Char) :
    lexemes (tag.opening.toList ++ (body.toList ++ (tag.closing.toList ++ rest))) =
      .raw tag body :: lexemes rest := by
  rw [lexemes_opening h, if_neg (by simp [hvoid]), if_pos hraw, readRawText_written h hraw hbody]
  simp only [String.ofList_toList]

end DirectiveMarkup.Markup
