import DirectiveMarkup.Proofs.Pieces
import DirectiveMarkup.Proofs.WellRead

/-!
# Reading loses nothing

All markup is divided into pieces, whatever it is, and the forest that is read of it has in its walk
what the pieces start, in the same order: every opening tag with its attributes, every text, comment
and raw text, each once and as it is written. So nothing is lost, doubled or put elsewhere by
unterminated tags and quotes, stray marks, or closing tags that close several elements at once.

The pieces are found along the reader, one lemma for each kind of lexeme. What the reader passes
over in front of an attribute is put in front of whatever follows it in the tag.
-/

namespace DirectiveMarkup.Markup

open DirectiveMarkup.Text (breakAt isBlank)

/-! ## Where scans stop -/

/-- A scan stops at a character of another kind. -/
theorem startsNot_dropWhile (kind : Char → Bool) (text : List Char) :
    StartsNot kind (text.dropWhile kind) := by
  intro c hc
  have hhead := List.head?_dropWhile_not kind text
  rw [Option.mem_def.mp hc] at hhead
  simpa using hhead

/-- A pattern stands between what is before it and what follows, unless the text ends first. -/
theorem exists_upTo {pattern : List Char} (hpattern : pattern ≠ []) (text : List Char) :
    ∃ closed, (upTo pattern text).1 ++ (endMark pattern closed ++ (upTo pattern text).2) = text ∧
      (closed = false → (upTo pattern text).2 = []) := by
  unfold upTo
  cases h : breakAt pattern text with
  | none => exact ⟨false, by simp [endMark], fun _ => rfl⟩
  | some parts =>
    obtain ⟨htext, -⟩ := Text.of_breakAt_eq_some hpattern h
    refine ⟨true, ?_, fun hclosed => nomatch hclosed⟩
    rw [htext]
    rfl

/-- What stands before the first occurrence of a character does not have it. -/
theorem notMem_upTo (c : Char) (text : List Char) : c ∉ (upTo [c] text).1 := by
  intro hmem
  obtain ⟨before, after, hparts⟩ := List.append_of_mem hmem
  exact not_infix_upTo (List.cons_ne_nil c []) text ⟨before, after, by simp [hparts]⟩

/-- Characters that are not looked for are passed. -/
theorem upTo_append {c : Char} {first : List Char} (h : c ∉ first) (rest : List Char) :
    upTo [c] (first ++ rest) = (first ++ (upTo [c] rest).1, (upTo [c] rest).2) := by
  induction first with
  | nil => rfl
  | cons d first ih =>
    have hd : c ≠ d := List.ne_of_not_mem_cons h
    have hnone : [c].isPrefixOf? (d :: (first ++ rest)) = none := by
      simp [List.isPrefixOf?, hd]
    have hrest := ih (List.not_mem_of_not_mem_cons h)
    rw [upTo] at hrest
    rw [List.cons_append, upTo, Text.breakAt_cons, hnone]
    cases hbreak : breakAt [c] (first ++ rest) with
    | none =>
      rw [hbreak] at hrest
      simpa [Prod.ext_iff] using hrest
    | some parts =>
      rw [hbreak] at hrest
      simpa [Prod.ext_iff] using hrest

/-! ## Attributes -/

/-- What is read as a value is written there. -/
theorem exists_writtenValue {text : List Char} (h : StartsNot isBlank text) :
    ∃ value : WrittenValue, value.content = (readValue text).1 ∧
      value.source ++ (readValue text).2 = text ∧ value.Fits (readValue text).2 := by
  cases text with
  | nil => exact ⟨.bare [], rfl, rfl, List.forall_mem_nil _, startsNot_nil _, startsNot_nil _⟩
  | cons quote rest =>
    rw [readValue]
    split_ifs with hquote
    · have hcontent : quote ∉ rest.takeWhile (· != quote) := fun hmem => by
        simpa using List.mem_takeWhile_imp hmem
      have hsplit : rest.takeWhile (· != quote) ++ rest.dropWhile (· != quote) = rest :=
        List.takeWhile_append_dropWhile
      have hstop := startsNot_dropWhile (· != quote) rest
      cases hrest : rest.dropWhile (· != quote) with
      | nil =>
        rw [hrest] at hsplit
        refine ⟨.quoted quote (rest.takeWhile (· != quote)) false, rfl, ?_, by simpa using hquote,
          hcontent, fun _ => rfl⟩
        simpa [WrittenValue.source, endMark] using hsplit
      | cons c others =>
        rw [hrest] at hsplit hstop
        obtain rfl : c = quote := by simpa using hstop c rfl
        refine ⟨.quoted c (rest.takeWhile (· != c)) true, rfl, ?_, by simpa using hquote,
          hcontent, fun hclosed => absurd hclosed (by decide)⟩
        simpa [WrittenValue.source, endMark] using hsplit
    · refine ⟨.bare ((quote :: rest).takeWhile isBareValueChar), rfl,
        List.takeWhile_append_dropWhile, fun c hc => List.mem_takeWhile_imp hc,
        startsNot_dropWhile _ _, ?_⟩
      rw [List.takeWhile_append_dropWhile]
      rintro c ⟨⟩
      simpa [h quote rfl] using hquote

/-- What is read behind an attribute name is written there. Blanks that no equals sign follows are
left in front of what comes next. -/
theorem exists_assignment {text : List Char} (h : StartsNot isAttributeNameChar text) :
    ∃ (assignment : Assignment) (gap : List Char),
      let read := readAssignment (text.dropWhile isBlank)
      assignment.content = read.1 ∧ (∀ c ∈ gap, isBlank c) ∧
        assignment.source ++ (gap ++ read.2) = text ∧ assignment.Fits (gap ++ read.2) := by
  have hgap : ∀ c ∈ text.takeWhile isBlank, isBlank c := fun c hc => List.mem_takeWhile_imp hc
  have hsplit : text.takeWhile isBlank ++ text.dropWhile isBlank = text :=
    List.takeWhile_append_dropWhile
  unfold readAssignment
  split
  next rest hequals =>
    obtain ⟨value, hcontent, hsource, hfits⟩ :=
      exists_writtenValue (startsNot_dropWhile isBlank rest)
    refine ⟨.equals (text.takeWhile isBlank) (rest.takeWhile isBlank) value, [], hcontent,
      List.forall_mem_nil _, ?_, hgap, fun c hc => List.mem_takeWhile_imp hc, hfits⟩
    rw [Assignment.source, List.append_assoc, List.cons_append, List.append_assoc, List.nil_append,
      hsource, List.takeWhile_append_dropWhile, ← hequals, hsplit]
  next hother =>
    refine ⟨.missing, text.takeWhile isBlank, rfl, hgap, hsplit, ?_⟩
    rw [hsplit]
    refine ⟨h, fun c hc => decide_eq_false fun hequals => ?_⟩
    obtain ⟨rest, hrest⟩ := List.head?_eq_some_iff.mp hc
    exact hother rest (hequals ▸ hrest)

/-! ## Tags -/

namespace TagTail

variable (tail : TagTail) (front : List Char)

/-- More characters to pass over, in front of all else. -/
def padded : TagTail :=
  match tail.attributes with
  | [] => ⟨[], front ++ tail.junk, tail.ending⟩
  | a :: others => ⟨⟨front ++ a.junk, a.name, a.assignment⟩ :: others, tail.junk, tail.ending⟩

/-- What is padded is written behind its padding. -/
theorem source_padded : (tail.padded front).source = front ++ tail.source := by
  obtain ⟨attributes, junk, ending⟩ := tail
  cases attributes with
  | nil => simp [padded, source]
  | cons a others => simp [padded, source, WrittenAttribute.source]

/-- Padding adds no attribute. -/
theorem toAttribute_padded : (tail.padded front).attributes.map WrittenAttribute.toAttribute =
    tail.attributes.map WrittenAttribute.toAttribute := by
  obtain ⟨attributes, junk, ending⟩ := tail
  cases attributes <;> rfl

/-- Padding keeps the end. -/
theorem ending_padded : (tail.padded front).ending = tail.ending := by
  obtain ⟨attributes, junk, ending⟩ := tail
  cases attributes <;> rfl

variable {tail front}

/-- Padding fits, unless a slash comes to stand right in front of the angle bracket. -/
theorem Fits.padded {rest : List Char} (h : tail.Fits rest) (hfront : ∀ c ∈ front, isJunk c)
    (hslash : front.getLast? = some '/' → ∀ behind, tail.source ≠ '>' :: behind) :
    (tail.padded front).Fits rest := by
  obtain ⟨attributes, junk, ending⟩ := tail
  have hjunk (junk : List Char) (hj : ∀ c ∈ junk, isJunk c) : ∀ c ∈ front ++ junk, isJunk c :=
    List.forall_mem_append.mpr ⟨hfront, hj⟩
  cases attributes with
  | nil =>
    refine ⟨trivial, hjunk junk h.junk, fun hangle hlast => ?_, h.missing⟩
    obtain rfl : ending = .angle := hangle
    rw [TagTail.padded, List.getLast?_append] at hlast
    cases hjunkLast : junk.getLast? with
    | some c =>
      rw [hjunkLast] at hlast
      exact h.slash rfl (hjunkLast.trans hlast)
    | none =>
      rw [hjunkLast] at hlast
      obtain rfl := List.getLast?_eq_none_iff.mp hjunkLast
      exact hslash hlast [] rfl
  | cons a others =>
    obtain ⟨⟨ha, hothers⟩, hj, hs, hm⟩ := h
    exact ⟨⟨⟨hjunk a.junk ha.junk, ha.named, ha.name, ha.assignment⟩, hothers⟩, hj, hs, hm⟩

/-- What is written behind the name of a tag is what was read there, with what follows the tag. -/
structure Reads (tail : TagTail) (text : List Char) (read : List Attribute × Bool × List Char) :
    Prop where
  source : tail.source ++ read.2.2 = text
  attributes : tail.attributes.map WrittenAttribute.toAttribute = read.1
  ending : tail.ending = .slashAngle ↔ read.2.1
  fits : tail.Fits read.2.2

/-- The end of a tag is read by itself. -/
theorem reads_end (ending : TagEnd) {rest : List Char} (h : ending = .missing → rest = []) :
    Reads ⟨[], [], ending⟩ (ending.source ++ rest) ([], ending = .slashAngle, rest) where
  source := rfl
  attributes := rfl
  ending := decide_eq_true_iff.symm
  fits := ⟨trivial, List.forall_mem_nil _, fun _ hslash => (nomatch hslash), h⟩

namespace Reads

variable {text : List Char} {read : List Attribute × Bool × List Char}

/-- Padding is read in front. -/
theorem padded (h : tail.Reads text read) (hfront : ∀ c ∈ front, isJunk c)
    (hslash : front.getLast? = some '/' → ∀ behind, text ≠ '>' :: behind) :
    (tail.padded front).Reads (front ++ text) read where
  source := by rw [source_padded, List.append_assoc, h.source]
  attributes := by rw [toAttribute_padded, h.attributes]
  ending := by rw [ending_padded, h.ending]
  fits := h.fits.padded hfront fun hlast behind hbehind =>
    hslash hlast (behind ++ read.2.2) (by rw [← h.source, hbehind, List.cons_append])

/-- Blanks may always be passed over in front. -/
theorem padded_blank (h : tail.Reads text read) (hfront : ∀ c ∈ front, isBlank c) :
    (tail.padded front).Reads (front ++ text) read := by
  refine h.padded (fun c hc => by simp [isJunk, hfront c hc]) fun hlast => ?_
  exact absurd (hfront '/' (List.mem_of_getLast? hlast)) (by decide)

/-- An attribute is read in front of the others. -/
theorem cons (h : tail.Reads text read) {name : List Char} (hnamed : name ≠ [])
    (hname : ∀ c ∈ name, isAttributeNameChar c) {assignment : Assignment}
    (hassignment : assignment.Fits text) :
    Reads ⟨⟨[], name, assignment⟩ :: tail.attributes, tail.junk, tail.ending⟩
      (name ++ (assignment.source ++ text))
      (⟨.ofList name, .ofList assignment.content⟩ :: read.1, read.2) where
  source := by simp [TagTail.source, WrittenAttribute.source, ← h.source]
  attributes := by rw [List.map_cons, h.attributes]; rfl
  ending := h.ending
  fits := by
    rw [← h.source] at hassignment
    refine ⟨⟨⟨List.forall_mem_nil _, hnamed, hname, ?_⟩, h.fits.attributes⟩, h.fits.junk,
      h.fits.slash, h.fits.missing⟩
    simpa [TagTail.source] using hassignment

end Reads

end TagTail

/-- An attribute is read in front of what is read behind its value. -/
theorem exists_reads_attribute {text : List Char} {read : List Attribute × Bool × List Char}
    (hnamed : text.takeWhile isAttributeNameChar ≠ []) :
    let assigned := readAssignment ((text.dropWhile isAttributeNameChar).dropWhile isBlank)
    (∃ tail : TagTail, tail.Reads assigned.2 read) →
      ∃ tail : TagTail, tail.Reads text
        (⟨.ofList (text.takeWhile isAttributeNameChar), .ofList assigned.1⟩ :: read.1, read.2) := by
  rintro assigned ⟨tail, hreads⟩
  obtain ⟨assignment, gap, hcontent, hgap, hsource, hfits⟩ :=
    exists_assignment (startsNot_dropWhile isAttributeNameChar text)
  have hread := (hreads.padded_blank hgap).cons hnamed
    (fun c hc => List.mem_takeWhile_imp hc) hfits
  rw [hsource, hcontent, List.takeWhile_append_dropWhile] at hread
  exact ⟨_, hread⟩

/-- What starts no name and is neither a blank nor an angle bracket is passed over. -/
theorem isJunk_of_not_name {c : Char} (hname : isAttributeNameChar c = false)
    (hblank : isBlank c = false) (hangle : c ≠ '>') : isJunk c := by
  have hsign : c ≠ '=' → c = '/' := by simpa [isAttributeNameChar, hblank, hangle] using hname
  by_cases hequals : c = '='
  · simp [isJunk, hequals]
  · simp [isJunk, hsign hequals]

/-- What is read behind the name of a tag is written there. -/
theorem exists_tagTail {steps : Nat} {text : List Char} (hsteps : text.length < steps) :
    ∃ tail : TagTail, tail.Reads text (readAttributes steps text) := by
  induction steps generalizing text with
  | zero => exact absurd hsteps (Nat.not_lt_zero _)
  | succ steps ih =>
    have hlength := length_dropWhile_le isBlank text
    have hstart := startsNot_dropWhile isBlank text
    -- The blanks in front are passed over in each case, so they are put back once.
    suffices h : ∃ tail : TagTail,
        tail.Reads (text.dropWhile isBlank) (readAttributes (steps + 1) text) by
      obtain ⟨tail, hreads⟩ := h
      have hblank : ∀ c ∈ text.takeWhile isBlank, isBlank c := fun c hc => List.mem_takeWhile_imp hc
      have hpadded := hreads.padded_blank hblank
      rw [List.takeWhile_append_dropWhile] at hpadded
      exact ⟨_, hpadded⟩
    rw [readAttributes]
    split
    next hrest =>
      rw [hrest]
      exact ⟨_, TagTail.reads_end .missing fun _ => rfl⟩
    next rest hrest =>
      rw [hrest]
      exact ⟨_, TagTail.reads_end .slashAngle (by simp)⟩
    next rest hrest =>
      rw [hrest]
      exact ⟨_, TagTail.reads_end .angle (by simp)⟩
    next c rest hslashAngle hangle hrest =>
      rw [hrest] at hlength hstart ⊢
      rw [List.length_cons] at hlength
      dsimp only
      split
      next hempty =>
        have hkind : isAttributeNameChar c = false := by
          refine Bool.eq_false_iff.mpr fun hc => ?_
          simp [List.takeWhile_cons_of_pos hc] at hempty
        have hjunk := isJunk_of_not_name hkind (hstart c rfl) hangle
        obtain ⟨tail, hreads⟩ := @ih rest (by omega)
        refine ⟨tail.padded [c], hreads.padded (by simpa using hjunk) fun hslash behind hbehind => ?_⟩
        exact hslashAngle behind (by simpa using hslash) hbehind
      next hname =>
        have hc : isAttributeNameChar c := by
          by_contra hc
          simp [List.takeWhile_cons_of_neg hc] at hname
        have hafter := length_dropWhile_le isAttributeNameChar rest
        have hgap := length_dropWhile_le isBlank ((c :: rest).dropWhile isAttributeNameChar)
        have hshorter := length_readAssignment_le
          (((c :: rest).dropWhile isAttributeNameChar).dropWhile isBlank)
        rw [List.dropWhile_cons_of_pos hc] at hgap hshorter
        refine exists_reads_attribute (List.takeWhile_cons_of_pos hc ▸ List.cons_ne_nil _ _) (ih ?_)
        rw [List.dropWhile_cons_of_pos hc]
        omega

/-! ## Lexemes -/

/-- The nodes that a lexeme starts. -/
def Lexeme.entries : Lexeme → List Entry
  | .text content => [.text content]
  | .comment body => [.comment body]
  | .declaration => []
  | .closing _ => []
  | .opening tag => [.element tag]
  | .leaf tag => [.element tag]
  | .raw tag body => .element tag :: if body.isEmpty then [] else [.text body]

/-- Pieces that markup begins with, before the rest of it is divided. -/
structure Begins (front : List Piece) (entries : List Entry) (markup rest : List Char) : Prop where
  spelled : spelled front ++ rest = markup
  entries : front.flatMap Piece.entries = entries
  divided : ∀ pieces, Markup.spelled pieces = rest → Divided pieces → Divided (front ++ pieces)

/-- Markup begins with a single piece. -/
theorem begins_piece {piece : Piece} {markup rest : List Char} (hsource : piece.source ++ rest = markup)
    (hdivided : ∀ pieces, spelled pieces = rest → Divided pieces → Divided (piece :: pieces)) :
    Begins [piece] piece.entries markup rest where
  spelled := by simpa [spelled] using hsource
  entries := by simp
  divided := hdivided

/-- A text is a piece. -/
theorem begins_text {c : Char} {rest : List Char} (h : c ≠ '<' ∨ opensNothing rest) :
    Begins [.text (c :: rest.takeWhile (· != '<'))] (readText c rest).1.entries (c :: rest)
      (readText c rest).2 := by
  have hsplit : rest.takeWhile (· != '<') ++ rest.dropWhile (· != '<') = rest :=
    List.takeWhile_append_dropWhile
  refine begins_piece (congrArg (c :: ·) hsplit) fun pieces hpieces hdivided => .text ?_ hdivided
  rw [hpieces]
  refine ⟨isOneText_iff.mp ?_, ?_, fun body hbody => ?_⟩
  · have hread := wellRead_readText h
    rwa [readText, Lexeme.wellRead, String.toList_ofList] at hread
  · have hstop := startsNot_dropWhile (· != '<') rest
    change endsText (rest.dropWhile (· != '<'))
    cases hafter : rest.dropWhile (· != '<') with
    | nil => rfl
    | cons d others =>
      rw [hafter] at hstop
      simpa [endsText] using hstop d rfl
  · obtain ⟨hc, rfl⟩ := List.cons.inj hbody
    rw [readText, hsplit]
    exact opensNothing_iff.mp (h.resolve_left fun hne => hne hc)

/-- A comment is a piece. -/
theorem begins_comment (text : List Char) :
    ∃ front, Begins front [.comment (.ofList (upTo ['-', '-', '>'] text).1)]
      ('<' :: '!' :: '-' :: '-' :: text) (upTo ['-', '-', '>'] text).2 := by
  have hmark : ['-', '-', '>'] ≠ [] := List.cons_ne_nil _ _
  obtain ⟨closed, hsource, hmissing⟩ := exists_upTo hmark text
  refine ⟨[.comment (upTo ['-', '-', '>'] text).1 closed], begins_piece ?_ fun pieces hpieces hdivided =>
    .comment (not_infix_upTo hmark text) (fun hclosed => hpieces.trans (hmissing hclosed)) hdivided⟩
  simpa [Piece.source] using hsource

/-- A declaration or processing instruction is a piece. -/
theorem begins_declaration {mark : Char} {text : List Char}
    (h : mark = '!' ∧ ¬ ['-', '-'] <+: text ∨ mark = '?') :
    ∃ front, Begins front [] ('<' :: mark :: text) (upTo ['>'] text).2 := by
  obtain ⟨closed, hsource, hmissing⟩ := exists_upTo (List.cons_ne_nil '>' []) text
  refine ⟨[.declaration mark (upTo ['>'] text).1 closed], begins_piece ?_ fun pieces hpieces hdivided =>
    .declaration ?_ (notMem_upTo '>' text) (fun hclosed => hpieces.trans (hmissing hclosed)) hdivided⟩
  · simpa [Piece.source] using hsource
  · refine h.imp_left fun ⟨hmark, hdashes⟩ => ⟨hmark, fun hinside => hdashes ?_⟩
    exact hinside.trans ⟨_, hsource⟩

/-- A closing tag is a piece. -/
theorem begins_closing {c : Char} (hc : c.isAlpha) (rest : List Char) :
    ∃ front, Begins front (readClosing (c :: rest)).1.entries ('<' :: '/' :: c :: rest)
      (readClosing (c :: rest)).2 := by
  let inName := fun d => !isBlank d && d != '>'
  let name := (c :: rest).takeWhile inName
  let after := (c :: rest).dropWhile inName
  obtain ⟨closed, hsource, hmissing⟩ := exists_upTo (List.cons_ne_nil '>' []) after
  have hsplit : name ++ after = c :: rest := List.takeWhile_append_dropWhile
  refine ⟨[.closing ⟨name, (upTo ['>'] after).1, closed⟩], begins_piece ?_
    fun pieces hpieces hdivided => .closing ?_ hdivided⟩
  · rw [Piece.source, WrittenClosing.source, ← hsplit, ← hsource]
    simp [readClosing, name, after, inName, hsource]
  · have hstart : inName c := by
      have hname := isTagNameChar_of_isAlpha hc
      simp only [isTagNameChar, Bool.and_eq_true] at hname
      simp [inName, hname]
    refine ⟨⟨notMem_upTo '>' after, fun hclosed => hpieces.trans (hmissing hclosed)⟩,
      ⟨c, rest.takeWhile inName, List.takeWhile_cons_of_pos hstart, hc⟩, fun d hd => ?_, fun d hd => ?_⟩
    · have hkind : inName d := List.mem_takeWhile_imp hd
      simpa [inName] using hkind
    · -- The gap starts where the name stops, and not with an angle bracket.
      obtain ⟨others, hothers⟩ := List.head?_eq_some_iff.mp hd
      have hgap : (upTo ['>'] after).1 = d :: others := hothers
      have hkind := startsNot_dropWhile inName (c :: rest) d (by
        change d ∈ after.head?
        rw [← hsource, hgap]
        rfl)
      have hangle : d ≠ '>' := fun h => notMem_upTo '>' after (by simp [hgap, h])
      simpa [inName, hangle] using hkind

/-- Letters apart, lower case changes nothing. -/
theorem eq_of_toLower {c d : Char} (hd : d.isAlpha = false) (h : c.toLower = d) : c = d := by
  unfold Char.toLower at h
  split at h
  next hupper =>
    have hletter : d.isAlpha := by
      delta Char.isAlpha Char.isUpper Char.isLower
      simp only [← h, UInt32.le_iff_toNat_le, ge_iff_le, UInt32.toNat_add, Char.reduceVal,
        UInt32.reduceToNat, UInt32.reduceSub, Bool.or_eq_true, Bool.and_eq_true,
        decide_eq_true_eq] at hupper ⊢
      omega
    exact absurd hletter (by simp [hd])
  next => exact h

/-- Raw text with its closing tag is a piece, behind the opening tag that it belongs to. -/
theorem exists_rawText {tag : Tag} (hraw : isRawText tag.name) (text : List Char) :
    ∃ ending : Option WrittenClosing,
      let read := readRawText (asciiLower tag.name) text
      (Piece.rawText read.1 ending).source ++ read.2 = text ∧ RawTextFits tag read.1 ending read.2 := by
  have hfirst := not_infix_readRawText (asciiLower tag.name) text
  unfold readRawText at hfirst ⊢
  cases hbreak : breakAt ('<' :: '/' :: (asciiLower tag.name).toList) (text.map Char.toLower) with
  | none =>
    rw [hbreak] at hfirst
    refine ⟨none, by simp [Piece.source], hfirst, fun _ => rfl, nofun, nofun⟩
  | some parts =>
    obtain ⟨before, after⟩ := parts
    rw [hbreak] at hfirst
    obtain ⟨htext, -⟩ := Text.of_breakAt_eq_some (by simp) hbreak
    have hstart : (text.drop before.length).map Char.toLower =
        '<' :: '/' :: ((asciiLower tag.name).toList ++ after) := by
      rw [List.map_drop, htext, List.drop_left]
      rfl
    obtain ⟨angle, behindAngle, htail, hangle, hbehindAngle⟩ := List.map_eq_cons_iff.mp hstart
    obtain ⟨slash, behindSlash, rfl, hslash, hbehindSlash⟩ := List.map_eq_cons_iff.mp hbehindAngle
    obtain ⟨name, more, rfl, hname, -⟩ := List.map_eq_append_iff.mp hbehindSlash
    obtain rfl := eq_of_toLower rfl hangle
    obtain rfl := eq_of_toLower rfl hslash
    have hmark : '>' ∉ '<' :: '/' :: name := by
      have hangle : ∀ lower ∈ rawTextTags, '>' ∉ lower.toList := by decide
      have hlower := hangle _ (List.contains_iff_mem.mp hraw)
      rw [← hname] at hlower
      have hletters : '>' ∉ name := fun hmem => hlower (List.mem_map_of_mem hmem)
      simpa using hletters
    obtain ⟨closed, hsource, hmissing⟩ := exists_upTo (List.cons_ne_nil '>' []) more
    have hupTo := upTo_append hmark more
    rw [List.cons_append, List.cons_append, ← htail] at hupTo
    refine ⟨some ⟨name, (upTo ['>'] more).1, closed⟩, ?_, hfirst, nofun, ?_, ?_⟩
    · have hsplit := List.take_append_drop before.length text
      rw [htail] at hsplit
      simpa [hupTo, Piece.source, WrittenClosing.source, hsource] using hsplit
    · rintro written ⟨⟩
      refine ⟨notMem_upTo '>' more, fun hclosed => ?_⟩
      dsimp only
      rw [hupTo]
      exact hmissing hclosed
    · rintro written ⟨⟩
      have hlower : (asciiLower (.ofList name)).toList = (asciiLower tag.name).toList := by
        simpa [asciiLower] using hname
      exact String.toList_inj.mp hlower

/-- A void element holds no raw text. -/
theorem isRawText_of_isVoid {name : String} (h : isVoid name) : isRawText name = false := by
  have hraw : ∀ raw ∈ rawTextTags, isVoid raw = false := by decide
  refine Bool.eq_false_iff.mpr fun hname => ?_
  have hlower := hraw _ (List.contains_iff_mem.mp hname)
  rw [isVoid_asciiLower, h] at hlower
  exact nomatch hlower

section Opening

variable {written : WrittenTag} {rest : List Char}

/-- An opening tag without raw text behind it is a piece. -/
theorem begins_tag (hfits : written.Fits rest) (hstarts : written.startsRawText = false) :
    Begins [.opening written] [.element written.toTag] (written.source ++ rest) rest :=
  begins_piece rfl fun _ hpieces hdivided => .opening (hpieces ▸ hfits) hstarts hdivided

/-- An opening tag is two pieces together with its raw text. -/
theorem begins_raw (hfits : written.Fits rest) (hstarts : written.startsRawText) :
    let read := readRawText (asciiLower written.toTag.name) rest
    ∃ front, Begins front (Lexeme.raw written.toTag (.ofList read.1)).entries
      (written.source ++ rest) read.2 := by
  intro read
  obtain ⟨-, hraw⟩ := Bool.and_eq_true_iff.mp hstarts
  obtain ⟨ending, hbody, hrawFits⟩ := exists_rawText hraw rest
  refine ⟨[.opening written, .rawText read.1 ending], ?_, ?_, fun pieces hpieces hdivided => ?_⟩
  · rw [← hbody]
    simp [spelled, Piece.source, read]
  · simp [Piece.entries, Lexeme.entries]
  · have hbehind : spelled (.rawText read.1 ending :: pieces) = rest := by
      rw [← hbody, ← hpieces]
      rfl
    exact .raw (hbehind ▸ hfits) hstarts (hpieces ▸ hrawFits) hdivided

/-- What is read from the name of an opening tag on is written there. -/
theorem exists_writtenTag {c : Char} (hc : c.isAlpha) (rest : List Char) :
    ∃ written : WrittenTag,
      let afterName := (c :: rest).dropWhile isTagNameChar
      let read := readAttributes (afterName.length + 1) afterName
      written.toTag = ⟨.ofList ((c :: rest).takeWhile isTagNameChar), read.1⟩ ∧
        (written.tail.ending = .slashAngle ↔ read.2.1) ∧
        written.source ++ read.2.2 = '<' :: c :: rest ∧ written.Fits read.2.2 := by
  have hname : IsTagName ((c :: rest).takeWhile isTagNameChar) := by
    rw [← isTagName_iff, Bool.and_eq_true, List.all_eq_true,
      List.takeWhile_cons_of_pos (isTagNameChar_of_isAlpha hc)]
    refine ⟨hc, ?_⟩
    rw [← List.takeWhile_cons_of_pos (isTagNameChar_of_isAlpha hc)]
    exact fun d hd => List.mem_takeWhile_imp hd
  have hends := startsNot_dropWhile isTagNameChar (c :: rest)
  obtain ⟨tail, hreads⟩ :=
    exists_tagTail (Nat.lt_succ_self ((c :: rest).dropWhile isTagNameChar).length)
  refine ⟨⟨(c :: rest).takeWhile isTagNameChar, tail⟩, ?_, hreads.ending, ?_, hname, ?_, hreads.fits⟩
  · rw [WrittenTag.toTag, hreads.attributes]
  · rw [WrittenTag.source, List.cons_append, List.append_assoc, hreads.source,
      List.takeWhile_append_dropWhile]
  · rw [hreads.source]
    exact hends

/-- An opening tag is a piece, and with raw text behind it there are two. -/
theorem begins_opening {c : Char} (hc : c.isAlpha) (rest : List Char) :
    ∃ front, Begins front (readOpening (c :: rest)).1.entries ('<' :: c :: rest)
      (readOpening (c :: rest)).2 := by
  obtain ⟨written, htag, hending, hspelled, hfits⟩ := exists_writtenTag hc rest
  rw [readOpening]
  dsimp only at htag hending hspelled hfits ⊢
  generalize readAttributes _ _ = read at htag hending hspelled hfits ⊢
  generalize (c :: rest).takeWhile isTagNameChar = name at htag ⊢
  have hnamed : written.toTag.name = .ofList name := by rw [htag]
  rw [← hspelled]
  by_cases hleaf : read.2.1 || isVoid (asciiLower (.ofList name))
  · rw [if_pos hleaf, ← htag]
    refine ⟨_, begins_tag hfits ?_⟩
    rw [isVoid_asciiLower, ← hnamed, Bool.or_eq_true] at hleaf
    rcases hleaf with hslash | hvoid
    · rw [WrittenTag.startsRawText, hending.mpr hslash]
      rfl
    · rw [WrittenTag.startsRawText, isRawText_of_isVoid hvoid, Bool.and_false]
  · rw [if_neg hleaf]
    rw [Bool.or_eq_true, not_or] at hleaf
    split_ifs with hraw
    · rw [← htag, ← hnamed]
      rw [← hnamed] at hraw
      have hplain : written.tail.ending ≠ .slashAngle := fun h => hleaf.1 (hending.mp h)
      refine begins_raw hfits ?_
      rw [WrittenTag.startsRawText, bne_iff_ne.mpr hplain]
      exact hraw
    · rw [← htag]
      rw [← hnamed] at hraw
      refine ⟨_, begins_tag hfits ?_⟩
      rw [WrittenTag.startsRawText, isRawText, Bool.eq_false_iff.mpr hraw, Bool.and_false]

end Opening

/-- Markup begins with the pieces of its first lexeme. -/
theorem exists_begins (c : Char) (rest : List Char) :
    ∃ front, Begins front (readLexeme c rest).1.entries (c :: rest) (readLexeme c rest).2 := by
  unfold readLexeme
  split_ifs with hc
  · exact ⟨_, begins_text (.inl (by simpa using hc))⟩
  · obtain rfl : c = '<' := by simpa using hc
    split
    next rest =>
      obtain ⟨front, hfront⟩ := begins_comment rest
      exact ⟨front, hfront⟩
    next rest hcomment =>
      refine begins_declaration (.inl ⟨rfl, ?_⟩)
      rintro ⟨body, hbody⟩
      exact hcomment body hbody.symm
    next rest => exact begins_declaration (.inr rfl)
    next d rest =>
      split_ifs with hd
      · exact begins_closing hd rest
      · exact ⟨_, begins_text (.inr (by simp [opensNothing, hd]))⟩
    next d rest hcomment hbang hquestion hslash =>
      split_ifs with hd
      · exact begins_opening hd rest
      · exact ⟨_, begins_text (.inr (opensNothing_cons hd hbang hquestion hslash))⟩
    next => exact ⟨_, begins_text (.inr rfl)⟩

/-- The nodes that the lexemes of a markup start are what the forest that is read of it has in its
walk. -/
theorem walk_parse (markup : String) :
    walk (parse markup) = (lexemes markup.toList).flatMap Lexeme.entries := by
  rw [parse, walk_build]
  induction lexemes markup.toList with
  | nil => rfl
  | cons lexeme rest ih =>
    cases lexeme with
    | declaration => exact ih
    | closing name => exact ih
    | text content => exact congrArg (Entry.text content :: ·) ih
    | comment body => exact congrArg (Entry.comment body :: ·) ih
    | opening tag => exact congrArg (Entry.element tag :: ·) ih
    | leaf tag => exact congrArg (Entry.element tag :: ·) ih
    | raw tag body =>
      rw [List.filterMap_cons_some (by rfl), List.flatMap_cons, ih, List.flatMap_cons]
      by_cases hempty : body.isEmpty <;>
        simp [BuildStep.entries, Node.walk, walk, Lexeme.entries, hempty]

/-- All markup is divided into pieces, and the forest that is read of it has in its walk what they
start: nothing is lost, doubled or put elsewhere. -/
theorem exists_divided_walk_parse (markup : String) :
    ∃ pieces, spelled pieces = markup.toList ∧ Divided pieces ∧
      walk (parse markup) = pieces.flatMap Piece.entries := by
  rw [walk_parse]
  generalize markup.toList = text
  induction hlength : text.length using Nat.strong_induction_on generalizing text with
  | _ length ih =>
    cases text with
    | nil => exact ⟨[], rfl, .nil, rfl⟩
    | cons c rest =>
      have hshorter := length_readLexeme_le c rest
      obtain ⟨front, hfront⟩ := exists_begins c rest
      obtain ⟨pieces, hspelled, hdivided, hentries⟩ :=
        ih (readLexeme c rest).2.length (by rw [← hlength, List.length_cons]; omega) _ rfl
      refine ⟨front ++ pieces, ?_, hfront.divided pieces hspelled hdivided, ?_⟩
      · rw [spelled, List.flatMap_append, ← hfront.spelled, ← hspelled]
        rfl
      · rw [lexemes_cons, List.flatMap_cons, List.flatMap_append, hfront.entries, hentries]

end DirectiveMarkup.Markup
