import DirectiveMarkup.Interpolation
import DirectiveMarkup.Proofs.Occurrences

/-!
# Spans as one substitution

Interpolation replaces spans one after the other, each wherever it occurs in the text as it
then is. Filling replaces them all in one pass from the left. The two agree when no value brings
a new opening brace and no span ends with another one: then a replacement never touches a span
that is still to be replaced, nor the text that an earlier value has left.

Every text is made of characters that open no span, of spans, and at most one opening brace at
the end that is never closed; proofs about spans are by induction on this form.
-/

namespace DirectiveMarkup.Interpolation

open DirectiveMarkup.Expression (Value)

/-- A text taken apart into spans and what stands between them. -/
inductive Spanned : List Char → Prop where
  | nil : Spanned []
  | plain {c : Char} {rest : List Char} : c ≠ '{' → Spanned rest → Spanned (c :: rest)
  | span {source rest : List Char} : '}' ∉ source → Spanned rest →
      Spanned (span source ++ rest)
  | unclosed {tail : List Char} : '}' ∉ tail → Spanned ('{' :: tail)

/-- Every text can be taken apart. -/
theorem spanned : (text : List Char) → Spanned text
  | [] => .nil
  | c :: rest => by
    by_cases hc : c = '{'
    · subst hc
      by_cases hclosed : '}' ∈ rest
      · obtain ⟨source, after, rfl, hsource⟩ := List.eq_append_cons_of_mem hclosed
        have hrest := spanned after
        simpa [Interpolation.span] using Spanned.span hsource hrest
      · exact .unclosed hclosed
    · exact .plain hc (spanned rest)
termination_by text => text.length
decreasing_by
  all_goals subst_vars; simp only [List.length_cons, List.length_append]; omega

/-! ## The sources of a text -/

/-- A character that opens no span has no source. -/
theorem sources_cons {c : Char} (h : c ≠ '{') (rest : List Char) :
    sources (c :: rest) = sources rest := by
  simp [sources, sourcesFrom, h]

/-- Inside a span its content is kept up to the brace that closes it. -/
theorem sourcesFrom_some {source : List Char} (h : '}' ∉ source) (content rest : List Char) :
    sourcesFrom (some content) (source ++ '}' :: rest) =
      (content.reverse ++ source) :: sources rest := by
  induction source generalizing content with
  | nil => simp [sourcesFrom, sources]
  | cons c source ih =>
    have hc : c ≠ '}' := fun e => h (e ▸ List.mem_cons_self)
    have hsource : '}' ∉ source := fun hm => h (List.mem_cons_of_mem _ hm)
    simp only [List.cons_append, sourcesFrom, hc, ↓reduceIte]
    simpa using ih hsource (c :: content)

/-- A span has one source. -/
theorem sources_span {source : List Char} (h : '}' ∉ source) (rest : List Char) :
    sources (span source ++ rest) = source :: sources rest := by
  simpa [sources, sourcesFrom, span] using sourcesFrom_some h [] rest

/-- A brace that is never closed has no source. -/
theorem sources_unclosed {tail : List Char} (h : '}' ∉ tail) : sources ('{' :: tail) = [] := by
  suffices hfrom : ∀ content, sourcesFrom (some content) tail = [] by
    simpa [sources, sourcesFrom] using hfrom []
  induction tail with
  | nil => simp [sourcesFrom]
  | cons c tail ih =>
    have hc : c ≠ '}' := fun e => h (e ▸ List.mem_cons_self)
    intro content
    simpa [sourcesFrom, hc] using ih (fun hm => h (List.mem_cons_of_mem _ hm)) (c :: content)

/-- No source has a closing brace. -/
theorem notMem_of_mem_sources {text source : List Char} (h : source ∈ sources text) :
    '}' ∉ source := by
  induction spanned text with
  | nil => simp [sources, sourcesFrom] at h
  | plain hc _ ih => exact ih (by rwa [sources_cons hc] at h)
  | span hsource _ ih =>
    rw [sources_span hsource] at h
    rcases List.mem_cons.mp h with rfl | h
    · exact hsource
    · exact ih h
  | unclosed htail => simp [sources_unclosed htail] at h

/-! ## Filling -/

/-- Fill the spans of a text, with the content of a span that is open in reverse. -/
def fillFrom (value : List Char → List Char) : (content : Option (List Char)) → List Char → List Char
  | none, [] => []
  | some content, [] => '{' :: content.reverse
  | none, c :: rest =>
    if c = '{' then fillFrom value (some []) rest else c :: fillFrom value none rest
  | some content, c :: rest =>
    if c = '}' then value content.reverse ++ fillFrom value none rest
    else fillFrom value (some (c :: content)) rest

/-- Put the value of its source in the place of every span, in one pass from the left. -/
def fill (value : List Char → List Char) (text : List Char) : List Char :=
  fillFrom value none text

section Fill

variable (value : List Char → List Char)

/-- Nothing has no spans. -/
@[simp] theorem fill_nil : fill value [] = [] := rfl

/-- A character that opens no span stays. -/
theorem fill_cons {c : Char} (h : c ≠ '{') (rest : List Char) :
    fill value (c :: rest) = c :: fill value rest := by
  simp [fill, fillFrom, h]

/-- Inside a span its content is kept up to the brace that closes it. -/
theorem fillFrom_some {source : List Char} (h : '}' ∉ source) (content rest : List Char) :
    fillFrom value (some content) (source ++ '}' :: rest) =
      value (content.reverse ++ source) ++ fill value rest := by
  induction source generalizing content with
  | nil => simp [fillFrom, fill]
  | cons c source ih =>
    have hc : c ≠ '}' := fun e => h (e ▸ List.mem_cons_self)
    have hsource : '}' ∉ source := fun hm => h (List.mem_cons_of_mem _ hm)
    simp only [List.cons_append, fillFrom, hc, ↓reduceIte]
    simpa using ih hsource (c :: content)

/-- A span gives way to the value of its source. -/
theorem fill_span {source : List Char} (h : '}' ∉ source) (rest : List Char) :
    fill value (span source ++ rest) = value source ++ fill value rest := by
  simpa [fill, fillFrom, span] using fillFrom_some value h [] rest

/-- A brace that is never closed stays with all that follows it. -/
theorem fill_unclosed {tail : List Char} (h : '}' ∉ tail) :
    fill value ('{' :: tail) = '{' :: tail := by
  suffices hfrom : ∀ content, fillFrom value (some content) tail = '{' :: (content.reverse ++ tail) by
    simpa [fill, fillFrom] using hfrom []
  induction tail with
  | nil => simp [fillFrom]
  | cons c tail ih =>
    have hc : c ≠ '}' := fun e => h (e ▸ List.mem_cons_self)
    intro content
    simpa [fillFrom, hc] using ih (fun hm => h (List.mem_cons_of_mem _ hm)) (c :: content)

/-- Filling depends only on the values of the sources that occur. -/
theorem fill_congr {value other : List Char → List Char} {text : List Char}
    (h : ∀ source ∈ sources text, value source = other source) :
    fill value text = fill other text := by
  induction spanned text with
  | nil => rfl
  | plain hc _ ih =>
    rw [sources_cons hc] at h
    rw [fill_cons value hc, fill_cons other hc, ih h]
  | span hsource _ ih =>
    rw [sources_span hsource] at h
    rw [fill_span value hsource, fill_span other hsource, h _ List.mem_cons_self,
      ih fun source hm => h source (List.mem_cons_of_mem _ hm)]
  | unclosed htail => rw [fill_unclosed value htail, fill_unclosed other htail]

/-- Filling every span with itself changes nothing. -/
theorem fill_self (text : List Char) : fill span text = text := by
  induction spanned text with
  | nil => rfl
  | plain hc _ ih => rw [fill_cons span hc, ih]
  | span hsource _ ih => rw [fill_span span hsource, ih]
  | unclosed htail => exact fill_unclosed span htail

end Fill

/-! ## Texts that close their spans -/

/-- Every opening brace is closed inside the text. -/
def Closed (text : List Char) : Prop :=
  ∀ before after, text = before ++ '{' :: after → '}' ∈ after

/-- A text without an opening brace closes all its spans. -/
theorem closed_of_notMem {text : List Char} (h : '{' ∉ text) : Closed text := by
  intro before after htext
  exact absurd (htext ▸ by simp) h

/-- A text closes its spans when its first character does and the rest does. -/
theorem closed_cons {c : Char} {rest : List Char} :
    Closed (c :: rest) ↔ (c = '{' → '}' ∈ rest) ∧ Closed rest := by
  constructor
  · intro h
    refine ⟨fun hc => h [] rest (by rw [hc]; rfl), fun before after hrest => ?_⟩
    exact h (c :: before) after (by rw [hrest]; rfl)
  · rintro ⟨hfirst, hrest⟩ before after htext
    cases before with
    | nil =>
      obtain ⟨rfl, rfl⟩ := List.cons.inj htext
      exact hfirst rfl
    | cons d before => exact hrest before after (List.cons.inj htext).2

instance decidableClosed : (text : List Char) → Decidable (Closed text)
  | [] => isTrue (closed_of_notMem List.not_mem_nil)
  | _ :: rest =>
    have := decidableClosed rest
    decidable_of_iff _ closed_cons.symm

/-- What follows in a text that closes its spans does so too. -/
theorem Closed.of_append {first second : List Char} (h : Closed (first ++ second)) :
    Closed second := by
  intro before after hsecond
  exact h (first ++ before) after (by rw [hsecond, List.append_assoc])

/-- Two texts that close their spans do so together. -/
theorem Closed.append {first second : List Char} (hfirst : Closed first) (hsecond : Closed second) :
    Closed (first ++ second) := by
  intro before after htext
  rcases List.append_eq_append_iff.mp htext with ⟨middle, rfl, hsecond'⟩ | ⟨middle, hfirst', hafter⟩
  · exact hsecond middle after hsecond'
  · cases middle with
    | nil => exact hsecond [] after (by simpa using hafter.symm)
    | cons c middle =>
      simp only [List.cons_append, List.cons.injEq] at hafter
      obtain ⟨rfl, rfl⟩ := hafter
      exact List.mem_append_left _ (hfirst before middle hfirst')

/-- The first of two texts decides its own spans when it closes them. -/
theorem sources_append {first : List Char} (h : Closed first) (second : List Char) :
    sources (first ++ second) = sources first ++ sources second := by
  induction spanned first with
  | nil => simp [sources, sourcesFrom]
  | plain hc _ ih =>
    rw [List.cons_append, sources_cons hc, sources_cons hc, ih (closed_cons.mp h).2]
  | span hsource _ ih =>
    rw [List.append_assoc, sources_span hsource, sources_span hsource, ih h.of_append,
      List.cons_append]
  | unclosed htail => exact absurd (h [] _ rfl) htail

/-- The first of two texts is filled by itself when it closes its spans. -/
theorem fill_append (value : List Char → List Char) {first : List Char} (h : Closed first)
    (second : List Char) :
    fill value (first ++ second) = fill value first ++ fill value second := by
  induction spanned first with
  | nil => rfl
  | plain hc _ ih =>
    rw [List.cons_append, fill_cons value hc, fill_cons value hc, ih (closed_cons.mp h).2,
      List.cons_append]
  | span hsource _ ih =>
    rw [List.append_assoc, fill_span value hsource, fill_span value hsource, ih h.of_append,
      List.append_assoc]
  | unclosed htail => exact absurd (h [] _ rfl) htail

/-- A text without an opening brace is filled already. -/
theorem fill_of_notMem (value : List Char → List Char) {text : List Char} (h : '{' ∉ text) :
    fill value text = text :=
  (fill_congr (by simp [sources_eq_nil h])).trans (fill_self text)

/-! ## Replacing one span -/

/-- A span begins only at an opening brace. -/
theorem not_span_begins {c : Char} (h : c ≠ '{') (source rest : List Char) :
    ¬ span source <+: c :: rest := by
  rintro ⟨after, hafter⟩
  simp only [span, List.cons_append, List.cons.injEq] at hafter
  exact h hafter.1.symm

/-- A text without an opening brace is passed when a span is replaced. -/
theorem replaceAll_append_of_notMem {first : List Char} (h : '{' ∉ first)
    (source replacement rest : List Char) :
    Text.replaceAll (span source) replacement (first ++ rest) =
      first ++ Text.replaceAll (span source) replacement rest := by
  refine Text.replaceAll_append_of_forall replacement fun before c after hfirst => ?_
  refine not_span_begins (fun hc => h ?_) source _
  rw [hfirst, hc]
  simp

/-- Two texts up to their first closing brace are equal. -/
theorem eq_of_append_brace {first second rest after : List Char} (hfirst : '}' ∉ first)
    (hsecond : '}' ∉ second) (h : first ++ '}' :: rest = second ++ '}' :: after) :
    first = second := by
  have htake (text : List Char) (htext : '}' ∉ text) (rest : List Char) :
      (text ++ '}' :: rest).takeWhile (· != '}') = text := by
    rw [List.takeWhile_append_of_pos (by grind)]
    simp
  rw [← htake first hfirst rest, h, htake second hsecond after]

/-- A span begins at an opening brace only if its source follows, up to a closing brace. -/
theorem not_span_begins_of_ne {source content : List Char} (hsource : '}' ∉ source)
    (hcontent : '}' ∉ content) (hne : content ≠ source) (rest : List Char) :
    ¬ span source <+: '{' :: (content ++ '}' :: rest) := by
  rintro ⟨behind, hbehind⟩
  have hsame : source ++ '}' :: behind = content ++ '}' :: rest := by
    simpa [span] using hbehind
  exact hne (eq_of_append_brace hsource hcontent hsame).symm

/-- The content of a span that does not end with another span is passed when that one is
replaced. -/
theorem replaceAll_content {source : List Char} (hsource : '}' ∉ source) (replacement : List Char)
    {content : List Char} (hcontent : '}' ∉ content)
    (hend : ∀ before, content ≠ before ++ '{' :: source) (rest : List Char) :
    Text.replaceAll (span source) replacement (content ++ '}' :: rest) =
      content ++ '}' :: Text.replaceAll (span source) replacement rest := by
  induction content with
  | nil => exact Text.replaceAll_cons replacement (not_span_begins (by decide) source rest)
  | cons c content ih =>
    have hrest : '}' ∉ content := fun hm => hcontent (List.mem_cons_of_mem _ hm)
    have hpass : ¬ span source <+: c :: (content ++ '}' :: rest) := by
      by_cases hc : c = '{'
      · subst hc
        exact not_span_begins_of_ne hsource hrest (fun e => hend [] (by simp [e])) rest
      · exact not_span_begins hc source _
    rw [List.cons_append, Text.replaceAll_cons replacement hpass,
      ih hrest fun before e => hend (c :: before) (by simp [e])]
    rfl

/-- A span that is not, and does not end with, another one is passed when that one is replaced. -/
theorem replaceAll_append_span {source other : List Char} (hsource : '}' ∉ source)
    (hother : '}' ∉ other) (hne : other ≠ source) (hend : ∀ before, other ≠ before ++ '{' :: source)
    (replacement rest : List Char) :
    Text.replaceAll (span source) replacement (span other ++ rest) =
      span other ++ Text.replaceAll (span source) replacement rest := by
  have hshape : span other ++ rest = '{' :: (other ++ '}' :: rest) := by simp [span]
  rw [hshape, Text.replaceAll_cons replacement (not_span_begins_of_ne hsource hother hne rest),
    replaceAll_content hsource replacement hother hend]
  simp [span]

/-- A text without a closing brace has no span to replace. -/
theorem replaceAll_of_notMem {text : List Char} (h : '}' ∉ text)
    (source replacement : List Char) :
    Text.replaceAll (span source) replacement text = text := by
  have hpass (before : List Char) (c : Char) (after : List Char)
      (htext : text = before ++ c :: after) : ¬ span source <+: c :: (after ++ []) := by
    rintro ⟨behind, hbehind⟩
    have hmem : '}' ∈ c :: (after ++ []) := by
      rw [← hbehind]
      simp [span]
    exact h (by rw [htext]; simpa using Or.inr hmem)
  simpa using Text.replaceAll_append_of_forall replacement hpass

/-- How replacing a span acts on what stands in the place of each source: it is put in the
place of its own span, and what holds no opening brace and what is a span that does not end
with the replaced one stay as they are. -/
structure Replaces (source replacement : List Char) (value other : List Char → List Char)
    (texts : List (List Char)) : Prop where
  same : source ∈ texts → value source = span source ∧ other source = replacement ∨
    '{' ∉ value source ∧ other source = value source
  others : ∀ text ∈ texts, text ≠ source → other text = value text
  passed : ∀ text ∈ texts, text ≠ source →
    '{' ∉ value text ∨ value text = span text ∧ ∀ before, text ≠ before ++ '{' :: source

/-- Replacing one span in a filled text fills that span as well. -/
theorem replaceAll_fill {source replacement text : List Char} (hsource : '}' ∉ source)
    {value other : List Char → List Char}
    (h : Replaces source replacement value other (sources text)) :
    Text.replaceAll (span source) replacement (fill value text) = fill other text := by
  induction spanned text with
  | nil => simp
  | plain hc _ ih =>
    rw [sources_cons hc] at h
    rw [fill_cons value hc, fill_cons other hc,
      Text.replaceAll_cons replacement (not_span_begins hc source _), ih h]
  | @span inner rest hinner _ ih =>
    rw [sources_span hinner] at h
    have hrest : Replaces source replacement value other (sources rest) :=
      ⟨fun hm => h.same (List.mem_cons_of_mem _ hm),
        fun text hm => h.others text (List.mem_cons_of_mem _ hm),
        fun text hm => h.passed text (List.mem_cons_of_mem _ hm)⟩
    rw [fill_span value hinner, fill_span other hinner, ← ih hrest]
    by_cases hinnerEq : inner = source
    · subst hinnerEq
      rcases h.same List.mem_cons_self with ⟨hvalue, hother⟩ | ⟨hvalue, hother⟩
      · rw [hvalue, hother, Text.replaceAll_append replacement (by simp [Interpolation.span])]
      · rw [hother, replaceAll_append_of_notMem hvalue]
    · rw [h.others inner List.mem_cons_self hinnerEq]
      rcases h.passed inner List.mem_cons_self hinnerEq with hvalue | ⟨hvalue, hend⟩
      · exact replaceAll_append_of_notMem hvalue _ _ _
      · rw [hvalue]
        exact replaceAll_append_span hsource hinner hinnerEq hend _ _
  | unclosed htail =>
    rw [fill_unclosed value htail, fill_unclosed other htail]
    exact replaceAll_of_notMem (by simpa using htail) _ _

/-! ## Interpolation fills -/

/-- No source of the text ends with an opening brace and a source of the text. -/
def Independent (text : List Char) : Prop :=
  ∀ source ∈ sources text, ∀ other ∈ sources text, ∀ before, source ≠ before ++ '{' :: other

/-- What stands in the place of a source when those among `done` have been replaced. -/
def partly (value : List Char → List Char) (done : List (List Char)) (source : List Char) :
    List Char :=
  if source ∈ done then value source else span source

/-- One more source is replaced. -/
theorem replaceAll_fill_partly {text : List Char} {value : List Char → List Char}
    (hclean : ∀ source ∈ sources text, '{' ∉ value source) (hend : Independent text)
    {source : List Char} (hsource : source ∈ sources text) (done : List (List Char)) :
    Text.replaceAll (span source) (value source) (fill (partly value done) text) =
      fill (partly value (done ++ [source])) text := by
  refine replaceAll_fill (notMem_of_mem_sources hsource) ⟨fun _ => ?_, fun other _ hne => ?_,
    fun other hother hne => ?_⟩
  · by_cases hdone : source ∈ done
    · exact .inr ⟨by simpa [partly, hdone] using hclean source hsource, by simp [partly, hdone]⟩
    · exact .inl ⟨by simp [partly, hdone], by simp [partly]⟩
  · simp [partly, hne]
  · by_cases hdone : other ∈ done
    · exact .inl (by simpa [partly, hdone] using hclean other hother)
    · exact .inr ⟨by simp [partly, hdone], hend other hother source hsource⟩

/-- Replacing sources in turn fills their spans. -/
theorem foldlM_substitute {ε : Type} {evaluate : String → Except ε Value} {text : List Char}
    {value : List Char → Value}
    (heval : ∀ source ∈ sources text, evaluate (.ofList source) = .ok (value source))
    (hclean : ∀ source ∈ sources text, '{' ∉ (value source).display.toList)
    (hend : Independent text) (done todo : List (List Char))
    (htodo : ∀ source ∈ todo, source ∈ sources text) :
    todo.foldlM (fun text source => do
        let value ← evaluate (.ofList source)
        return substitute source value text)
      (fill (partly (fun source => (value source).display.toList) done) text) =
    .ok (fill (partly (fun source => (value source).display.toList) (done ++ todo)) text) := by
  induction todo generalizing done with
  | nil => rw [List.append_nil]; rfl
  | cons source todo ih =>
    have hsource := htodo source List.mem_cons_self
    have hstep := replaceAll_fill_partly hclean hend hsource done
    have hrest := ih (done ++ [source]) fun other hm => htodo other (List.mem_cons_of_mem _ hm)
    rw [List.append_assoc, List.singleton_append] at hrest
    rw [List.foldlM_cons, heval source hsource, ← hrest, ← hstep]
    rfl

/-- When every source has a value whose text brings no opening brace, and no span ends with
another one, interpolation fills every span with the text of its value. -/
theorem interpolate_eq_fill {ε : Type} {evaluate : String → Except ε Value} {markup : String}
    {value : List Char → Value}
    (heval : ∀ source ∈ sources markup.toList, evaluate (.ofList source) = .ok (value source))
    (hclean : ∀ source ∈ sources markup.toList, '{' ∉ (value source).display.toList)
    (hend : Independent markup.toList) :
    interpolate evaluate markup =
      .ok (.ofList (fill (fun source => (value source).display.toList) markup.toList)) := by
  have hstart : fill (partly (fun source => (value source).display.toList) []) markup.toList =
      markup.toList :=
    (fill_congr fun source _ => by simp [partly]).trans (fill_self markup.toList)
  have hfold := foldlM_substitute heval hclean hend [] (sources markup.toList).eraseDups
    fun source hm => List.mem_eraseDups.mp hm
  have hall : fill (partly (fun source => (value source).display.toList)
      ([] ++ (sources markup.toList).eraseDups)) markup.toList =
        fill (fun source => (value source).display.toList) markup.toList :=
    fill_congr fun source hm => by simp [partly, List.mem_eraseDups.mpr hm]
  rw [hstart, hall] at hfold
  rw [interpolate, hfold]
  rfl

end DirectiveMarkup.Interpolation
