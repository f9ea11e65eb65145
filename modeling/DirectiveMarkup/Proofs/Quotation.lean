import DirectiveMarkup.Proofs.Consumption
import DirectiveMarkup.Proofs.Spans

/-!
# Braces in sources

An opening brace inside a source that has a value stands in a string literal, as an object
literal would need a closing brace and no source has one. So if one source ended with an opening
brace and another source, the second would have to be readable from inside of a string literal
and from outside at once. Quotes tell these two apart at every later place. The spans of a text
whose sources all have values are therefore independent, and interpolation fills them.
-/

namespace DirectiveMarkup

namespace Expression

/-- How reading without object literals goes on after a character: inside a string literal, or
outside where no backslash and no brace can stand. -/
def literalAfter? : Option (Char × Bool) → Char → Option (Option (Char × Bool))
  | some (quote, escaped), c => some (quoteAfter quote escaped c)
  | none, c =>
    if c = '"' ∨ c = '\'' then some (some (c, false))
    else if c = '\\' ∨ c = '{' then none
    else some none

/-- Where reading without object literals stands after a text. -/
def literalAt? : Option (Char × Bool) → List Char → Option (Option (Char × Bool))
  | quoted, [] => some quoted
  | quoted, c :: rest => literalAfter? quoted c >>= (literalAt? · rest)

/-- True of a text that ends all its string literals and has no backslash and no opening brace
outside of them. -/
def Settled (text : List Char) : Prop :=
  literalAt? none text = some none

/-- Reading goes on where it stood. -/
theorem literalAt?_append (quoted : Option (Char × Bool)) (first second : List Char) :
    literalAt? quoted (first ++ second) = literalAt? quoted first >>= (literalAt? · second) := by
  induction first generalizing quoted with
  | nil => rfl
  | cons c rest ih =>
    simp only [List.cons_append, literalAt?, bind_assoc]
    congr 1
    funext next
    exact ih next

section Quoting

variable {quote : Char}

/-- A quote ends the string literal that it started. -/
theorem quoteAfter_quote (h : quote ≠ '\\') : quoteAfter quote false quote = none := by
  simp [quoteAfter, h]

/-- Any other character goes on with the string literal. -/
theorem quoteAfter_other {c : Char} (hc : c ≠ '\\') (hquote : c ≠ quote) :
    quoteAfter quote false c = some (quote, false) := by
  simp [quoteAfter, hc, hquote]

/-- A string literal keeps its quote. -/
theorem quote_of_quoteAfter {escaped escaped' : Bool} {c next : Char}
    (h : quoteAfter quote escaped c = some (next, escaped')) : next = quote := by
  unfold quoteAfter at h
  split_ifs at h
  all_goals exact (congrArg Prod.fst (Option.some.inj h)).symm

/-- The end of a string literal leads outside. -/
theorem literalAt?_of_endsLiteral {escaped : Bool} {text : List Char}
    (h : endsLiteral quote escaped text) : literalAt? (some (quote, escaped)) text = some none := by
  induction text generalizing escaped with
  | nil => simp [endsLiteral] at h
  | cons c rest ih =>
    rw [endsLiteral] at h
    change literalAt? (quoteAfter quote escaped c) rest = some none
    cases hafter : quoteAfter quote escaped c with
    | none =>
      simp only [hafter, List.isEmpty_iff] at h
      rw [h, literalAt?]
    | some quoted =>
      obtain ⟨next, escaped'⟩ := quoted
      obtain rfl := quote_of_quoteAfter hafter
      simp only [hafter] at h
      exact ih h

end Quoting

/-- The grammar reads texts that have a closing brace or are settled. -/
theorem respected_settled : Respected fun text => '}' ∈ text ∨ Settled text where
  nil := .inr rfl
  append := by
    rintro first second (hfirst | hfirst) hsecond
    · exact .inl (List.mem_append_left _ hfirst)
    · rcases hsecond with hsecond | hsecond
      · exact .inl (List.mem_append_right _ hsecond)
      · right
        rw [Settled, literalAt?_append, hfirst]
        exact hsecond
  ordinary := by
    intro c hc
    simp only [isOrdinary, Bool.and_eq_true, bne_iff_ne] at hc
    exact .inr (by simp [Settled, literalAt?, literalAfter?, hc])
  literal := by
    intro quote text hquote hends
    exact .inr (by simpa [Settled, literalAt?, literalAfter?, hquote]
      using literalAt?_of_endsLiteral hends)
  braces := fun _ => .inl (by simp)

/-- A source that has a value and no closing brace is settled. -/
theorem settled_of_evaluateSource {source : List Char} (h : '}' ∉ source) {scope : Scope}
    {value : Value} (heval : evaluateSource (.ofList source) scope = .ok value) :
    Settled source := by
  have hread := respected_settled.of_evaluateSource heval
  rw [String.toList_ofList] at hread
  exact hread.resolve_left h

/-! ## Inside and outside of literals -/

/-- Two readings of one text of which at most one is outside of string literals. -/
inductive Apart : Option (Char × Bool) → Option (Char × Bool) → Prop where
  | outside {quote : Char} : (quote = '"' ∨ quote = '\'') → Apart none (some (quote, false))
  | inside {quote : Char} : (quote = '"' ∨ quote = '\'') → Apart (some (quote, false)) none
  | within {first second : Char} (escaped : Bool) : (first = '"' ∨ first = '\'') →
      (second = '"' ∨ second = '\'') → first ≠ second →
      Apart (some (first, escaped)) (some (second, escaped))

namespace Apart

variable {first second first' second' : Option (Char × Bool)} {c : Char}

/-- Being apart is symmetric. -/
theorem symm (h : Apart first second) : Apart second first := by
  cases h with
  | outside hquote => exact .inside hquote
  | inside hquote => exact .outside hquote
  | within escaped hfirst hsecond hne => exact .within escaped hsecond hfirst hne.symm

/-- From outside and inside, one character leads to readings that are apart. -/
theorem after_outside {quote : Char} (hquote : quote = '"' ∨ quote = '\'')
    (h : literalAfter? none c = some first') : Apart first' (quoteAfter quote false c) := by
  rw [literalAfter?] at h
  split_ifs at h with hc hfatal
  · have hbackslash : c ≠ '\\' := by rcases hc with rfl | rfl <;> decide
    obtain rfl := Option.some.inj h
    by_cases hcquote : c = quote
    · subst hcquote
      rw [quoteAfter_quote hbackslash]
      exact .inside hquote
    · rw [quoteAfter_other hbackslash hcquote]
      exact .within false hc hquote hcquote
  · have hcquote : c ≠ quote := fun e => hc (e ▸ hquote)
    obtain rfl := Option.some.inj h
    rw [quoteAfter_other (fun e => hfatal (.inl e)) hcquote]
    exact .outside hquote

/-- Inside of literals with different quotes, one character leads to readings that are apart. -/
theorem after_within {quote other : Char} (escaped : Bool) (hquote : quote = '"' ∨ quote = '\'')
    (hother : other = '"' ∨ other = '\'') (hne : quote ≠ other) :
    Apart (quoteAfter quote escaped c) (quoteAfter other escaped c) := by
  have hbackslash {quote : Char} (h : quote = '"' ∨ quote = '\'') : quote ≠ '\\' := by
    rcases h with rfl | rfl <;> decide
  cases escaped with
  | true => exact .within false hquote hother hne
  | false =>
    by_cases hc : c = '\\'
    · subst hc
      exact .within true hquote hother hne
    · by_cases hcquote : c = quote
      · subst hcquote
        rw [quoteAfter_quote hc, quoteAfter_other hc hne]
        exact .outside hother
      · by_cases hcother : c = other
        · subst hcother
          rw [quoteAfter_quote hc, quoteAfter_other hc hcquote]
          exact .inside hquote
        · rw [quoteAfter_other hc hcquote, quoteAfter_other hc hcother]
          exact .within false hquote hother hne

/-- One character leads from readings that are apart to such readings. -/
theorem after (h : Apart first second) (hfirst : literalAfter? first c = some first')
    (hsecond : literalAfter? second c = some second') : Apart first' second' := by
  cases h with
  | outside hquote => exact Option.some.inj hsecond ▸ after_outside hquote hfirst
  | inside hquote => exact Option.some.inj hfirst ▸ (after_outside hquote hsecond).symm
  | within escaped hquote hother hne =>
    exact Option.some.inj hfirst ▸ Option.some.inj hsecond ▸ after_within escaped hquote hother hne

/-- A text leads from readings that are apart to such readings. -/
theorem at_end {text : List Char} (h : Apart first second)
    (hfirst : literalAt? first text = some first') (hsecond : literalAt? second text = some second') :
    Apart first' second' := by
  induction text generalizing first second with
  | nil => exact Option.some.inj hfirst ▸ Option.some.inj hsecond ▸ h
  | cons c rest ih =>
    obtain ⟨next, hnext, hrest⟩ := Option.bind_eq_some_iff.mp hfirst
    obtain ⟨next', hnext', hrest'⟩ := Option.bind_eq_some_iff.mp hsecond
    exact ih (h.after hnext hnext') hrest hrest'

end Apart

/-- Reading stands inside of a literal with a quote, or outside. -/
theorem quote_of_literalAt? {text : List Char} {quoted next : Option (Char × Bool)}
    (h : literalAt? quoted text = some next)
    (hquoted : ∀ q ∈ quoted, q.1 = '"' ∨ q.1 = '\'') : ∀ q ∈ next, q.1 = '"' ∨ q.1 = '\'' := by
  induction text generalizing quoted with
  | nil => exact Option.some.inj h ▸ hquoted
  | cons c rest ih =>
    obtain ⟨middle, hmiddle, hrest⟩ := Option.bind_eq_some_iff.mp h
    apply ih hrest
    cases quoted with
    | none =>
      rw [literalAfter?] at hmiddle
      split_ifs at hmiddle with hc
      · obtain rfl := Option.some.inj hmiddle
        simpa using hc
      · obtain rfl := Option.some.inj hmiddle
        simp
    | some quoted =>
      obtain rfl := Option.some.inj hmiddle
      rintro ⟨quote, escaped⟩ hq
      exact quote_of_quoteAfter hq ▸ hquoted quoted rfl

/-- A settled text does not end with an opening brace and another settled text. -/
theorem Settled.ne_append {text other : List Char} (h : Settled text) (hother : Settled other)
    (before : List Char) : text ≠ before ++ '{' :: other := by
  rintro rfl
  rw [Settled, literalAt?_append] at h
  obtain ⟨quoted, hbefore, hafter⟩ := Option.bind_eq_some_iff.mp h
  obtain ⟨next, hnext, hend⟩ := Option.bind_eq_some_iff.mp hafter
  have hquotes := quote_of_literalAt? hbefore (by simp)
  cases quoted with
  | none => simp [literalAfter?] at hnext
  | some quoted =>
    obtain ⟨quote, escaped⟩ := quoted
    have hquote : quote = '"' ∨ quote = '\'' := hquotes (quote, escaped) rfl
    have hbrace : quoteAfter quote escaped '{' = some (quote, false) := by
      cases escaped with
      | true => rfl
      | false => exact quoteAfter_other (by decide) (by rcases hquote with rfl | rfl <;> decide)
    have hnext' : next = some (quote, false) := (Option.some.inj hnext).symm.trans hbrace
    subst hnext'
    nomatch (Apart.outside hquote).at_end hother hend

end Expression

namespace Interpolation

open Expression (Scope Value evaluateSource settled_of_evaluateSource)

/-- Sources that all have values are independent. -/
theorem independent_of_evaluateSource {text : List Char} {scope : Scope}
    {value : List Char → Value}
    (heval : ∀ source ∈ sources text, evaluateSource (.ofList source) scope = .ok (value source)) :
    Independent text := by
  intro source hsource other hother
  have hsettled := settled_of_evaluateSource (notMem_of_mem_sources hsource) (heval source hsource)
  exact hsettled.ne_append
    (settled_of_evaluateSource (notMem_of_mem_sources hother) (heval other hother))

/-- When every source has a value whose text brings no opening brace, interpolation fills every
span with the text of its value. -/
theorem interpolate_evaluateSource {markup : String} {scope : Scope} {value : List Char → Value}
    (heval : ∀ source ∈ sources markup.toList,
      evaluateSource (.ofList source) scope = .ok (value source))
    (hclean : ∀ source ∈ sources markup.toList, '{' ∉ (value source).display.toList) :
    interpolate (evaluateSource · scope) markup =
      .ok (.ofList (fill (fun source => (value source).display.toList) markup.toList)) :=
  interpolate_eq_fill heval hclean (independent_of_evaluateSource heval)

end Interpolation

end DirectiveMarkup
