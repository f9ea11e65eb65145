import DirectiveMarkup.Proofs.Consumption
import DirectiveMarkup.Proofs.Phrase

/-!
# What is read was written

Every text that the grammar reads is the layout of a well-formed phrase for the expression that
it gives. A relation between the text that a reader consumed and the value that it gave is
carried from the readers of atoms through all combinators, one lemma for each.
-/

namespace DirectiveMarkup.Expression

/-- Whenever a reader succeeds, the text that it consumed and the value that it gave are
related. -/
def Reader.Yields {α : Type} (R : List Char → α → Prop) (reader : Reader α) : Prop :=
  ∀ text value rest, reader text = .done value rest →
    ∃ consumed, text = consumed ++ rest ∧ R consumed value

/-- A text is a layout of what is written for a value. -/
def Written {ι α : Type} (Q : ι → Prop) (tokens : ι → List Token) (value : ι → α)
    (text : List Char) (a : α) : Prop :=
  ∃ x, Q x ∧ value x = a ∧ LaidOut (tokens x) text

namespace Reader

variable {α β ι : Type} {R T : List Char → α → Prop} {S U : List Char → β → Prop}

/-- A reader yields what follows from what it yields. -/
theorem Yields.mono {reader : Reader α} (h : reader.Yields R) (himp : ∀ x a, R x a → T x a) :
    reader.Yields T := by
  intro text value rest hread
  obtain ⟨x, rfl, hx⟩ := h text value rest hread
  exact ⟨x, rfl, himp x value hx⟩

/-- A second reader goes on with what the first consumed. -/
theorem Yields.andThen {first : Reader α} {next : α → Reader β} (hfirst : first.Yields R)
    (hnext : ∀ x a, R x a → (next a).Yields fun y => S (x ++ y)) :
    (first.andThen next).Yields S := by
  intro text value rest hread
  unfold Reader.andThen at hread
  cases hvalue : first text with
  | done middle after =>
    rw [hvalue] at hread
    obtain ⟨x, rfl, hx⟩ := hfirst text middle after hvalue
    obtain ⟨y, rfl, hy⟩ := hnext x middle hx after value rest hread
    exact ⟨x ++ y, (List.append_assoc x y rest).symm, hy⟩
  | stuck after => simp [hvalue] at hread
  | failed after => simp [hvalue] at hread

/-- Reading nothing consumes nothing. -/
theorem yields_succeed {value : α} (h : R [] value) : (succeed value).Yields R := by
  rintro text _ rest ⟨⟩
  exact ⟨[], rfl, h⟩

/-- Changing what was read consumes the same. -/
theorem Yields.map {reader : Reader α} (h : reader.Yields R) {f : α → β}
    (hmap : ∀ x a, R x a → S x (f a)) : (reader.map f).Yields S :=
  h.andThen fun x a hx => yields_succeed (by simpa using hmap x a hx)

/-- Of two readers in a row the second is kept. -/
theorem Yields.before {first : Reader α} {second : Reader β} (hfirst : first.Yields R)
    (hsecond : second.Yields S) (happend : ∀ x a y b, R x a → S y b → U (x ++ y) b) :
    (first.before second).Yields U :=
  hfirst.andThen fun x a hx => hsecond.mono fun y b hy => happend x a y b hx hy

/-- Of two readers in a row the first is kept. -/
theorem Yields.followedBy {first : Reader α} {second : Reader β} (hfirst : first.Yields R)
    (hsecond : second.Yields S) (happend : ∀ x a y b, R x a → S y b → T (x ++ y) a) :
    (first.followedBy second).Yields T :=
  hfirst.andThen fun x a hx => hsecond.map fun y b hy => happend x a y b hx hy

/-- An alternative yields what either side yields. -/
theorem Yields.orElse {first second : Reader α} (hfirst : first.Yields R)
    (hsecond : second.Yields R) : (first.orElse second).Yields R := by
  intro text value rest hread
  unfold Reader.orElse at hread
  cases hvalue : first text with
  | done middle after =>
    simp only [hvalue] at hread
    exact hfirst text value rest (hvalue.trans hread)
  | stuck after =>
    simp only [hvalue] at hread
    exact hsecond text value rest hread
  | failed after => simp [hvalue] at hread

/-- Several alternatives yield what one of them yields. -/
theorem yields_oneOf {readers : List (Reader α)} (h : ∀ reader ∈ readers, reader.Yields R) :
    (oneOf readers).Yields R := by
  induction readers with
  | nil => simp [oneOf, Yields]
  | cons reader rest ih =>
    have hrest := ih fun other hm => h other (List.mem_cons_of_mem _ hm)
    cases rest with
    | nil => exact h reader List.mem_cons_self
    | cons other rest => exact (h reader List.mem_cons_self).orElse hrest

/-- An optional part yields what it reads, or nothing. -/
theorem Yields.optional {reader : Reader α} (h : reader.Yields R) :
    (optional reader).Yields fun x a => a.elim (x = []) (R x) := by
  intro text value rest hread
  unfold Reader.optional at hread
  cases hvalue : reader text with
  | done middle after =>
    simp only [hvalue, Reading.done.injEq] at hread
    obtain ⟨rfl, rfl⟩ := hread
    exact h text middle after hvalue
  | stuck after =>
    simp only [hvalue, Reading.done.injEq] at hread
    obtain ⟨rfl, rfl⟩ := hread
    exact ⟨[], rfl, rfl⟩
  | failed after => simp [hvalue] at hread

/-- A repetition goes on with what it began with. -/
theorem Yields.foldMany {reader : Reader β} (h : reader.Yields S) {combine : α → β → α}
    (hcombine : ∀ x a y b, R x a → S y b → R (x ++ y) (combine a b)) (steps : Nat)
    {begun : List Char} {value : α} (hbegun : R begun value) :
    (foldMany combine reader steps value).Yields fun x a => R (begun ++ x) a := by
  induction steps generalizing begun value with
  | zero => exact yields_succeed (by simpa using hbegun)
  | succ steps ih =>
    intro text result rest hread
    simp only [Reader.foldMany] at hread
    cases hvalue : reader text with
    | done next after =>
      simp only [hvalue] at hread
      obtain ⟨x, rfl, hx⟩ := h text next after hvalue
      obtain ⟨y, rfl, hy⟩ := ih (hcombine begun value x next hbegun hx) after result rest hread
      exact ⟨x ++ y, (List.append_assoc x y rest).symm, by simpa using hy⟩
    | stuck after =>
      simp only [hvalue, Reading.done.injEq] at hread
      obtain ⟨rfl, rfl⟩ := hread
      exact ⟨[], rfl, by simpa using hbegun⟩
    | failed after => simp [hvalue] at hread

/-- What is combined of a first part and its repetitions stays related. -/
theorem Yields.andThen_foldMany {first : Reader α} {reader : Reader β} (hfirst : first.Yields R)
    (h : reader.Yields S) {combine : α → β → α}
    (hcombine : ∀ x a y b, R x a → S y b → R (x ++ y) (combine a b)) (steps : Nat) :
    (first.andThen (Reader.foldMany combine reader steps)).Yields R :=
  hfirst.andThen fun _ _ hx => h.foldMany hcombine steps hx

/-- A character of a class is consumed alone. -/
theorem yields_satisfying (p : Char → Bool) :
    (satisfying p).Yields fun x c => x = [c] ∧ p c := by
  intro text value rest hread
  cases text with
  | nil => simp [satisfying] at hread
  | cons c after =>
    by_cases hc : p c
    · simp only [satisfying, hc, ↓reduceIte, Reading.done.injEq] at hread
      obtain ⟨rfl, rfl⟩ := hread
      exact ⟨[c], rfl, rfl, hc⟩
    · simp [satisfying, hc] at hread

/-- A given character is a token. -/
theorem yields_char (c : Char) : (char c).Yields fun x _ => LaidOut [[c]] x :=
  (yields_satisfying (· = c)).mono fun x d ⟨hx, hd⟩ => by
    rw [decide_eq_true_eq] at hd
    rw [hx, hd]
    exact .single [c]

/-- A given word is consumed. -/
theorem yields_word (letters : String) : (word letters).Yields fun x _ => x = letters.toList := by
  intro text value rest hread
  unfold word at hread
  cases hrest : letters.toList.isPrefixOf? text with
  | none => simp [hrest] at hread
  | some after =>
    simp only [hrest, Reading.done.injEq, true_and] at hread
    subst hread
    exact ⟨letters.toList, Text.isPrefixOf?_eq_some_iff.mp hrest, rfl⟩

/-- A run of characters of a class is consumed. -/
theorem yields_run (p : Char → Bool) :
    Yields (fun x letters => x = letters ∧ ∀ c ∈ letters, p c)
      fun text => .done (text.takeWhile p) (text.dropWhile p) := by
  rintro text _ rest ⟨⟩
  exact ⟨text.takeWhile p, List.takeWhile_append_dropWhile.symm, rfl, fun _ => List.mem_takeWhile_imp⟩

/-- Blanks around a thing are gaps of its layout. -/
theorem Yields.spaced {reader : Reader α} {Q : ι → Prop} {tokens : ι → List Token} {value : ι → α}
    (h : reader.Yields (Written Q tokens value)) :
    (spaced reader).Yields (Written Q tokens value) := by
  have hgap (text : List Char) : IsGap (text.takeWhile Text.isTokenGap) := fun _ =>
    List.mem_takeWhile_imp
  intro text a rest hread
  unfold Reader.spaced at hread
  cases hvalue : reader (text.dropWhile Text.isTokenGap) with
  | done middle after =>
    simp only [hvalue, Reading.done.injEq] at hread
    obtain ⟨rfl, rfl⟩ := hread
    obtain ⟨y, hy, x, hQ, hx, hlaid⟩ := h _ middle after hvalue
    refine ⟨text.takeWhile Text.isTokenGap ++ (y ++ after.takeWhile Text.isTokenGap), ?_, x, hQ, hx,
      ?_⟩
    · calc text = text.takeWhile Text.isTokenGap ++ text.dropWhile Text.isTokenGap :=
            List.takeWhile_append_dropWhile.symm
        _ = text.takeWhile Text.isTokenGap ++ (y ++ (after.takeWhile Text.isTokenGap ++
              after.dropWhile Text.isTokenGap)) := by
            rw [hy, List.takeWhile_append_dropWhile]
        _ = _ := by simp only [List.append_assoc]
    · have hbehind : LaidOut (tokens x ++ []) (y ++ after.takeWhile Text.isTokenGap) :=
        hlaid.append (.nil (hgap after))
      rw [List.append_nil] at hbehind
      exact hbehind.gap_append (hgap text)
  | stuck after => simp [hvalue] at hread
  | failed after => simp [hvalue] at hread

/-- A given character with blanks around it is a token. -/
theorem yields_spaced_char (c : Char) : (spaced (char c)).Yields fun x _ => LaidOut [[c]] x :=
  (((yields_char c).mono fun _ d h =>
    (⟨d, trivial, rfl, h⟩ : Written (fun _ => True) (fun _ => [[c]]) id _ d)).spaced).mono
    fun _ _ ⟨_, _, _, h⟩ => h

/-- One more member of a list comes behind a comma. -/
theorem listTokens_concat {members : List (List Token)} (hne : members ≠ []) (last : List Token) :
    listTokens (members ++ [last]) false = listTokens members false ++ [','] :: last := by
  cases members with
  | nil => exact absurd rfl hne
  | cons first rest => simp [listTokens]

/-- A comma may follow the last member. -/
theorem listTokens_comma (members : List (List Token)) :
    listTokens members true = listTokens members false ++ [[',']] := by
  simp [listTokens]

/-- What stands between two brackets is laid out with them. -/
theorem Yields.between {opening closing : Reader Char} {inner : Reader α} {before behind : Token}
    {Q : ι → Prop} {tokens : ι → List Token} {value : ι → α}
    (hopening : opening.Yields fun x _ => LaidOut [before] x)
    (hinner : inner.Yields (Written Q tokens value))
    (hclosing : closing.Yields fun x _ => LaidOut [behind] x) :
    ((opening.before inner).followedBy closing).Yields
      (Written Q (fun x => before :: (tokens x ++ [behind])) value) := by
  have hopened : (opening.before inner).Yields (Written Q (fun x => before :: tokens x) value) :=
    hopening.before hinner fun _ _ _ _ hx ⟨z, hQ, hz, hy⟩ => ⟨z, hQ, hz, hx.append hy⟩
  exact hopened.followedBy hclosing fun _ _ _ _ ⟨z, hQ, hz, hx⟩ hy => ⟨z, hQ, hz, hx.append hy⟩

/-- A list with commas is laid out with its commas. -/
theorem Yields.commaList {item : Reader α} {Q : ι → Prop} {tokens : ι → List Token} {value : ι → α}
    (h : item.Yields (Written Q tokens value)) (steps : Nat) :
    (commaList steps item).Yields (Written (fun list : List ι × Bool => ∀ x ∈ list.1, Q x)
      (fun list => listTokens (list.1.map tokens) list.2) fun list => list.1.map value) := by
  -- the members are collected in reverse
  let Collected (text : List Char) (reversed : List α) : Prop :=
    ∃ xs, (∀ x ∈ xs, Q x) ∧ List.map value xs = reversed.reverse ∧
      LaidOut (listTokens (List.map tokens xs) false) text
  have hcomma := yields_spaced_char ','
  have hitem : ((Reader.spaced (char ',')).before item).Yields
      (Written Q (fun x => [','] :: tokens x) value) :=
    hcomma.before h fun x _ y a hx ⟨z, hQ, hz, hy⟩ => ⟨z, hQ, hz, hx.append hy⟩
  have hnext (x : List Char) (reversed : List α) (y : List Char) (a : α)
      (hx : reversed ≠ [] ∧ Collected x reversed)
      (hy : Written Q (fun x => [','] :: tokens x) value y a) :
      a :: reversed ≠ [] ∧ Collected (x ++ y) (a :: reversed) := by
    obtain ⟨hne, xs, hQ, hvalues, hx⟩ := hx
    obtain ⟨z, hz, rfl, hy⟩ := hy
    have hxs : List.map tokens xs ≠ [] := by
      rintro hnil
      rw [List.map_eq_nil_iff.mp hnil] at hvalues
      exact hne (by simpa using hvalues.symm)
    refine ⟨List.cons_ne_nil _ _, xs ++ [z], ?_, by simp [hvalues], ?_⟩
    · simpa [or_imp, forall_and] using ⟨hQ, hz⟩
    · rw [List.map_append, List.map_singleton, listTokens_concat hxs]
      exact hx.append hy
  refine Yields.followedBy (R := fun text values => Collected text values.reverse)
    (h.optional.andThen fun x first hx => ?_) hcomma.optional fun x values y comma hx hy => ?_
  · cases first with
    | none =>
      obtain rfl := hx
      exact yields_succeed ⟨[], by simp, rfl, by simpa [listTokens] using LaidOut.empty⟩
    | some first =>
      obtain ⟨z, hz, rfl, hx⟩ := hx
      have hbegun : [value z] ≠ [] ∧ Collected x [value z] :=
        ⟨by simp, [z], by simpa using hz, rfl, by simpa [listTokens] using hx⟩
      refine (hitem.foldMany hnext steps hbegun).map fun y reversed hy => ?_
      rw [List.reverse_reverse]
      exact hy.2
  · obtain ⟨xs, hQ, hvalues, hx⟩ := hx
    rw [List.reverse_reverse] at hvalues
    cases comma with
    | none =>
      obtain rfl := hy
      exact ⟨(xs, false), hQ, hvalues, by simpa using hx⟩
    | some comma =>
      exact ⟨(xs, true), hQ, hvalues, by simpa only [listTokens_comma] using hx.append hy⟩

end Reader

namespace Grammar

open Reader

/-! ## Atoms -/

/-- What is read as a name is one. -/
theorem yields_name : name.Yields fun x s => isName s ∧ x = s.toList :=
  (yields_satisfying isNameStart).andThen fun x c ⟨hx, hc⟩ =>
    (yields_run isNamePart).map (f := fun rest => String.ofList (c :: rest)) fun y rest ⟨hy, hrest⟩ =>
      ⟨by simpa [isName, hc] using hrest, by simp [hx, hy]⟩

/-- What is read as digits are digits. -/
theorem yields_digits : digits.Yields fun x ds => x = ds ∧ ds ≠ [] ∧ ∀ c ∈ ds, c.isDigit := by
  intro text value rest hread
  unfold digits at hread
  split at hread
  · exact absurd hread (by simp)
  · rename_i hne
    obtain ⟨x, hx, rfl, hdigits⟩ := yields_run Char.isDigit text value rest hread
    refine ⟨x, hx, rfl, ?_, hdigits⟩
    rintro rfl
    simp only [Reading.done.injEq] at hread
    exact hne (by simp [hread.1])

/-- What is read in front of an exponent is a numeral without one. -/
theorem yields_mantissa : mantissa.Yields fun x m => x = m ∧
    ∃ decimal : Decimal, decimal.WellFormed ∧ decimal.exponent = none ∧ decimal.letters = m := by
  have hpoint : (char '.').Yields fun x _ => x = ['.'] :=
    (yields_satisfying (· = '.')).mono fun x c ⟨hx, hc⟩ => by
      rw [hx, of_decide_eq_true hc]
  refine yields_oneOf fun reader hreader => ?_
  simp only [List.mem_cons, List.not_mem_nil, or_false] at hreader
  rcases hreader with rfl | rfl
  · have hfraction : ((char '.').before fun text =>
        .done (text.takeWhile Char.isDigit) (text.dropWhile Char.isDigit)).Yields fun x fraction =>
          x = '.' :: fraction ∧ ∀ c ∈ fraction, c.isDigit :=
      hpoint.before (yields_run Char.isDigit) fun x _ y fraction hx ⟨hy, hdigits⟩ =>
        ⟨by rw [hx, hy]; rfl, hdigits⟩
    refine yields_digits.andThen fun x whole ⟨hx, hne, hwhole⟩ =>
      hfraction.optional.map fun y fraction hy => ?_
    cases fraction with
    | none =>
      obtain rfl := hy
      exact ⟨by simpa using hx, ⟨whole, none, none⟩, ⟨hwhole, by simp, .inl hne, by simp⟩, rfl,
        by simp [Decimal.letters]⟩
    | some fraction =>
      obtain ⟨rfl, hdigits⟩ := hy
      exact ⟨by rw [hx], ⟨whole, some fraction, none⟩,
        ⟨hwhole, by simpa using hdigits, .inl hne, by simp⟩, rfl, by simp [Decimal.letters]⟩
  · have hfraction : (digits.map ('.' :: ·)).Yields fun x letters => '.' :: x = letters ∧
        x ≠ [] ∧ ∀ c ∈ x, c.isDigit :=
      yields_digits.map fun x fraction ⟨hx, hne, hdigits⟩ => ⟨by rw [hx], by rwa [hx], by rwa [hx]⟩
    refine hpoint.before hfraction fun x _ y letters hx ⟨hy, hne, hdigits⟩ => ?_
    exact ⟨by rw [hx, ← hy]; rfl, ⟨[], some y, none⟩,
      ⟨by simp, by simpa using hdigits, .inr ⟨y, rfl, hne⟩, by simp⟩, rfl,
      by simp [Decimal.letters, hy]⟩

/-- What is read as an exponent is one. -/
theorem yields_exponent : exponent.Yields fun x letters => x = letters ∧
    ∃ exponent : Exponent, exponent.WellFormed ∧ exponent.letters = letters := by
  refine (yields_satisfying _).andThen fun x mark ⟨hx, hmark⟩ =>
    (yields_satisfying _).optional.andThen fun y sign hy =>
      yields_digits.map fun z ds ⟨hz, hne, hds⟩ => ?_
  rw [Bool.or_eq_true, decide_eq_true_eq, decide_eq_true_eq] at hmark
  have hsign : y = sign.toList ∧ ∀ c ∈ sign, c = '+' ∨ c = '-' := by
    cases sign with
    | none => exact ⟨hy, by simp⟩
    | some c => simpa using hy
  exact ⟨by rw [hx, hsign.1, hz]; simp, ⟨mark, sign, ds⟩, ⟨hmark, hsign.2, hne, hds⟩, rfl⟩

/-- What is read as a number is a numeral with a value. -/
theorem yields_number :
    number.Yields (Written (fun d : Decimal => d.WellFormed ∧ d.value?.isSome) (fun d => [d.letters])
      fun d => .literal (d.value?.getD .null)) := by
  have hlexeme : (mantissa.andThen fun m =>
      (optional exponent).map fun e => m ++ e.getD []).Yields fun x letters => x = letters ∧
        ∃ decimal : Decimal, decimal.WellFormed ∧ decimal.letters = letters := by
    refine yields_mantissa.andThen fun x m ⟨hx, decimal, hdecimal, hnone, hm⟩ =>
      yields_exponent.optional.map fun y e hy => ?_
    cases e with
    | none => exact ⟨by simpa [hx] using hy, decimal, hdecimal, by simp [hm]⟩
    | some letters =>
      obtain ⟨rfl, exponent, hexponent, rfl⟩ := hy
      refine ⟨by rw [hx]; rfl, { decimal with exponent := some exponent },
        ⟨hdecimal.whole, hdecimal.fraction, hdecimal.nonempty, by simpa using hexponent⟩, ?_⟩
      rw [← hm]
      simp [Decimal.letters, hnone]
  intro text value rest hread
  unfold number at hread
  dsimp only at hread
  split at hread
  next spelling after hspelling =>
    obtain ⟨x, htext, rfl, decimal, hdecimal, rfl⟩ := hlexeme text spelling after hspelling
    split at hread
    next number hnumber =>
      have hvalue : decimal.value? = some number := hnumber
      simp only [Reading.done.injEq] at hread
      obtain ⟨rfl, rfl⟩ := hread
      exact ⟨_, htext, decimal, ⟨hdecimal, by simp [hvalue]⟩, by simp [hvalue], .single _⟩
    · exact absurd hread (by simp)
  all_goals exact absurd hread (by simp)

/-- Inside a string literal every character but a backslash stands for itself or ends it. -/
theorem quotedContent_cons {quote c : Char} (hc : c ≠ '\\') (content rest : List Char) :
    quotedContent quote content (c :: rest) =
      if c = quote then some (.ofList content.reverse, rest)
      else quotedContent quote (c :: content) rest :=
  quotedContent.eq_4 _ _ _ _ (fun h _ => hc h) fun _ _ h _ => hc h

/-- The content of a string literal ends at the first quote that ends it, whatever follows. -/
theorem exists_of_quotedContent {quote : Char} {content text after : List Char} {s : String}
    (h : quotedContent quote content text = some (s, after)) :
    ∃ inside, text = inside ++ quote :: after ∧ ∀ after',
      quotedContent quote content (inside ++ quote :: after') = some (s, after') := by
  -- the overlapping patterns leave it as hypotheses that no backslash is at the head
  have hhead {c : Char} {rest : List Char} (hnil : c = '\\' → rest = [] → False)
      (hcons : ∀ d after, c = '\\' → rest = d :: after → False) : c ≠ '\\' := by
    intro hc
    cases rest with
    | nil => exact hnil hc rfl
    | cons d after => exact hcons d after hc rfl
  induction content, text using quotedContent.induct quote with
  | case1 content => simp [quotedContent] at h
  | case2 content => simp [quotedContent] at h
  | case3 content c rest ih =>
    rw [quotedContent] at h
    obtain ⟨inside, rfl, hinside⟩ := ih h
    exact ⟨'\\' :: c :: inside, rfl, by simpa [quotedContent] using hinside⟩
  | case4 content rest hnil hcons =>
    have hquote := hhead hnil hcons
    rw [quotedContent_cons hquote, if_pos rfl, Option.some.injEq, Prod.mk.injEq] at h
    obtain ⟨rfl, rfl⟩ := h
    exact ⟨[], rfl, fun after' => by rw [List.nil_append, quotedContent_cons hquote, if_pos rfl]⟩
  | case5 content c rest hnil hcons hne ih =>
    have hc := hhead hnil hcons
    rw [quotedContent_cons hc, if_neg hne] at h
    obtain ⟨inside, rfl, hinside⟩ := ih h
    refine ⟨c :: inside, rfl, fun after' => ?_⟩
    rw [List.cons_append, quotedContent_cons hc, if_neg hne]
    exact hinside after'

/-- What is read as a string literal is one. -/
theorem yields_stringLiteral : stringLiteral.Yields fun x s => ∃ quote inside,
    x = quote :: (inside ++ [quote]) ∧ (Atom.quoted quote inside s).WellSpelled := by
  intro text value rest hread
  cases text with
  | nil => simp [stringLiteral] at hread
  | cons quote text =>
    by_cases hquote : quote = '"' ∨ quote = '\''
    · cases hcontent : quotedContent quote [] text with
      | none => simp [stringLiteral, hquote, hcontent] at hread
      | some content =>
        simp only [stringLiteral, Bool.or_eq_true, decide_eq_true_eq, hquote, ↓reduceIte, hcontent,
          Reading.done.injEq] at hread
        obtain ⟨rfl, rfl⟩ := hread
        obtain ⟨inside, rfl, hinside⟩ := exists_of_quotedContent hcontent
        exact ⟨quote :: (inside ++ [quote]), by simp, quote, inside, rfl, hquote, hinside []⟩
    · simp [stringLiteral, hquote] at hread

/-! ## Operands -/

/-- The text of a well-formed phrase that binds at least as tightly as a rank. -/
abbrev Ranked (rank : Nat) : List Char → Expr → Prop :=
  Written (fun phrase : Phrase => phrase.WellFormed ∧ rank ≤ phrase.rank) Phrase.tokens Phrase.expr

/-- What binds more tightly is written at a looser rank as well. -/
theorem Ranked.mono {tight loose : Nat} (hle : loose ≤ tight) {text : List Char} {expr : Expr}
    (h : Ranked tight text expr) : Ranked loose text expr := by
  obtain ⟨phrase, ⟨hwell, hrank⟩, hexpr, hlaid⟩ := h
  exact ⟨phrase, ⟨hwell, hle.trans hrank⟩, hexpr, hlaid⟩

/-- What is read as the key of an entry is one. -/
theorem yields_key : (spaced (oneOf [stringLiteral, name, digits.map String.ofList])).Yields
    (Written Atom.IsKey (fun atom => [atom.letters]) Atom.key) := by
  refine (yields_oneOf fun reader hreader => ?_).spaced
  simp only [List.mem_cons, List.not_mem_nil, or_false] at hreader
  rcases hreader with rfl | rfl | rfl
  · exact yields_stringLiteral.mono fun x s ⟨quote, inside, hx, hspelled⟩ =>
      ⟨.quoted quote inside s, ⟨hspelled, by simp⟩, rfl, hx ▸ .single _⟩
  · exact yields_name.mono fun x s ⟨hname, hx⟩ =>
      ⟨.named s, ⟨hname, by simp⟩, rfl, hx ▸ .single _⟩
  · refine yields_digits.map fun x ds ⟨hx, hne, hdigits⟩ => ?_
    have hletters : (Decimal.mk ds none none).letters = ds := by simp [Decimal.letters]
    refine ⟨.decimal ⟨ds, none, none⟩, ⟨⟨hdigits, by simp, .inl hne, by simp⟩, ?_⟩, ?_, ?_⟩
    · rintro _ ⟨⟩
      exact ⟨rfl, rfl⟩
    · simp [Atom.key, hletters]
    · simpa only [Atom.letters, hletters, hx] using LaidOut.single ds

section Nested

variable {nested : Reader Expr} (hnested : nested.Yields (Ranked 0)) (steps : Nat)
include hnested

/-- What is read as an entry of an object literal is one. -/
theorem yields_entry : (entry nested).Yields (Written
    (fun entry => entry.1.IsKey ∧ ∀ value ∈ entry.2, value.WellFormed) entryTokens entryField) := by
  have hvalue : ((spaced (char ':')).before nested).Yields (Written
      (fun value : Phrase => value.WellFormed) (fun value => [':'] :: value.tokens) Phrase.expr) :=
    (yields_spaced_char ':').before hnested
      fun _ _ _ _ hx ⟨value, ⟨hwell, _⟩, hexpr, hy⟩ => ⟨value, hwell, hexpr, hx.append hy⟩
  refine yields_key.andThen fun x key ⟨atom, hatom, hkey, hx⟩ =>
    hvalue.optional.map fun y field hy => ?_
  cases field with
  | none =>
    obtain rfl := hy
    refine ⟨(atom, none), ⟨hatom, by simp⟩, by simp [entryField, hkey], ?_⟩
    simpa [entryTokens] using hx
  | some field =>
    obtain ⟨value, hwell, rfl, hy⟩ := hy
    exact ⟨(atom, some value), ⟨hatom, by simpa using hwell⟩, by simp [entryField, hkey],
      hx.append hy⟩

/-- What is read as an expression that no operator divides is one. -/
theorem yields_primary : (primary steps nested).Yields (Ranked 9) := by
  have hitems := hnested.commaList steps
  have hentries := (yields_entry hnested).commaList steps
  refine (yields_oneOf fun reader hreader => ?_).spaced
  simp only [List.mem_cons, List.not_mem_nil, or_false] at hreader
  rcases hreader with rfl | rfl | rfl | rfl | rfl | rfl
  · refine yields_number.mono fun x expr ⟨decimal, ⟨hwell, hvalue⟩, hexpr, hx⟩ => ?_
    refine ⟨.atom (.decimal decimal), ⟨.atom ⟨hwell, ?_⟩, le_rfl⟩, hexpr, hx⟩
    rintro _ ⟨⟩
    exact hvalue
  · exact yields_stringLiteral.map fun x s ⟨quote, inside, hx, hspelled⟩ =>
      ⟨.atom (.quoted quote inside s), ⟨.atom ⟨hspelled, by simp⟩, le_rfl⟩, rfl, hx ▸ .single _⟩
  · exact ((yields_char '[').between hitems (yields_spaced_char ']')).map
      fun x exprs ⟨(items, comma), hwell, hexprs, hx⟩ =>
        ⟨.array items comma, ⟨.array fun item hitem => (hwell item hitem).1, le_rfl⟩,
          by rw [Phrase.expr, itemsExprs_eq_map]; exact congrArg Expr.array hexprs,
          by rw [Phrase.tokens, itemsTokens_eq_map]; exact hx⟩
  · exact ((yields_char '{').between hentries (yields_spaced_char '}')).map
      fun x fields ⟨(entries, comma), hwell, hfields, hx⟩ =>
        ⟨.object entries comma,
          ⟨.object (fun entry h => (hwell entry h).1) fun entry h => (hwell entry h).2, le_rfl⟩,
          by rw [Phrase.expr, entriesFields_eq_map]; exact congrArg Expr.object hfields,
          by rw [Phrase.tokens, entriesTokens_eq_map]; exact hx⟩
  · exact ((yields_char '(').between hnested.spaced (yields_char ')')).mono
      fun x expr ⟨inner, ⟨hwell, _⟩, hexpr, hx⟩ => ⟨.group inner, ⟨.group hwell, le_rfl⟩, hexpr, hx⟩
  · exact yields_name.map fun x s ⟨hname, hx⟩ =>
      ⟨.atom (.named s), ⟨.atom ⟨hname, by simp⟩, le_rfl⟩, rfl, hx ▸ .single _⟩

/-- What is read as an access goes on with a phrase that binds tightly enough. -/
theorem yields_access : (access steps nested).Yields fun text f => ∀ receiver : Phrase,
    receiver.WellFormed → 8 ≤ receiver.rank → ∃ phrase : Phrase, (phrase.WellFormed ∧
      8 ≤ phrase.rank) ∧ phrase.expr = f receiver.expr ∧
        ∃ tokens, phrase.tokens = receiver.tokens ++ tokens ∧ LaidOut tokens text := by
  have hitems := hnested.commaList steps
  refine yields_oneOf fun reader hreader => ?_
  simp only [List.mem_cons, List.not_mem_nil, or_false] at hreader
  rcases hreader with rfl | rfl | rfl
  · have hmember : ((spaced (char '.')).before name).Yields fun x s =>
        isName s ∧ LaidOut [['.'], s.toList] x :=
      (yields_spaced_char '.').before yields_name fun x _ y s hx ⟨hname, hy⟩ =>
        ⟨hname, hx.append (hy ▸ .single _)⟩
    refine hmember.map fun x s ⟨hname, hx⟩ receiver hwell hrank => ?_
    exact ⟨.member receiver s, ⟨.member hwell hrank hname, le_rfl⟩, rfl, _, rfl, hx⟩
  · refine ((yields_spaced_char '[').between hnested (yields_spaced_char ']')).map
      fun x place ⟨phrase, ⟨hplace, _⟩, hexpr, hx⟩ receiver hwell hrank => ?_
    exact ⟨.index receiver phrase, ⟨.index hwell hplace hrank, le_rfl⟩,
      congrArg (Expr.index receiver.expr) hexpr, _, rfl, hx⟩
  · refine ((yields_spaced_char '(').between hitems (yields_spaced_char ')')).map
      fun x exprs ⟨(items, comma), hitems, hexprs, hx⟩ receiver hwell hrank => ?_
    exact ⟨.call receiver items comma,
      ⟨.call hwell (fun item hitem => (hitems item hitem).1) hrank, le_rfl⟩,
      by rw [Phrase.expr, itemsExprs_eq_map]; exact congrArg (Expr.call receiver.expr) hexprs, _,
      by rw [Phrase.tokens, itemsTokens_eq_map], hx⟩

/-- What is read as an expression with accesses is one. -/
theorem yields_postfixed : (postfixed steps nested).Yields (Ranked 8) := by
  refine ((yields_primary hnested steps).mono fun _ _ h => h.mono (by decide)).andThen_foldMany
    (yields_access hnested steps) ?_ steps
  rintro x _ y access ⟨receiver, ⟨hwell, hrank⟩, rfl, hx⟩ haccess
  obtain ⟨phrase, hphrase, hexpr, tokens, htokens, hy⟩ := haccess receiver hwell hrank
  exact ⟨phrase, hphrase, hexpr, htokens ▸ hx.append hy⟩

/-- What is read as an expression with operators in front is one. -/
theorem yields_unary (signs : Nat) : (unary steps nested signs).Yields (Ranked 7) := by
  have hpostfixed : (postfixed steps nested).Yields (Ranked 7) :=
    (yields_postfixed hnested steps).mono fun _ _ h => h.mono (by decide)
  have hoperator : unaryOperator.Yields
      (Written (fun _ => True) (fun op : UnaryOp => [[op.spelling]]) id) := by
    refine yields_oneOf fun reader hreader => ?_
    simp only [List.mem_cons, List.not_mem_nil, or_false] at hreader
    rcases hreader with rfl | rfl | rfl
    · exact (yields_char '!').map fun _ _ hx => ⟨.not, trivial, rfl, hx⟩
    · exact (yields_char '-').map fun _ _ hx => ⟨.negate, trivial, rfl, hx⟩
    · exact (yields_char '+').map fun _ _ hx => ⟨.plus, trivial, rfl, hx⟩
  induction signs with
  | zero => exact hpostfixed
  | succ signs ih =>
    refine (hoperator.spaced.andThen ?_).orElse hpostfixed
    rintro x _ ⟨op, _, rfl, hx⟩
    exact ih.map fun y _ ⟨operand, ⟨hwell, hrank⟩, hexpr, hy⟩ =>
      ⟨.sign op operand, ⟨.sign hwell hrank, le_rfl⟩, congrArg (Expr.unary op) hexpr, hx.append hy⟩

omit hnested in
/-- What is read as operands of one level is written at its rank. -/
theorem yields_leftGrouped {rank : Nat} {spellings : List (String × BinaryOp)} {operand : Reader Expr}
    (hspellings : ∀ pair ∈ spellings, pair.1 = pair.2.spelling ∧ pair.2.rank = rank)
    (hoperand : operand.Yields (Ranked (rank + 1))) :
    (leftGrouped steps (operatorAmong spellings) operand).Yields (Ranked rank) := by
  have hoperator : (operatorAmong spellings).Yields
      (Written (fun op => op.rank = rank) (fun op => [op.spelling.toList]) id) := by
    refine yields_oneOf fun reader hreader => ?_
    obtain ⟨⟨spelling, op⟩, hpair, rfl⟩ := List.mem_map.mp hreader
    obtain ⟨rfl, hrank⟩ : spelling = op.spelling ∧ op.rank = rank := hspellings _ hpair
    exact (yields_word op.spelling).map fun x _ hx => ⟨op, hrank, rfl, hx ▸ .single _⟩
  have hright : ((spaced (operatorAmong spellings)).andThen fun op =>
      operand.map fun right => (op, right)).Yields (Written
        (fun pair : BinaryOp × Phrase => pair.1.rank = rank ∧ pair.2.WellFormed ∧ rank < pair.2.rank)
        (fun pair => pair.1.spelling.toList :: pair.2.tokens) fun pair => (pair.1, pair.2.expr)) := by
    refine hoperator.spaced.andThen ?_
    rintro x _ ⟨op, hrank, rfl, hx⟩
    exact hoperand.map fun y _ ⟨right, hwell, hexpr, hy⟩ =>
      ⟨(op, right), ⟨hrank, hwell⟩, congrArg (Prod.mk op) hexpr, hx.append hy⟩
  refine (hoperand.mono fun _ _ h => h.mono (Nat.le_succ rank)).andThen_foldMany hright ?_ steps
  rintro x _ y _ ⟨left, ⟨hleft, hle⟩, rfl, hx⟩ ⟨⟨op, right⟩, ⟨rfl, hright, hlt⟩, rfl, hy⟩
  exact ⟨.operation op left right, ⟨.operation hleft hright hle hlt, le_rfl⟩, rfl, hx.append hy⟩

/-- What is read as an expression without a conditional at its top is one. -/
theorem yields_operation : (operation steps nested).Yields (Ranked 1) := by
  simp only [operation, levels, List.foldl_cons, List.foldl_nil]
  iterate 6 refine yields_leftGrouped steps (by decide) ?_
  exact yields_unary hnested steps steps

/-- What is read as an expression with or without a conditional at its top is one. -/
theorem yields_conditional : (conditional steps nested).Yields (Ranked 0) := by
  have hbranch (mark : Char) : ((spaced (char mark)).before nested).Yields (Written
      (fun branch : Phrase => branch.WellFormed) (fun branch => [mark] :: branch.tokens)
      Phrase.expr) :=
    (yields_spaced_char mark).before hnested
      fun _ _ _ _ hx ⟨branch, ⟨hwell, _⟩, hexpr, hy⟩ => ⟨branch, hwell, hexpr, hx.append hy⟩
  have hbranches : (((spaced (char '?')).before nested).andThen fun yes =>
      ((spaced (char ':')).before nested).map fun no => (yes, no)).Yields (Written
        (fun pair : Phrase × Phrase => pair.1.WellFormed ∧ pair.2.WellFormed)
        (fun pair => ['?'] :: (pair.1.tokens ++ [':'] :: pair.2.tokens))
        fun pair => (pair.1.expr, pair.2.expr)) := by
    refine (hbranch '?').andThen ?_
    rintro x _ ⟨yes, hyes, rfl, hx⟩
    refine (hbranch ':').map ?_
    rintro y _ ⟨no, hno, rfl, hy⟩
    exact ⟨(yes, no), ⟨hyes, hno⟩, rfl, hx.append hy⟩
  refine (yields_operation hnested steps).andThen fun x _ htest =>
    hbranches.optional.map fun y branches hy => ?_
  obtain ⟨test, ⟨hwell, hrank⟩, rfl, hx⟩ := htest
  cases branches with
  | none =>
    obtain rfl := hy
    exact ⟨test, ⟨hwell, Nat.zero_le _⟩, rfl, by simpa using hx⟩
  | some branches =>
    obtain ⟨⟨yes, no⟩, ⟨hyes, hno⟩, rfl, hy⟩ := hy
    exact ⟨.conditional test yes no, ⟨.conditional hwell hyes hno hrank, Nat.zero_le _⟩, rfl,
      hx.append hy⟩

end Nested

/-- What is read as an expression is one. -/
theorem yields_expression (steps : Nat) : (expression steps).Yields (Ranked 0) := by
  induction steps with
  | zero =>
    intro text value rest hread
    exact absurd hread (by simp [expression])
  | succ steps ih => exact yields_conditional ih steps

end Grammar

/-- A source that can be read as an expression is a layout of a phrase for it. -/
theorem exists_phrase_of_readWhole {source : List Char} {expr : Expr}
    (h : readWhole source = .ok expr) : ∃ phrase : Phrase, phrase.Spells source expr := by
  unfold readWhole at h
  cases hread : Reader.spaced (Grammar.expression (source.length + 1)) source with
  | done value rest =>
    cases rest with
    | nil =>
      obtain ⟨consumed, hsource, phrase, ⟨hwell, _⟩, hexpr, hlaid⟩ :=
        (Grammar.yields_expression (source.length + 1)).spaced source value [] hread
      rw [List.append_nil] at hsource
      simp only [hread, Except.ok.injEq] at h
      exact ⟨phrase, hwell, hsource ▸ hlaid, hexpr.trans h⟩
    | cons c rest => simp [hread] at h
  | stuck rest => simp [hread] at h
  | failed rest => simp [hread] at h

end DirectiveMarkup.Expression
