import DirectiveMarkup.Expression.Evaluate
import DirectiveMarkup.Proofs.Occurrences
import Mathlib.Data.List.TakeWhile

/-!
# What readers consume

A reader that succeeds has taken a text off the front of what it was given. Here a property of
these texts is carried through all readers of the grammar: it must hold of single characters
other than quotes, backslashes and opening braces, of whole string literals, and of what stands
between two braces, and it must be kept when texts are put together. What an expression looks
like from the outside can then be told without looking at its tree.
-/

namespace DirectiveMarkup.Expression

/-- Whenever a reader succeeds, the text that it consumed has the property. -/
def Reader.Consumes {α : Type} (P : List Char → Prop) (reader : Reader α) : Prop :=
  ∀ text value rest, reader text = .done value rest → ∃ consumed, text = consumed ++ rest ∧ P consumed

/-- True of the characters that neither start a string literal or a group in braces nor occur
only inside of string literals. -/
def isOrdinary (c : Char) : Bool :=
  c != '"' && c != '\'' && c != '\\' && c != '{'

/-- A class of characters is ordinary when it has none of the four that are not. -/
theorem isOrdinary_of_excludes {p : Char → Bool}
    (hnone : p '"' = false ∧ p '\'' = false ∧ p '\\' = false ∧ p '{' = false) {c : Char} (h : p c) :
    isOrdinary c := by
  obtain ⟨hdouble, hsingle, hbackslash, hbrace⟩ := hnone
  by_contra hc
  simp only [isOrdinary, Bool.and_eq_true, bne_iff_ne, not_and_or, not_not] at hc
  rcases hc with ((rfl | rfl) | rfl) | rfl
  · exact absurd h (by simp [hdouble])
  · exact absurd h (by simp [hsingle])
  · exact absurd h (by simp [hbackslash])
  · exact absurd h (by simp [hbrace])

/-- True of a text that goes on inside a string literal and ends with its quote. -/
def endsLiteral (quote : Char) : (escaped : Bool) → List Char → Bool
  | _, [] => false
  | escaped, c :: rest =>
    match quoteAfter quote escaped c with
    | none => rest.isEmpty
    | some (_, escaped) => endsLiteral quote escaped rest

/-- A property of texts that the grammar respects. -/
structure Respected (P : List Char → Prop) : Prop where
  nil : P []
  append {first second : List Char} : P first → P second → P (first ++ second)
  ordinary {c : Char} : isOrdinary c → P [c]
  literal {quote : Char} {text : List Char} : (quote = '"' ∨ quote = '\'') →
    endsLiteral quote false text → P (quote :: text)
  braces {inner : List Char} : P inner → P ('{' :: inner ++ ['}'])

/-- Ordinary characters are respected together. -/
theorem Respected.of_forall {P : List Char → Prop} (hP : Respected P) {text : List Char}
    (h : ∀ c ∈ text, isOrdinary c) : P text := by
  induction text with
  | nil => exact hP.nil
  | cons c rest ih =>
    exact hP.append (hP.ordinary (h c List.mem_cons_self)) (ih fun d hd => h d (List.mem_cons_of_mem _ hd))

namespace Reader

variable {α β : Type} {P Q R : List Char → Prop}

/-- Two readers in a row consume two texts in a row. -/
theorem Consumes.andThen_of {first : Reader α} {next : α → Reader β} (hfirst : first.Consumes P)
    (hnext : ∀ value, (next value).Consumes Q) (happend : ∀ x y, P x → Q y → R (x ++ y)) :
    (first.andThen next).Consumes R := by
  intro text value rest hread
  unfold andThen at hread
  cases hvalue : first text with
  | done middle after =>
    rw [hvalue] at hread
    obtain ⟨x, rfl, hx⟩ := hfirst text middle after hvalue
    obtain ⟨y, rfl, hy⟩ := hnext middle after value rest hread
    exact ⟨x ++ y, (List.append_assoc x y rest).symm, happend x y hx hy⟩
  | stuck after => simp [hvalue] at hread
  | failed after => simp [hvalue] at hread

/-- A character of a class is consumed alone. -/
theorem consumes_satisfying {p : Char → Bool} (h : ∀ c, p c → P [c]) :
    (satisfying p).Consumes P := by
  intro text value rest hread
  cases text with
  | nil => simp [satisfying] at hread
  | cons c after =>
    by_cases hc : p c
    · simp only [satisfying, hc, ↓reduceIte, Reading.done.injEq] at hread
      obtain ⟨rfl, rfl⟩ := hread
      exact ⟨[c], rfl, h c hc⟩
    · simp [satisfying, hc] at hread

section Combinators

variable (hP : Respected P)
include hP

/-- Reading nothing consumes nothing. -/
theorem consumes_succeed (value : α) : (succeed value).Consumes P := by
  rintro text _ rest ⟨⟩
  exact ⟨[], rfl, hP.nil⟩

/-- A respected property passes through readers in a row. -/
theorem Consumes.andThen {first : Reader α} {next : α → Reader β} (hfirst : first.Consumes P)
    (hnext : ∀ value, (next value).Consumes P) : (first.andThen next).Consumes P :=
  hfirst.andThen_of hnext fun _ _ => hP.append

omit hP in
/-- Changing what was read consumes the same. -/
theorem Consumes.map {reader : Reader α} (h : reader.Consumes P) (f : α → β) :
    (reader.map f).Consumes P := by
  intro text value rest hread
  unfold Reader.map Reader.andThen at hread
  cases hvalue : reader text with
  | done middle after =>
    simp only [hvalue, succeed, Reading.done.injEq] at hread
    exact hread.2 ▸ h text middle after hvalue
  | stuck after => simp [hvalue] at hread
  | failed after => simp [hvalue] at hread

/-- A respected property passes through two readers of which the second is kept. -/
theorem Consumes.before {first : Reader α} {second : Reader β} (hfirst : first.Consumes P)
    (hsecond : second.Consumes P) : (first.before second).Consumes P :=
  hfirst.andThen hP fun _ => hsecond

/-- A respected property passes through two readers of which the first is kept. -/
theorem Consumes.followedBy {first : Reader α} {second : Reader β} (hfirst : first.Consumes P)
    (hsecond : second.Consumes P) : (first.followedBy second).Consumes P :=
  hfirst.andThen hP fun _ => hsecond.map _

omit hP in
/-- An alternative consumes what either side consumes. -/
theorem Consumes.orElse {first second : Reader α} (hfirst : first.Consumes P)
    (hsecond : second.Consumes P) : (first.orElse second).Consumes P := by
  intro text value rest hread
  unfold Reader.orElse at hread
  cases hvalue : first text with
  | done middle after =>
    simp only [hvalue] at hread
    exact hfirst text value rest (hvalue.trans hread)
  | stuck after =>
    simp only [hvalue] at hread
    exact hsecond text value rest hread
  | failed after => simp [hvalue] at hread

omit hP in
/-- Several alternatives consume what one of them consumes. -/
theorem consumes_oneOf {readers : List (Reader α)} (h : ∀ reader ∈ readers, reader.Consumes P) :
    (oneOf readers).Consumes P := by
  induction readers with
  | nil => simp [oneOf, Consumes]
  | cons reader rest ih =>
    have hrest := ih fun other hm => h other (List.mem_cons_of_mem _ hm)
    cases rest with
    | nil => exact h reader List.mem_cons_self
    | cons other rest => exact (h reader List.mem_cons_self).orElse hrest

/-- An optional part consumes what it reads, or nothing. -/
theorem Consumes.optional {reader : Reader α} (h : reader.Consumes P) :
    (optional reader).Consumes P := by
  intro text value rest hread
  unfold Reader.optional at hread
  cases hvalue : reader text with
  | done middle after =>
    simp only [hvalue, Reading.done.injEq] at hread
    obtain ⟨-, rfl⟩ := hread
    exact h text middle after hvalue
  | stuck after =>
    simp only [hvalue, Reading.done.injEq] at hread
    exact ⟨[], hread.2, hP.nil⟩
  | failed after => simp [hvalue] at hread

/-- A repetition consumes what its parts consume, one after the other. -/
theorem Consumes.foldMany {reader : Reader β} (h : reader.Consumes P) (combine : α → β → α)
    (steps : Nat) (value : α) : (foldMany combine reader steps value).Consumes P := by
  induction steps generalizing value with
  | zero => exact consumes_succeed hP value
  | succ steps ih =>
    intro text result rest hread
    simp only [Reader.foldMany] at hread
    cases hvalue : reader text with
    | done next after =>
      simp only [hvalue] at hread
      obtain ⟨x, rfl, hx⟩ := h text next after hvalue
      obtain ⟨y, rfl, hy⟩ := ih (combine value next) after result rest hread
      exact ⟨x ++ y, (List.append_assoc x y rest).symm, hP.append hx hy⟩
    | stuck after =>
      simp only [hvalue, Reading.done.injEq] at hread
      exact ⟨[], hread.2, hP.nil⟩
    | failed after => simp [hvalue] at hread

/-- A run of ordinary characters is consumed. -/
theorem consumes_run {p : Char → Bool} (h : ∀ c, p c → isOrdinary c) (f : List Char → α) :
    Consumes P fun text => .done (f text) (text.dropWhile p) := by
  intro text value rest hread
  simp only [Reading.done.injEq] at hread
  obtain ⟨-, rfl⟩ := hread
  refine ⟨text.takeWhile p, List.takeWhile_append_dropWhile.symm, hP.of_forall fun c hc => ?_⟩
  exact h c (List.mem_takeWhile_imp hc)

/-- A given ordinary character is consumed. -/
theorem consumes_char {c : Char} (h : isOrdinary c) : (char c).Consumes P :=
  consumes_satisfying fun d hd => by
    rw [decide_eq_true_eq] at hd
    exact hd ▸ hP.ordinary h

/-- A given word of ordinary characters is consumed. -/
theorem consumes_word {letters : String} (h : ∀ c ∈ letters.toList, isOrdinary c) :
    (word letters).Consumes P := by
  intro text value rest hread
  unfold word at hread
  cases hrest : letters.toList.isPrefixOf? text with
  | none => simp [hrest] at hread
  | some after =>
    simp only [hrest, Reading.done.injEq, true_and] at hread
    subst hread
    exact ⟨letters.toList, Text.isPrefixOf?_eq_some_iff.mp hrest, hP.of_forall h⟩

omit hP in
/-- The blanks between tokens are ordinary. -/
theorem isOrdinary_of_isTokenGap {c : Char} (h : Text.isTokenGap c) : isOrdinary c :=
  isOrdinary_of_excludes (by decide) h

/-- The blanks around a thing are consumed with it. -/
theorem Consumes.spaced_of {reader : Reader α} (h : reader.Consumes Q)
    (happend : ∀ x y z, P x → Q y → P z → R (x ++ (y ++ z))) : (spaced reader).Consumes R := by
  have hgaps (text : List Char) : P (text.takeWhile Text.isTokenGap) :=
    hP.of_forall fun c hc => isOrdinary_of_isTokenGap (List.mem_takeWhile_imp hc)
  intro text value rest hread
  unfold spaced at hread
  cases hvalue : reader (text.dropWhile Text.isTokenGap) with
  | done middle after =>
    simp only [hvalue, Reading.done.injEq] at hread
    obtain ⟨-, rfl⟩ := hread
    obtain ⟨y, hy, hQ⟩ := h _ middle after hvalue
    refine ⟨text.takeWhile Text.isTokenGap ++ (y ++ after.takeWhile Text.isTokenGap), ?_,
      happend _ y _ (hgaps text) hQ (hgaps after)⟩
    calc text = text.takeWhile Text.isTokenGap ++ text.dropWhile Text.isTokenGap :=
          List.takeWhile_append_dropWhile.symm
      _ = text.takeWhile Text.isTokenGap ++ (y ++ (after.takeWhile Text.isTokenGap ++
            after.dropWhile Text.isTokenGap)) := by
          rw [hy, List.takeWhile_append_dropWhile]
      _ = _ := by simp only [List.append_assoc]
  | stuck after => simp [hvalue] at hread
  | failed after => simp [hvalue] at hread

/-- A respected property passes through blanks around a thing. -/
theorem Consumes.spaced {reader : Reader α} (h : reader.Consumes P) : (spaced reader).Consumes P :=
  h.spaced_of hP fun _ _ _ hx hy hz => hP.append hx (hP.append hy hz)

/-- A respected property passes through a list with commas. -/
theorem Consumes.commaList {item : Reader α} (h : item.Consumes P) (steps : Nat) :
    (commaList steps item).Consumes P := by
  have hcomma : (Reader.spaced (char ',')).Consumes P := (consumes_char hP (by decide)).spaced hP
  refine Consumes.followedBy hP ((h.optional hP).andThen hP fun first => ?_) (hcomma.optional hP)
  cases first with
  | none => exact consumes_succeed hP []
  | some first => exact ((hcomma.before hP h).foldMany hP _ steps [first]).map List.reverse

end Combinators

end Reader

namespace Grammar

open Reader

variable {P : List Char → Prop} (hP : Respected P)

/-- The characters that start a name are ordinary. -/
theorem isOrdinary_of_isNameStart {c : Char} (h : isNameStart c) : isOrdinary c :=
  isOrdinary_of_excludes (by decide) h

/-- The characters that continue a name are ordinary. -/
theorem isOrdinary_of_isNamePart {c : Char} (h : isNamePart c) : isOrdinary c :=
  isOrdinary_of_excludes (by decide) h

/-- Digits are ordinary. -/
theorem isOrdinary_of_isDigit {c : Char} (h : c.isDigit) : isOrdinary c :=
  isOrdinary_of_excludes (by decide) h

/-- Every spelling of an operator is made of ordinary characters. -/
theorem isOrdinary_of_mem_levels {spellings : List (String × BinaryOp)} (h : spellings ∈ levels)
    {spelling : String × BinaryOp} (hs : spelling ∈ spellings) :
    ∀ c ∈ spelling.1.toList, isOrdinary c := by
  have hall : (levels.all fun spellings =>
      spellings.all fun spelling => spelling.1.toList.all isOrdinary) = true := by decide
  exact List.all_eq_true.mp (List.all_eq_true.mp (List.all_eq_true.mp hall spellings h) spelling hs)

/-- The content of a string literal ends with its quote. -/
theorem endsLiteral_of_quotedContent {quote : Char} {content text after : List Char} {s : String}
    (h : quotedContent quote content text = some (s, after)) :
    ∃ literal, text = literal ++ after ∧ endsLiteral quote false literal := by
  -- the overlapping patterns leave it as hypotheses that no backslash is at the head
  have hhead {c : Char} {rest : List Char} (hnil : c = '\\' → rest = [] → False)
      (hcons : ∀ d after, c = '\\' → rest = d :: after → False) : c ≠ '\\' := by
    intro hc
    cases rest with
    | nil => exact hnil hc rfl
    | cons d after => exact hcons d after hc rfl
  induction content, text using quotedContent.induct quote with
  | case1 content => simp [quotedContent] at h
  | case2 content => simp [quotedContent] at h
  | case3 content c rest ih =>
    rw [quotedContent] at h
    obtain ⟨literal, rfl, hends⟩ := ih h
    exact ⟨'\\' :: c :: literal, rfl, by simpa [endsLiteral, quoteAfter] using hends⟩
  | case4 content rest hnil hcons =>
    have hquote := hhead hnil hcons
    rw [quotedContent.eq_4 _ _ _ _ hnil hcons, if_pos rfl, Option.some.injEq, Prod.mk.injEq] at h
    obtain ⟨-, rfl⟩ := h
    exact ⟨[quote], rfl, by simp [endsLiteral, quoteAfter, hquote]⟩
  | case5 content c rest hnil hcons hne ih =>
    have hc := hhead hnil hcons
    rw [quotedContent.eq_4 _ _ _ _ hnil hcons, if_neg hne] at h
    obtain ⟨literal, rfl, hends⟩ := ih h
    exact ⟨c :: literal, rfl, by simpa [endsLiteral, quoteAfter, hc, hne] using hends⟩

include hP

/-- A string literal is consumed as a whole. -/
theorem consumes_stringLiteral : stringLiteral.Consumes P := by
  intro text value rest hread
  cases text with
  | nil => simp [stringLiteral] at hread
  | cons quote text =>
    by_cases hquote : quote = '"' ∨ quote = '\''
    · cases hcontent : quotedContent quote [] text with
      | none => simp [stringLiteral, hquote, hcontent] at hread
      | some content =>
        simp only [stringLiteral, Bool.or_eq_true, decide_eq_true_eq, hquote, ↓reduceIte, hcontent,
          Reading.done.injEq] at hread
        obtain ⟨-, rfl⟩ := hread
        obtain ⟨literal, rfl, hends⟩ := endsLiteral_of_quotedContent hcontent
        exact ⟨quote :: literal, rfl, hP.literal hquote hends⟩
    · simp [stringLiteral, hquote] at hread

/-- A name is consumed. -/
theorem consumes_name : name.Consumes P :=
  (consumes_satisfying fun _ hc => hP.ordinary (isOrdinary_of_isNameStart hc)).andThen hP fun _ =>
    consumes_run hP (fun _ => isOrdinary_of_isNamePart) _

/-- Digits are consumed. -/
theorem consumes_digits : digits.Consumes P := by
  intro text value rest hread
  unfold digits at hread
  split at hread
  · exact absurd hread (by simp)
  · exact consumes_run hP (fun _ => isOrdinary_of_isDigit) (List.takeWhile Char.isDigit) text value rest
      hread

/-- Digits with a point are consumed. -/
theorem consumes_mantissa : mantissa.Consumes P := by
  have hpoint : (char '.').Consumes P := consumes_char hP (by decide)
  have hfraction := hpoint.before hP
    (consumes_run hP (fun _ => isOrdinary_of_isDigit) (List.takeWhile Char.isDigit))
  refine consumes_oneOf fun reader hreader => ?_
  simp only [List.mem_cons, List.not_mem_nil, or_false] at hreader
  rcases hreader with rfl | rfl
  · exact (consumes_digits hP).andThen hP fun whole => (hfraction.optional hP).map _
  · exact hpoint.before hP ((consumes_digits hP).map _)

/-- An exponent is consumed. -/
theorem consumes_exponent : exponent.Consumes P := by
  have hmark : (satisfying fun c => c = 'e' || c = 'E').Consumes P :=
    consumes_satisfying fun c hc => hP.ordinary <| by
      simp only [Bool.or_eq_true, decide_eq_true_eq] at hc
      rcases hc with rfl | rfl <;> decide
  have hsign : (satisfying fun c => c = '+' || c = '-').Consumes P :=
    consumes_satisfying fun c hc => hP.ordinary <| by
      simp only [Bool.or_eq_true, decide_eq_true_eq] at hc
      rcases hc with rfl | rfl <;> decide
  exact hmark.andThen hP fun _ => (hsign.optional hP).andThen hP fun _ =>
    (consumes_digits hP).map _

/-- A numeral is consumed. -/
theorem consumes_number : number.Consumes P := by
  have hlexeme : (mantissa.andThen fun m =>
      (optional exponent).map fun e => m ++ e.getD []).Consumes P :=
    (consumes_mantissa hP).andThen hP fun _ => ((consumes_exponent hP).optional hP).map _
  intro text value rest hread
  unfold number at hread
  dsimp only at hread
  split at hread
  next spelling after hspelling =>
    split at hread
    · simp only [Reading.done.injEq] at hread
      exact hread.2 ▸ hlexeme text spelling after hspelling
    · exact absurd hread (by simp)
  all_goals exact absurd hread (by simp)

section Nested

variable {nested : Reader Expr} (hnested : nested.Consumes P) (steps : Nat)
include hnested

/-- An entry of an object literal is consumed. -/
theorem consumes_entry : (entry nested).Consumes P := by
  have hcolon : (char ':').Consumes P := consumes_char hP (by decide)
  have hkey : (oneOf [stringLiteral, name, digits.map String.ofList]).Consumes P := by
    refine consumes_oneOf fun reader hreader => ?_
    simp only [List.mem_cons, List.not_mem_nil, or_false] at hreader
    rcases hreader with rfl | rfl | rfl
    · exact consumes_stringLiteral hP
    · exact consumes_name hP
    · exact (consumes_digits hP).map _
  exact (hkey.spaced hP).andThen hP fun _ =>
    (((hcolon.spaced hP).before hP hnested).optional hP).map _

/-- An object literal is consumed between its braces. -/
theorem consumes_object : (((char '{').before (commaList steps (entry nested))).followedBy
    (spaced (char '}'))).Consumes P := by
  have hentries := (consumes_entry hP hnested).commaList hP steps
  have hopening : (char '{').Consumes (· = ['{']) := consumes_satisfying fun c hc => by simpa using hc
  have hclosing : (char '}').Consumes (· = ['}']) := consumes_satisfying fun c hc => by simpa using hc
  have hinner : ((char '{').before (commaList steps (entry nested))).Consumes
      fun text => ∃ inner, text = '{' :: inner ∧ P inner :=
    hopening.andThen_of (fun _ => hentries) fun x y hx hy => ⟨y, by rw [hx]; rfl, hy⟩
  have hend : (spaced (char '}')).Consumes
      fun text => ∃ gap after, text = gap ++ '}' :: after ∧ P gap ∧ P after :=
    hclosing.spaced_of hP fun x y z hx hy hz => ⟨x, z, by rw [hy]; rfl, hx, hz⟩
  refine hinner.andThen_of (fun _ => hend.map _) fun x y hx hy => ?_
  obtain ⟨inner, rfl, hin⟩ := hx
  obtain ⟨gap, after, rfl, hgap, hafter⟩ := hy
  simpa using hP.append (hP.braces (hP.append hin hgap)) hafter

/-- An expression that no operator divides is consumed. -/
theorem consumes_primary : (primary steps nested).Consumes P := by
  have hchar {c : Char} (h : isOrdinary c) : (char c).Consumes P := consumes_char hP h
  have hitems := hnested.commaList hP steps
  refine (consumes_oneOf fun reader hreader => ?_).spaced hP
  simp only [List.mem_cons, List.not_mem_nil, or_false] at hreader
  rcases hreader with rfl | rfl | rfl | rfl | rfl | rfl
  · exact consumes_number hP
  · exact (consumes_stringLiteral hP).map _
  · exact (((hchar (by decide)).before hP hitems).followedBy hP
      ((hchar (by decide)).spaced hP)).map _
  · exact (consumes_object hP hnested steps).map _
  · exact ((hchar (by decide)).before hP (hnested.spaced hP)).followedBy hP (hchar (by decide))
  · exact (consumes_name hP).map _

/-- An access is consumed. -/
theorem consumes_access : (access steps nested).Consumes P := by
  have hspaced {c : Char} (h : isOrdinary c) : (spaced (char c)).Consumes P :=
    (consumes_char hP h).spaced hP
  have harguments := hnested.commaList hP steps
  refine consumes_oneOf fun reader hreader => ?_
  simp only [List.mem_cons, List.not_mem_nil, or_false] at hreader
  rcases hreader with rfl | rfl | rfl
  · exact ((hspaced (by decide)).before hP (consumes_name hP)).map _
  · exact (((hspaced (by decide)).before hP hnested).followedBy hP (hspaced (by decide))).map _
  · exact (((hspaced (by decide)).before hP harguments).followedBy hP (hspaced (by decide))).map _

/-- An expression with its accesses is consumed. -/
theorem consumes_postfixed : (postfixed steps nested).Consumes P :=
  (consumes_primary hP hnested steps).andThen hP fun _ =>
    (consumes_access hP hnested steps).foldMany hP _ steps _

/-- An expression with operators in front is consumed. -/
theorem consumes_unary (signs : Nat) : (unary steps nested signs).Consumes P := by
  have hpostfixed := consumes_postfixed hP hnested steps
  have hoperator : unaryOperator.Consumes P := by
    refine consumes_oneOf fun reader hreader => ?_
    simp only [List.mem_cons, List.not_mem_nil, or_false] at hreader
    rcases hreader with rfl | rfl | rfl
    all_goals exact (consumes_char hP (by decide)).map _
  induction signs with
  | zero => exact hpostfixed
  | succ signs ih =>
    exact ((hoperator.spaced hP).andThen hP fun _ => ih.map _).orElse hpostfixed

omit hnested in
/-- Operands of one level are consumed with their operators. -/
theorem consumes_leftGrouped {operator : Reader BinaryOp} {operand : Reader Expr}
    (hoperator : operator.Consumes P) (hoperand : operand.Consumes P) :
    (leftGrouped steps operator operand).Consumes P :=
  hoperand.andThen hP fun _ =>
    ((hoperator.spaced hP).andThen hP fun _ => hoperand.map _).foldMany hP _ steps _

/-- An expression without a conditional at its top is consumed. -/
theorem consumes_operation : (operation steps nested).Consumes P := by
  have hlevels (among : List (List (String × BinaryOp))) (hamong : among ⊆ levels) :
      ∀ operand : Reader Expr, operand.Consumes P →
        (among.foldl (fun operand spellings =>
          leftGrouped steps (operatorAmong spellings) operand) operand).Consumes P := by
    induction among with
    | nil => exact fun _ h => h
    | cons spellings among ih =>
      intro operand hoperand
      have hoperator : (operatorAmong spellings).Consumes P := by
        refine consumes_oneOf fun reader hreader => ?_
        obtain ⟨spelling, hspelling, rfl⟩ := List.mem_map.mp hreader
        exact (consumes_word hP
          (isOrdinary_of_mem_levels (hamong List.mem_cons_self) hspelling)).map _
      exact ih (fun _ h => hamong (List.mem_cons_of_mem _ h)) _
        (consumes_leftGrouped hP steps hoperator hoperand)
  exact hlevels levels (List.Subset.refl _) _ (consumes_unary hP hnested steps steps)

/-- An expression with or without a conditional at its top is consumed. -/
theorem consumes_conditional : (conditional steps nested).Consumes P := by
  have hbranch {c : Char} (h : isOrdinary c) : ((spaced (char c)).before nested).Consumes P :=
    ((consumes_char hP h).spaced hP).before hP hnested
  exact (consumes_operation hP hnested steps).andThen hP fun _ =>
    (((hbranch (by decide)).andThen hP fun _ => (hbranch (by decide)).map _).optional hP).map _

end Nested

/-- An expression is consumed. -/
theorem consumes_expression (steps : Nat) : (expression steps).Consumes P := by
  induction steps with
  | zero =>
    intro text value rest hread
    exact absurd hread (by simp [expression])
  | succ steps ih => exact consumes_conditional hP ih steps

end Grammar

/-- A source that can be read as an expression has every property that the grammar respects. -/
theorem Respected.of_readWhole {P : List Char → Prop} (hP : Respected P) {source : List Char}
    {expr : Expr} (h : readWhole source = .ok expr) : P source := by
  have hconsumes := (Grammar.consumes_expression hP (source.length + 1)).spaced hP
  unfold readWhole at h
  cases hread : Reader.spaced (Grammar.expression (source.length + 1)) source with
  | done value rest =>
    cases rest with
    | nil =>
      obtain ⟨consumed, hsource, hconsumed⟩ := hconsumes source value [] hread
      rw [List.append_nil] at hsource
      exact hsource ▸ hconsumed
    | cons c rest => simp [hread] at h
  | stuck rest => simp [hread] at h
  | failed rest => simp [hread] at h

/-- A source with a value has every property that the grammar respects. -/
theorem Respected.of_evaluateSource {P : List Char → Prop} (hP : Respected P) {source : String}
    {scope : Scope} {value : Value} (h : evaluateSource source scope = .ok value) :
    P source.toList := by
  unfold evaluateSource at h
  cases hparse : parse source with
  | error error => simp [hparse, bind, Except.bind] at h
  | ok expr => exact hP.of_readWhole (parse_eq_ok_iff.mp hparse).2

end DirectiveMarkup.Expression
