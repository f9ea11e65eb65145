import DirectiveMarkup.Proofs.Consumption
import Mathlib.Data.List.Defs

/-!
# What readers leave

Wherever a reader stops, behind what it has read, stuck or failed for good, what is left is an end of
the text that it was given. This passes through all the ways in which readers are put together, also
through those that go back to an earlier place and try something else, and so it holds of the grammar.
The place where reading stopped can then be told by what is left.
-/

namespace DirectiveMarkup.Expression

/-- The characters that were still to be read when reading stopped. -/
def Reading.remainder {α : Type} : Reading α → List Char
  | done _ rest => rest
  | stuck rest => rest
  | failed rest => rest

/-- Wherever a reader stops, what is left is an end of the text. -/
def Reader.LeavesEnd {α : Type} (reader : Reader α) : Prop :=
  ∀ text, (reader text).remainder <:+ text

namespace Reader

variable {α β : Type} {first : Reader α} {second : Reader β} {reader : Reader α}

/-- Reading nothing leaves the text. -/
theorem leavesEnd_succeed (value : α) : (succeed value).LeavesEnd :=
  fun text => List.suffix_refl text

/-- Two readers in a row leave an end of an end. -/
theorem LeavesEnd.andThen {next : α → Reader β} (hfirst : first.LeavesEnd)
    (hnext : ∀ value, (next value).LeavesEnd) : (first.andThen next).LeavesEnd := by
  intro text
  have hmiddle := hfirst text
  unfold Reader.andThen
  cases hvalue : first text with
  | done value rest =>
    rw [hvalue] at hmiddle
    exact (hnext value rest).trans hmiddle
  | stuck rest | failed rest =>
    rw [hvalue] at hmiddle
    exact hmiddle

/-- Changing what was read does not change what is left. -/
theorem LeavesEnd.map (h : reader.LeavesEnd) (f : α → β) : (reader.map f).LeavesEnd :=
  h.andThen fun value => leavesEnd_succeed (f value)

/-- Two readers of which the second is kept. -/
theorem LeavesEnd.before (hfirst : first.LeavesEnd) (hsecond : second.LeavesEnd) :
    (first.before second).LeavesEnd :=
  hfirst.andThen fun _ => hsecond

/-- Two readers of which the first is kept. -/
theorem LeavesEnd.followedBy (hfirst : first.LeavesEnd) (hsecond : second.LeavesEnd) :
    (first.followedBy second).LeavesEnd :=
  hfirst.andThen fun _ => hsecond.map _

/-- An alternative leaves what the side leaves that decides. -/
theorem LeavesEnd.orElse {other : Reader α} (h : reader.LeavesEnd) (hother : other.LeavesEnd) :
    (reader.orElse other).LeavesEnd := by
  intro text
  have hleft := h text
  unfold Reader.orElse
  cases hvalue : reader text with
  | stuck rest => exact hother text
  | done value rest | failed rest =>
    rw [hvalue] at hleft
    exact hleft

/-- Several alternatives leave what one of them leaves. -/
theorem leavesEnd_oneOf {readers : List (Reader α)} (h : readers.Forall LeavesEnd) :
    (oneOf readers).LeavesEnd := by
  induction readers with
  | nil => exact fun text => List.suffix_refl text
  | cons reader rest ih =>
    rw [List.forall_cons] at h
    cases rest with
    | nil => exact h.1
    | cons other rest => exact h.1.orElse (ih h.2)

/-- An optional part that does not fit leaves the text. -/
theorem LeavesEnd.optional (h : reader.LeavesEnd) : (optional reader).LeavesEnd := by
  intro text
  have hleft := h text
  unfold Reader.optional
  cases hvalue : reader text with
  | stuck rest => exact List.suffix_refl text
  | done value rest | failed rest =>
    rw [hvalue] at hleft
    exact hleft

/-- A repetition leaves what its last part leaves that fits. -/
theorem LeavesEnd.foldMany (h : second.LeavesEnd) (combine : α → β → α) (steps : Nat) (value : α) :
    (foldMany combine second steps value).LeavesEnd := by
  induction steps generalizing value with
  | zero => exact leavesEnd_succeed value
  | succ steps ih =>
    intro text
    have hleft := h text
    unfold Reader.foldMany
    cases hvalue : second text with
    | done next rest =>
      rw [hvalue] at hleft
      exact (ih (combine value next) rest).trans hleft
    | stuck rest => exact List.suffix_refl text
    | failed rest =>
      rw [hvalue] at hleft
      exact hleft

/-- At most a character of a class is taken off. -/
theorem leavesEnd_satisfying (p : Char → Bool) : (satisfying p).LeavesEnd := by
  intro text
  cases text with
  | nil => exact List.suffix_refl []
  | cons c rest =>
    rw [satisfying]
    split
    · exact List.suffix_cons c rest
    · exact List.suffix_refl (c :: rest)

/-- At most a given character is taken off. -/
theorem leavesEnd_char (c : Char) : (char c).LeavesEnd :=
  leavesEnd_satisfying _

/-- At most a given word is taken off. -/
theorem leavesEnd_word (letters : String) : (word letters).LeavesEnd := by
  intro text
  unfold word
  cases hrest : letters.toList.isPrefixOf? text with
  | none => exact List.suffix_refl text
  | some rest => exact ⟨letters.toList, (Text.isPrefixOf?_eq_some_iff.mp hrest).symm⟩

/-- A run of characters is taken off. -/
theorem leavesEnd_run (p : Char → Bool) (f : List Char → α) :
    LeavesEnd fun text => .done (f text) (text.dropWhile p) :=
  fun _ => List.dropWhile_suffix p

/-- The blanks around a thing are taken off with it. -/
theorem LeavesEnd.spaced (h : reader.LeavesEnd) : (spaced reader).LeavesEnd := by
  intro text
  have hleft := (h (text.dropWhile Text.isTokenGap)).trans (List.dropWhile_suffix _)
  unfold Reader.spaced
  cases hvalue : reader (text.dropWhile Text.isTokenGap) with
  | done value rest =>
    rw [hvalue] at hleft
    exact (List.dropWhile_suffix _).trans hleft
  | stuck rest | failed rest =>
    rw [hvalue] at hleft
    exact hleft

/-- A list with commas leaves an end. -/
theorem LeavesEnd.commaList (h : reader.LeavesEnd) (steps : Nat) :
    (commaList steps reader).LeavesEnd := by
  have hcomma : (Reader.spaced (char ',')).LeavesEnd := (leavesEnd_char ',').spaced
  refine LeavesEnd.followedBy (h.optional.andThen fun item => ?_) hcomma.optional
  cases item with
  | none => exact leavesEnd_succeed []
  | some item => exact ((hcomma.before h).foldMany _ steps [item]).map List.reverse

end Reader

namespace Grammar

open Reader

/-- A name leaves an end. -/
theorem leavesEnd_name : name.LeavesEnd :=
  (leavesEnd_satisfying _).andThen fun _ => leavesEnd_run _ _

/-- Digits leave an end. -/
theorem leavesEnd_digits : digits.LeavesEnd := by
  intro text
  unfold digits
  split
  · exact List.suffix_refl text
  · exact List.dropWhile_suffix _

/-- Digits with a point leave an end. -/
theorem leavesEnd_mantissa : mantissa.LeavesEnd := by
  have hpoint := leavesEnd_char '.'
  exact leavesEnd_oneOf
    ⟨leavesEnd_digits.andThen fun _ => (hpoint.before (leavesEnd_run _ _)).optional.map _,
      hpoint.before (leavesEnd_digits.map _)⟩

/-- An exponent leaves an end. -/
theorem leavesEnd_exponent : exponent.LeavesEnd :=
  (leavesEnd_satisfying _).andThen fun _ => (leavesEnd_satisfying _).optional.andThen fun _ =>
    leavesEnd_digits.map _

/-- A numeral leaves an end, and the whole text if it stands for no number. -/
theorem leavesEnd_number : number.LeavesEnd := by
  have hlexeme : (mantissa.andThen fun m =>
      (optional exponent).map fun e => m ++ e.getD []).LeavesEnd :=
    leavesEnd_mantissa.andThen fun _ => leavesEnd_exponent.optional.map _
  intro text
  have hleft := hlexeme text
  unfold number
  dsimp only
  split
  next spelling rest hspelling =>
    rw [hspelling] at hleft
    split
    · exact hleft
    · exact List.suffix_refl text
  next rest hstuck =>
    rw [hstuck] at hleft
    exact hleft
  next rest hfailed =>
    rw [hfailed] at hleft
    exact hleft

/-- A string literal leaves an end, and the whole text from its quote on if it is not ended. -/
theorem leavesEnd_stringLiteral : stringLiteral.LeavesEnd := by
  intro text
  cases text with
  | nil => exact List.suffix_refl []
  | cons quote rest =>
    rw [stringLiteral]
    split
    · cases hcontent : quotedContent quote [] rest with
      | none => exact List.suffix_refl (quote :: rest)
      | some content =>
        obtain ⟨literal, hliteral, -⟩ := endsLiteral_of_quotedContent hcontent
        exact ⟨quote :: literal, by rw [hliteral]; rfl⟩
    · exact List.suffix_refl (quote :: rest)

section Nested

variable {nested : Reader Expr} (hnested : nested.LeavesEnd) (steps : Nat)
include hnested

/-- An entry of an object literal leaves an end. -/
theorem leavesEnd_entry : (entry nested).LeavesEnd := by
  have hkey : (oneOf [stringLiteral, name, digits.map String.ofList]).LeavesEnd :=
    leavesEnd_oneOf ⟨leavesEnd_stringLiteral, leavesEnd_name, leavesEnd_digits.map _⟩
  exact hkey.spaced.andThen fun _ => ((leavesEnd_char ':').spaced.before hnested).optional.map _

/-- An expression that no operator divides leaves an end. -/
theorem leavesEnd_primary : (primary steps nested).LeavesEnd := by
  have hitems := hnested.commaList steps
  have hentries := (leavesEnd_entry hnested).commaList steps
  refine LeavesEnd.spaced (leavesEnd_oneOf ⟨leavesEnd_number, leavesEnd_stringLiteral.map _, ?_, ?_, ?_,
    leavesEnd_name.map _⟩)
  · exact (((leavesEnd_char '[').before hitems).followedBy (leavesEnd_char ']').spaced).map _
  · exact (((leavesEnd_char '{').before hentries).followedBy (leavesEnd_char '}').spaced).map _
  · exact ((leavesEnd_char '(').before hnested.spaced).followedBy (leavesEnd_char ')')

/-- An access leaves an end. -/
theorem leavesEnd_access : (access steps nested).LeavesEnd := by
  have hspaced (c : Char) : (spaced (char c)).LeavesEnd := (leavesEnd_char c).spaced
  have harguments := hnested.commaList steps
  exact leavesEnd_oneOf ⟨((hspaced '.').before leavesEnd_name).map _,
    (((hspaced '[').before hnested).followedBy (hspaced ']')).map _,
    (((hspaced '(').before harguments).followedBy (hspaced ')')).map _⟩

/-- An expression with its accesses leaves an end. -/
theorem leavesEnd_postfixed : (postfixed steps nested).LeavesEnd :=
  (leavesEnd_primary hnested steps).andThen fun _ =>
    (leavesEnd_access hnested steps).foldMany _ steps _

/-- An expression with operators in front leaves an end. -/
theorem leavesEnd_unary (signs : Nat) : (unary steps nested signs).LeavesEnd := by
  have hpostfixed := leavesEnd_postfixed hnested steps
  have hoperator : unaryOperator.LeavesEnd := leavesEnd_oneOf
    ⟨(leavesEnd_char '!').map _, (leavesEnd_char '-').map _, (leavesEnd_char '+').map _⟩
  induction signs with
  | zero => exact hpostfixed
  | succ signs ih => exact (hoperator.spaced.andThen fun _ => ih.map _).orElse hpostfixed

omit hnested in
/-- Operands of one level leave an end. -/
theorem leavesEnd_leftGrouped {operand : Reader Expr} (h : operand.LeavesEnd)
    (spellings : List (String × BinaryOp)) :
    (leftGrouped steps (operatorAmong spellings) operand).LeavesEnd := by
  have hoperator : (operatorAmong spellings).LeavesEnd := by
    refine leavesEnd_oneOf (List.forall_iff_forall_mem.mpr fun reader hreader => ?_)
    obtain ⟨spelling, -, rfl⟩ := List.mem_map.mp hreader
    exact (leavesEnd_word spelling.1).map _
  exact h.andThen fun _ => (hoperator.spaced.andThen fun _ => h.map _).foldMany _ steps _

/-- An expression without a conditional at its top leaves an end. -/
theorem leavesEnd_operation : (operation steps nested).LeavesEnd :=
  List.foldlRecOn levels _ (leavesEnd_unary hnested steps steps) fun _ hoperand spellings _ =>
    leavesEnd_leftGrouped steps hoperand spellings

/-- An expression with or without a conditional at its top leaves an end. -/
theorem leavesEnd_conditional : (conditional steps nested).LeavesEnd := by
  have hbranch (c : Char) : ((spaced (char c)).before nested).LeavesEnd :=
    (leavesEnd_char c).spaced.before hnested
  exact (leavesEnd_operation hnested steps).andThen fun _ =>
    ((hbranch '?').andThen fun _ => (hbranch ':').map _).optional.map _

end Nested

/-- An expression leaves an end. -/
theorem leavesEnd_expression (steps : Nat) : (expression steps).LeavesEnd := by
  induction steps with
  | zero => exact fun text => List.suffix_refl text
  | succ steps ih => exact leavesEnd_conditional ih steps

end Grammar

/-- What is left where the reading of a source stopped is an end of the source. -/
theorem suffix_of_readWhole {source rest : List Char} (h : readWhole source = .error rest) :
    rest <:+ source := by
  have hleft := (Grammar.leavesEnd_expression (source.length + 1)).spaced source
  unfold readWhole at h
  cases hread : Reader.spaced (Grammar.expression (source.length + 1)) source with
  | done expr after =>
    rw [hread] at h hleft
    cases after with
    | nil => exact nomatch h
    | cons c after => exact Except.error.inj h ▸ hleft
  | stuck after | failed after =>
    rw [hread] at h hleft
    exact Except.error.inj h ▸ hleft

end DirectiveMarkup.Expression
