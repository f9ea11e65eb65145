import DirectiveMarkup.Proofs.Passage

/-!
# What the pass measures of a phrase

The two counts of the pass are told from the phrase that it runs over: how many operators it
counts, and how deep the nesting is that it meets. Signs are taken back at the next operand, which
starts before the accesses that are still under them; a conditional stays open to the end of its
bracket, so that the ones before it in a list count with it; and the mark in a numeral takes the
place of an operator.
-/

namespace DirectiveMarkup.Expression

/-- The operators that are counted inside of a numeral. -/
def Decimal.marked (decimal : Decimal) : Nat :=
  (if decimal.whole ≠ [] ∧ decimal.fraction.isSome then 1 else 0) +
    if decimal.exponent.any (·.sign.isSome) then 1 else 0

/-- The operators that are counted inside of an atom. -/
def Atom.marked : Atom → Nat
  | decimal d => d.marked
  | _ => 0

/-- True of a phrase that ends with the point of a numeral. -/
def Phrase.endsWithPoint : Phrase → Bool
  | .atom a => a.endsWithPoint
  | .sign _ operand => operand.endsWithPoint
  | .operation _ _ right => right.endsWithPoint
  | .conditional _ _ no => no.endsWithPoint
  | _ => false

/-- The conditionals that a phrase leaves open in its bracket. -/
def Phrase.questions : Phrase → Nat
  | .conditional _ yes no => 1 + yes.questions + no.questions
  | _ => 0

/-- How much an operator is counted behind its left operand, which may end with a point. -/
def BinaryOp.markedBehind (op : BinaryOp) (point : Bool) : Nat :=
  if point ∧ op ≠ .coalesce then 0 else 1

/-- How many signs an operator leaves behind its left operand, which may end with a point. -/
def BinaryOp.signsBehind (op : BinaryOp) (point : Bool) : Nat :=
  if point ∧ (op = .add ∨ op = .sub ∨ op = .ne ∨ op = .strictNe) then 1 else 0

/-- How much an access is counted behind a phrase. -/
def Phrase.accessMarked (receiver : Phrase) : Nat :=
  if !receiver.endsWithPoint then 1 else 0

mutual

/-- The operators that are counted in a phrase. -/
def Phrase.marked : Phrase → Nat
  | .atom a => a.marked
  | .group inner => inner.marked
  | .array items _ => itemsMarked items
  | .object entries _ => entriesMarked entries
  | .sign _ operand => operand.marked
  | .operation op left right => left.marked + op.markedBehind left.endsWithPoint + right.marked
  | .conditional test yes no => test.marked + yes.marked + no.marked
  | .member receiver _ => receiver.marked + receiver.accessMarked
  | .index receiver place => receiver.marked + receiver.accessMarked + place.marked
  | .call callee arguments _ => callee.marked + callee.accessMarked + itemsMarked arguments

/-- The operators that are counted in items. -/
def itemsMarked : List Phrase → Nat
  | [] => 0
  | item :: rest => item.marked + itemsMarked rest

/-- The operators that are counted in an entry. -/
def entryMarked : Atom × Option Phrase → Nat
  | (_, some value) => value.marked
  | (_, none) => 0

/-- The operators that are counted in entries. -/
def entriesMarked : List (Atom × Option Phrase) → Nat
  | [] => 0
  | entry :: rest => entryMarked entry + entriesMarked rest

end

/-- The conditionals that an entry leaves open. -/
def entryQuestions (entry : Atom × Option Phrase) : Nat :=
  entry.2.elim 0 Phrase.questions

mutual

/-- The deepest nesting in a phrase, under some signs in front of it. -/
def Phrase.height : Phrase → (signs : Nat) → Nat
  | .atom _, signs => signs
  | .group inner, signs => signs + 1 + inner.height 0
  | .array items _, signs => signs + 1 + itemsHeight items
  | .object entries _, signs => signs + 1 + entriesHeight entries
  | .sign _ operand, signs => operand.height (signs + 1)
  | .operation op left right, signs =>
    max (left.height signs) (right.height (op.signsBehind left.endsWithPoint))
  | .conditional test yes no, signs =>
    max (test.height signs) (max (1 + yes.height 0) (1 + yes.questions + no.height 0))
  | .member receiver _, signs => receiver.height signs
  | .index receiver place, signs => max (receiver.height signs) (1 + place.height 0)
  | .call callee arguments _, signs => max (callee.height signs) (1 + itemsHeight arguments)

/-- The deepest nesting in items: the conditionals of an item stay open in those behind it. -/
def itemsHeight : List Phrase → Nat
  | [] => 0
  | item :: rest => max (item.height 0) (item.questions + itemsHeight rest)

/-- The deepest nesting in an entry. -/
def entryHeight : Atom × Option Phrase → Nat
  | (_, some value) => value.height 0
  | (_, none) => 0

/-- The deepest nesting in entries. -/
def entriesHeight : List (Atom × Option Phrase) → Nat
  | [] => 0
  | entry :: rest => max (entryHeight entry) (entryQuestions entry + entriesHeight rest)

end

/-! ## Atoms -/

namespace Load

variable {current signs operators height marked : Nat} {enclosing : List Nat} {after : Bool}

/-- In the part of a numeral in front of the exponent a point is an operator behind a digit. -/
theorem passes_mantissa {whole : List Char} {fraction : Option (List Char)}
    (hwhole : ∀ c ∈ whole, c.isDigit) (hfraction : ∀ digits ∈ fraction, ∀ c ∈ digits, c.isDigit)
    (hne : whole ≠ [] ∨ ∃ digits ∈ fraction, digits ≠ []) :
    Passes ⟨current, enclosing, signs, operators, false⟩
      (counted whole ++ counted (fraction.elim [] ('.' :: ·))) (current + enclosing.sum + signs)
      ⟨current, enclosing, 0, operators + (if whole ≠ [] ∧ fraction.isSome then 1 else 0),
        fraction ≠ some []⟩ := by
  have hfront : Passes ⟨current, enclosing, signs, operators, false⟩ (counted whole)
      (current + enclosing.sum + signs)
      ⟨current, enclosing, if whole = [] then signs else 0, operators, false || whole ≠ []⟩ :=
    passes_run fun c hc => isNamePart_of_isDigit (hwhole c hc)
  cases fraction with
  | none =>
    have hwhole : whole ≠ [] := by simpa using hne
    simpa [hwhole] using hfront
  | some digits =>
    have hpoint : counted ('.' :: digits) = .operator :: counted digits :=
      counted_steady (by decide) digits
    have hdigits := fun c hc => isNamePart_of_isDigit (hfraction digits rfl c hc)
    rw [Option.elim_some, hpoint]
    refine (hfront.append (passes_operator.append (passes_run hdigits))).congr ?_ ?_
    · split_ifs <;> omega
    · by_cases hwhole : whole = []
      · have hdigits : digits ≠ [] := by simpa [hwhole] using hne
        simp [hwhole, hdigits]
      · simp [hwhole]

/-- In an exponent a sign is an operator. -/
theorem passes_exponent {exponent : Exponent} (h : exponent.WellFormed) :
    Passes ⟨current, enclosing, 0, operators, after⟩ (counted exponent.letters)
      (current + enclosing.sum)
      ⟨current, enclosing, 0, operators + (if exponent.sign.isSome then 1 else 0), true⟩ := by
  have hmark : isNamePart exponent.mark := by
    rcases h.mark with hmark | hmark <;> rw [hmark] <;> decide
  have hdigits : ∀ c ∈ exponent.digits, isNamePart c := fun c hc =>
    isNamePart_of_isDigit (h.digits c hc)
  have hletters : counted exponent.letters =
      .operand :: counted (exponent.sign.toList ++ exponent.digits) := by
    rw [Exponent.letters, List.cons_append, counted_steady (isSteady_of_isNamePart hmark),
      ofChar_of_isNamePart hmark]
    rfl
  have hnonempty := h.nonempty
  rw [hletters]
  cases hsign : exponent.sign with
  | none =>
    refine ((passes_operand (.inl rfl)).append (passes_run hdigits)).congr ?_ ?_
    · omega
    · simp [hnonempty]
  | some sign =>
    have hcounted : counted (sign :: exponent.digits) = .sign :: counted exponent.digits := by
      rcases h.sign sign hsign with rfl | rfl
      all_goals exact counted_steady (by decide) _
    rw [Option.toList_some, List.singleton_append, hcounted]
    refine ((passes_operand (.inl rfl)).append
      (passes_sign_behind.append (passes_run hdigits))).congr ?_ ?_
    · omega
    · simp [hnonempty]

/-- A numeral takes the signs in front of it back. -/
theorem passes_decimal {decimal : Decimal} (h : decimal.WellFormed) :
    Passes ⟨current, enclosing, signs, operators, false⟩ (counted decimal.letters)
      (current + enclosing.sum + signs)
      ⟨current, enclosing, 0, operators + decimal.marked, !decimal.endsWithPoint⟩ := by
  have hsteady := h.isSteady
  rw [Decimal.letters] at hsteady
  have hwhole : IsWhole decimal.whole := isWhole_of_forall fun c hc =>
    hsteady c (List.mem_append_left _ hc)
  have hfraction : IsWhole (decimal.fraction.elim [] ('.' :: ·)) := isWhole_of_forall fun c hc =>
    hsteady c (List.mem_append_right _ (List.mem_append_left _ hc))
  have hmantissa : Passes ⟨current, enclosing, signs, operators, false⟩
      (counted decimal.whole ++ counted (decimal.fraction.elim [] ('.' :: ·)))
      (current + enclosing.sum + signs)
      ⟨current, enclosing, 0,
        operators + (if decimal.whole ≠ [] ∧ decimal.fraction.isSome then 1 else 0),
        decimal.fraction ≠ some []⟩ :=
    passes_mantissa h.whole h.fraction h.nonempty
  rw [Decimal.letters, hwhole, hfraction, ← List.append_assoc]
  cases hexponent : decimal.exponent with
  | none => simpa [Decimal.marked, Decimal.endsWithPoint, hexponent] using hmantissa
  | some exponent =>
    have hwell := h.exponent exponent hexponent
    refine (hmantissa.append (passes_exponent hwell)).congr ?_ ?_
    · omega
    · simp [Decimal.marked, Decimal.endsWithPoint, hexponent, Nat.add_assoc]

/-- An atom takes the signs in front of it back. -/
theorem passes_atom {atom : Atom} (h : atom.WellSpelled) :
    Passes ⟨current, enclosing, signs, operators, false⟩ (counted atom.letters)
      (current + enclosing.sum + signs)
      ⟨current, enclosing, 0, operators + atom.marked, !atom.endsWithPoint⟩ := by
  cases atom with
  | decimal d => exact passes_decimal h
  | quoted quote inside content =>
    have hliteral := counted_quoted h []
    rw [List.append_nil, counted_nil] at hliteral
    rw [hliteral]
    exact (passes_operand (.inr rfl)).congr rfl rfl
  | named name =>
    obtain ⟨c, rest, hname, -, hparts⟩ := exists_of_isName h
    rw [Atom.letters, hname]
    exact (passes_run hparts).congr rfl (by simp [Atom.marked, Atom.endsWithPoint])

/-! ## Phrases -/

/-- An operator is counted behind its left operand. -/
theorem passes_spelling (op : BinaryOp) (point : Bool) :
    Passes ⟨current, enclosing, 0, operators, !point⟩ (counted op.spelling.toList)
      (current + enclosing.sum + op.signsBehind point)
      ⟨current, enclosing, op.signsBehind point, operators + op.markedBehind point, false⟩ := by
  have hcounted : counted op.spelling.toList = (match op with
      | .or | .and | .eq | .le | .ge => [.operator, .operator]
      | .strictEq => [.operator, .operator, .operator]
      | .ne => [.sign, .operator]
      | .strictNe => [.sign, .operator, .operator]
      | .lt | .gt | .mul | .div | .rem => [.operator]
      | .add | .sub => [.sign]
      | .coalesce => [.coalesce]) := by
    cases op <;> decide
  rw [hcounted]
  cases op <;> cases point <;>
    exact ⟨rfl, by simp [peak, step, countOperator, nesting_mk, BinaryOp.signsBehind]⟩

end Load

/-- A phrase without a conditional at its top leaves none open. -/
theorem Phrase.questions_eq_zero {phrase : Phrase} (h : 1 ≤ phrase.rank) :
    phrase.questions = 0 := by
  cases phrase with
  | conditional => exact absurd h (by simp [Phrase.rank])
  | _ => rfl

section Phrases

open Load

/-- The pass measures a phrase as told above, wherever it stands. -/
def Phrase.IsMeasured (phrase : Phrase) : Prop :=
  ∀ current enclosing signs operators,
    Passes ⟨current, enclosing, signs, operators, false⟩ (phrase.tokens.flatMap counted)
      (current + enclosing.sum + phrase.height signs)
      ⟨current + phrase.questions, enclosing, 0, operators + phrase.marked, !phrase.endsWithPoint⟩

/-- Items are measured in order. -/
theorem listed_items {items : List Phrase} (h : ∀ item ∈ items, item.IsMeasured) :
    Listed (items.map Phrase.tokens) (itemsHeight items) (itemsMarked items) := by
  induction items with
  | nil => exact .nil
  | cons item items ih =>
    exact .cons (fun current enclosing operators =>
        ⟨_, h item List.mem_cons_self current enclosing 0 operators⟩)
      (ih fun item hitem => h item (List.mem_cons_of_mem _ hitem))

/-- An entry is measured by its value. -/
theorem measures_entry {entry : Atom × Option Phrase} (hkey : entry.1.IsKey)
    (hvalue : ∀ value ∈ entry.2, value.IsMeasured) :
    Measures (entryTokens entry) (entryQuestions entry) (entryHeight entry) (entryMarked entry) := by
  obtain ⟨key, value⟩ := entry
  intro current enclosing operators
  have hmarked : key.marked = 0 := by
    cases key with
    | decimal d =>
      obtain ⟨hfraction, hexponent⟩ := hkey.2 d rfl
      simp [Atom.marked, Decimal.marked, hfraction, hexponent]
    | _ => rfl
  have hfirst : Passes ⟨current, enclosing, 0, operators, false⟩ (counted key.letters)
      (current + enclosing.sum + 0)
      ⟨current, enclosing, 0, operators + key.marked, !key.endsWithPoint⟩ := passes_atom hkey.1
  rw [hmarked] at hfirst
  cases value with
  | none => exact ⟨_, by simpa [entryTokens, entryHeight, entryQuestions, entryMarked] using hfirst⟩
  | some value =>
    have hcolon : counted [':'] = [.separator] := by decide
    refine ⟨!value.endsWithPoint, ?_⟩
    rw [entryTokens, List.flatMap_cons, List.flatMap_cons, hcolon]
    have hrest := hvalue value rfl current enclosing 0 operators
    refine (hfirst.append (passes_separator.append hrest)).congr ?_ rfl
    have hheight := hrest.nesting_start
    simp only [entryHeight]
    omega

/-- Entries are measured in order. -/
theorem listed_entries {entries : List (Atom × Option Phrase)}
    (hkeys : ∀ entry ∈ entries, entry.1.IsKey)
    (hvalues : ∀ entry ∈ entries, ∀ value ∈ entry.2, value.IsMeasured) :
    Listed (entries.map entryTokens) (entriesHeight entries) (entriesMarked entries) := by
  induction entries with
  | nil => exact .nil
  | cons entry entries ih =>
    exact .cons (measures_entry (hkeys entry List.mem_cons_self) (hvalues entry List.mem_cons_self))
      (ih (fun entry hentry => hkeys entry (List.mem_cons_of_mem _ hentry))
        fun entry hentry => hvalues entry (List.mem_cons_of_mem _ hentry))

/-- Brackets behind a phrase are an access. -/
theorem Phrase.IsMeasured.passes_access {receiver : Phrase} (h : receiver.IsMeasured)
    (hrank : 8 ≤ receiver.rank) {opening closing : Token} {tokens : List Token} {height marked : Nat}
    (hopening : counted opening = [.opening]) (hclosing : counted closing = [.closing])
    (htokens : Holds tokens height marked) (current : Nat) (enclosing : List Nat)
    (signs operators : Nat) :
    Passes ⟨current, enclosing, signs, operators, false⟩
      ((receiver.tokens ++ opening :: (tokens ++ [closing])).flatMap counted)
      (current + enclosing.sum + max (receiver.height signs) (1 + height))
      ⟨current, enclosing, 0, operators + (receiver.marked + receiver.accessMarked + marked), true⟩ := by
  have hfirst := h current enclosing signs operators
  rw [Phrase.questions_eq_zero (by omega), Nat.add_zero] at hfirst
  rw [List.flatMap_append]
  refine (hfirst.append (passes_brackets hopening hclosing htokens)).congr ?_ ?_
  · omega
  · simp [Phrase.accessMarked, Nat.add_assoc]

/-- A sign in front of an operand is measured with it. -/
theorem Phrase.IsMeasured.sign {operand : Phrase} (h : operand.IsMeasured)
    (hrank : 7 ≤ operand.rank) (op : UnaryOp) : (Phrase.sign op operand).IsMeasured := by
  intro current enclosing signs operators
  have hcounted : counted [op.spelling] = [.sign] := by cases op <;> decide
  have hoperand := h current enclosing (signs + 1) operators
  have hstart := hoperand.nesting_start
  rw [Phrase.tokens, List.flatMap_cons, hcounted]
  refine (passes_sign.append hoperand).congr ?_ ?_
  · simp only [nesting_mk, Phrase.height] at hstart ⊢
    omega
  · rw [Phrase.questions_eq_zero (by omega)]
    rfl

/-- An operator between two operands is measured with them. -/
theorem Phrase.IsMeasured.operation {op : BinaryOp} {left right : Phrase} (hleft : left.IsMeasured)
    (hright : right.IsMeasured) (hleftRank : op.rank ≤ left.rank) (hrightRank : op.rank < right.rank) :
    (Phrase.operation op left right).IsMeasured := by
  intro current enclosing signs operators
  have hfirst := hleft current enclosing signs operators
  rw [Phrase.questions_eq_zero (op.rank_bounds.1.trans hleftRank), Nat.add_zero] at hfirst
  -- Behind a point the pass sees no operand, so a sign there stays in front of the right one.
  have hsecond := hright current enclosing (op.signsBehind left.endsWithPoint)
    (operators + left.marked + op.markedBehind left.endsWithPoint)
  have hstart := hsecond.nesting_start
  rw [Phrase.tokens, List.flatMap_append, List.flatMap_cons]
  refine (hfirst.append ((passes_spelling op left.endsWithPoint).append hsecond)).congr ?_ ?_
  · simp only [nesting_mk, Phrase.height] at hstart ⊢
    omega
  · rw [Phrase.questions_eq_zero (by omega), Phrase.marked]
    simp only [Nat.add_assoc]
    rfl

/-- A conditional is measured with its test and its branches. -/
theorem Phrase.IsMeasured.conditional {test yes no : Phrase} (htest : test.IsMeasured)
    (hyes : yes.IsMeasured) (hno : no.IsMeasured) (hrank : 1 ≤ test.rank) :
    (Phrase.conditional test yes no).IsMeasured := by
  intro current enclosing signs operators
  have hfirst := htest current enclosing signs operators
  rw [Phrase.questions_eq_zero hrank, Nat.add_zero] at hfirst
  have hsecond := hyes (current + 1) enclosing 0 (operators + test.marked)
  have hthird := hno (current + 1 + yes.questions) enclosing 0
    (operators + test.marked + yes.marked)
  have hstartYes := hsecond.nesting_start
  have hstartNo := hthird.nesting_start
  have hmarks : (Phrase.conditional test yes no).tokens.flatMap counted =
      test.tokens.flatMap counted ++ ([Mark.question] ++ (yes.tokens.flatMap counted ++
        ([Mark.separator] ++ no.tokens.flatMap counted))) := by
    rw [Phrase.tokens, List.flatMap_append, List.flatMap_cons, List.flatMap_append,
      List.flatMap_cons]
    rfl
  rw [hmarks]
  refine (hfirst.append (passes_question.append
    (hsecond.append (passes_separator.append hthird)))).congr ?_ ?_
  · simp only [nesting_mk, Phrase.height] at hstartYes hstartNo ⊢
    omega
  · simp only [Phrase.questions, Phrase.marked, Phrase.endsWithPoint, Nat.add_assoc]

/-- A name behind a point is an access. -/
theorem Phrase.IsMeasured.member {receiver : Phrase} {name : String} (h : receiver.IsMeasured)
    (hrank : 8 ≤ receiver.rank) (hname : isName name) :
    (Phrase.member receiver name).IsMeasured := by
  intro current enclosing signs operators
  obtain ⟨c, rest, hletters, -, hparts⟩ := exists_of_isName hname
  have hfirst := h current enclosing signs operators
  rw [Phrase.questions_eq_zero (by omega), Nat.add_zero] at hfirst
  have hpoint : counted ['.'] = [.operator] := by decide
  rw [Phrase.tokens, List.flatMap_append, List.flatMap_cons, List.flatMap_singleton, hletters,
    hpoint]
  refine (hfirst.append (passes_operator.append (passes_run hparts))).congr ?_ ?_
  · simp only [Phrase.height]
    omega
  · simp [Phrase.questions, Phrase.marked, Phrase.accessMarked, Phrase.endsWithPoint,
      Nat.add_assoc]

/-- What stands between two brackets holds what is measured of it. -/
theorem Phrase.IsMeasured.holds {phrase : Phrase} (h : phrase.IsMeasured) :
    Holds phrase.tokens (phrase.height 0) phrase.marked :=
  fun current enclosing operators => ⟨_, _, h current enclosing 0 operators⟩

/-- The pass measures every phrase. -/
theorem Phrase.WellFormed.isMeasured {phrase : Phrase} (h : phrase.WellFormed) :
    phrase.IsMeasured := by
  induction h with
  | atom hatom =>
    intro current enclosing signs operators
    rw [Phrase.tokens, List.flatMap_singleton]
    exact passes_atom hatom.1
  | group _ ih =>
    intro current enclosing signs operators
    exact (passes_brackets rfl rfl ih.holds).congr rfl rfl
  | @array items comma _ ih =>
    intro current enclosing signs operators
    rw [Phrase.tokens, itemsTokens_eq_map]
    exact (passes_brackets rfl rfl ((listed_items ih).holds comma)).congr rfl rfl
  | @object entries comma hkeys _ ih =>
    intro current enclosing signs operators
    rw [Phrase.tokens, entriesTokens_eq_map]
    exact (passes_brackets rfl rfl ((listed_entries hkeys ih).holds comma)).congr rfl rfl
  | @sign op _ _ hrank ih => exact ih.sign hrank op
  | operation _ _ hleft hright ihleft ihright => exact ihleft.operation ihright hleft hright
  | conditional _ _ _ hrank ihtest ihyes ihno => exact ihtest.conditional ihyes ihno hrank
  | member _ hrank hname ih => exact ih.member hrank hname
  | index _ _ hrank ihreceiver ihplace =>
    exact fun current enclosing signs operators =>
      ihreceiver.passes_access hrank rfl rfl ihplace.holds current enclosing signs operators
  | @call callee arguments comma _ _ hrank ihcallee iharguments =>
    intro current enclosing signs operators
    rw [Phrase.tokens, itemsTokens_eq_map]
    exact ihcallee.passes_access hrank rfl rfl ((listed_items iharguments).holds comma) current
      enclosing signs operators

end Phrases

/-! ## The limits of a phrase -/

/-- A text is within the limits exactly when its phrase is. -/
theorem Phrase.Spells.excess?_eq_none_iff {phrase : Phrase} {text : List Char} {expr : Expr}
    (h : phrase.Spells text expr) :
    excess? text = none ↔ phrase.height 0 ≤ maxNesting ∧ phrase.marked ≤ maxOperators := by
  have hpass := h.wellFormed.isMeasured 0 [] 0 0
  rw [Expression.excess?_eq_none_iff, h.counted_eq, Load.start, hpass.peak_eq, hpass.run_eq]
  simp

end DirectiveMarkup.Expression
