import DirectiveMarkup.Proofs.Printing

/-!
# Which readable expressions are accepted

An expression that can be read is accepted when what the pass counts stays within the limits. The
pass counts more than what is there: the point of a numeral behind a digit and the sign of an
exponent count as operators, a conditional in a bracket counts with the ones behind it, and a sign
behind the point of a numeral counts as one in front of the next operand. What lies within the
limits together with these is always accepted; what lies within the limits alone need not be.
-/

namespace DirectiveMarkup.Expression

mutual

/-- The most brackets, signs and conditionals around a place of a phrase. -/
def Phrase.depth : Phrase → Nat
  | .atom _ => 0
  | .group inner => inner.depth + 1
  | .array items _ => itemsDepth items + 1
  | .object entries _ => entriesDepth entries + 1
  | .sign _ operand => operand.depth + 1
  | .operation _ left right => max left.depth right.depth
  | .conditional test yes no => max test.depth (max yes.depth no.depth) + 1
  | .member receiver _ => receiver.depth
  | .index receiver place => max receiver.depth (place.depth + 1)
  | .call callee arguments _ => max callee.depth (itemsDepth arguments + 1)

/-- The depth of items. -/
def itemsDepth : List Phrase → Nat
  | [] => 0
  | item :: rest => max item.depth (itemsDepth rest)

/-- The depth of an entry. -/
def entryDepth : Atom × Option Phrase → Nat
  | (_, some value) => value.depth
  | (_, none) => 0

/-- The depth of entries. -/
def entriesDepth : List (Atom × Option Phrase) → Nat
  | [] => 0
  | entry :: rest => max (entryDepth entry) (entriesDepth rest)

end

mutual

/-- What the pass counts as nesting although nothing is open any more: the conditionals in front of
something else in their bracket, and the signs that are taken for signs of an operand. -/
def Phrase.strays : Phrase → Nat
  | .atom _ => 0
  | .group inner => inner.strays
  | .array items _ => itemsStrays items
  | .object entries _ => entriesStrays entries
  | .sign _ operand => operand.strays
  | .operation op left right => left.strays + op.signsBehind left.endsWithPoint + right.strays
  | .conditional test yes no => test.strays + yes.strays + yes.questions + no.strays
  | .member receiver _ => receiver.strays
  | .index receiver place => receiver.strays + place.strays
  | .call callee arguments _ => callee.strays + itemsStrays arguments

/-- The strays of items. -/
def itemsStrays : List Phrase → Nat
  | [] => 0
  | item :: rest => item.strays + (if rest.isEmpty then 0 else item.questions) + itemsStrays rest

/-- The strays of an entry. -/
def entryStrays : Atom × Option Phrase → Nat
  | (_, some value) => value.strays
  | (_, none) => 0

/-- The strays of entries. -/
def entriesStrays : List (Atom × Option Phrase) → Nat
  | [] => 0
  | entry :: rest =>
    entryStrays entry + (if rest.isEmpty then 0 else entryQuestions entry) + entriesStrays rest

end

mutual

/-- The operators that the pass counts inside of numerals. -/
def Phrase.numeralMarks : Phrase → Nat
  | .atom a => a.marked
  | .group inner => inner.numeralMarks
  | .array items _ => itemsNumeralMarks items
  | .object entries _ => entriesNumeralMarks entries
  | .sign _ operand => operand.numeralMarks
  | .operation _ left right => left.numeralMarks + right.numeralMarks
  | .conditional test yes no => test.numeralMarks + yes.numeralMarks + no.numeralMarks
  | .member receiver _ => receiver.numeralMarks
  | .index receiver place => receiver.numeralMarks + place.numeralMarks
  | .call callee arguments _ => callee.numeralMarks + itemsNumeralMarks arguments

/-- The operators that the pass counts inside of the numerals of items. -/
def itemsNumeralMarks : List Phrase → Nat
  | [] => 0
  | item :: rest => item.numeralMarks + itemsNumeralMarks rest

/-- The operators that the pass counts inside of the numerals of an entry. -/
def entryNumeralMarks : Atom × Option Phrase → Nat
  | (_, some value) => value.numeralMarks
  | (_, none) => 0

/-- The operators that the pass counts inside of the numerals of entries. -/
def entriesNumeralMarks : List (Atom × Option Phrase) → Nat
  | [] => 0
  | entry :: rest => entryNumeralMarks entry + entriesNumeralMarks rest

end

/-! ## Nesting -/

/-- The conditionals that a phrase leaves open are part of its height. -/
theorem Phrase.WellFormed.questions_le_height {phrase : Phrase} (h : phrase.WellFormed) :
    phrase.questions ≤ phrase.height 0 := by
  have hopen := (h.isMeasured 0 [] 0 0).nesting_le
  simpa [Load.nesting_mk] using hopen

/-- The height of items is within their depth and strays when that of each is. -/
theorem itemsHeight_le {items : List Phrase} (hwell : ∀ item ∈ items, item.WellFormed)
    (h : ∀ item ∈ items, item.height 0 ≤ item.depth + item.strays) :
    itemsHeight items ≤ itemsDepth items + itemsStrays items := by
  induction items with
  | nil => exact le_rfl
  | cons item items ih =>
    have hitem := h item List.mem_cons_self
    have hopen := (hwell item List.mem_cons_self).questions_le_height
    have hitems := ih (fun item hm => hwell item (List.mem_cons_of_mem _ hm)) fun item hm =>
      h item (List.mem_cons_of_mem _ hm)
    cases items with
    | nil =>
      -- The conditionals of the last item stay open too, but they are part of its own height.
      simp only [itemsHeight, itemsDepth, itemsStrays, List.isEmpty_nil, if_true]
      omega
    | cons next items =>
      simp only [itemsHeight, itemsDepth, itemsStrays, List.isEmpty_cons, Bool.false_eq_true,
        if_false] at hitems ⊢
      omega

/-- The height of entries is within their depth and strays when that of each value is. -/
theorem entriesHeight_le {entries : List (Atom × Option Phrase)}
    (hwell : ∀ entry ∈ entries, ∀ value ∈ entry.2, value.WellFormed)
    (h : ∀ entry ∈ entries, ∀ value ∈ entry.2, value.height 0 ≤ value.depth + value.strays) :
    entriesHeight entries ≤ entriesDepth entries + entriesStrays entries := by
  induction entries with
  | nil => exact le_rfl
  | cons entry entries ih =>
    have hentry : entryHeight entry ≤ entryDepth entry + entryStrays entry ∧
        entryQuestions entry ≤ entryHeight entry := by
      obtain ⟨key, value⟩ := entry
      cases value with
      | none => exact ⟨le_rfl, le_rfl⟩
      | some value =>
        exact ⟨h (key, some value) List.mem_cons_self value rfl,
          (hwell (key, some value) List.mem_cons_self value rfl).questions_le_height⟩
    have hentries := ih (fun entry hm => hwell entry (List.mem_cons_of_mem _ hm)) fun entry hm =>
      h entry (List.mem_cons_of_mem _ hm)
    cases entries with
    | nil =>
      simp only [entriesHeight, entriesDepth, entriesStrays, List.isEmpty_nil, if_true]
      omega
    | cons next entries =>
      simp only [entriesHeight, entriesDepth, entriesStrays, List.isEmpty_cons,
        Bool.false_eq_true, if_false] at hentries ⊢
      omega

/-- What the pass meets in a phrase is within its depth and its strays. -/
theorem Phrase.WellFormed.height_le {phrase : Phrase} (h : phrase.WellFormed) (signs : Nat) :
    phrase.height signs ≤ signs + (phrase.depth + phrase.strays) := by
  induction h generalizing signs with
  | atom => exact Nat.le_add_right _ _
  | @group inner _ ih =>
    have hinner := ih 0
    simp only [Phrase.height, Phrase.depth, Phrase.strays]
    omega
  | @array items _ hwell ih =>
    have hitems := itemsHeight_le hwell fun item hitem => by simpa using ih item hitem 0
    simp only [Phrase.height, Phrase.depth, Phrase.strays]
    omega
  | @object entries _ _ hwell ih =>
    have hentries := entriesHeight_le hwell fun entry hentry value hvalue => by
      simpa using ih entry hentry value hvalue 0
    simp only [Phrase.height, Phrase.depth, Phrase.strays]
    omega
  | @sign op operand _ _ ih =>
    have hoperand := ih (signs + 1)
    simp only [Phrase.height, Phrase.depth, Phrase.strays]
    omega
  | @operation op left right _ _ _ _ ihleft ihright =>
    have hleft := ihleft signs
    have hright := ihright (op.signsBehind left.endsWithPoint)
    simp only [Phrase.height, Phrase.depth, Phrase.strays]
    omega
  | @conditional test yes no _ _ _ _ ihtest ihyes ihno =>
    have htest := ihtest signs
    have hyes := ihyes 0
    have hno := ihno 0
    simp only [Phrase.height, Phrase.depth, Phrase.strays]
    omega
  | member _ _ _ ih => exact ih signs
  | @index receiver place _ _ _ ihreceiver ihplace =>
    have hreceiver := ihreceiver signs
    have hplace := ihplace 0
    simp only [Phrase.height, Phrase.depth, Phrase.strays]
    omega
  | @call callee arguments _ _ hwell _ ihcallee iharguments =>
    have hcallee := ihcallee signs
    have harguments := itemsHeight_le hwell fun item hitem => by simpa using iharguments item hitem 0
    simp only [Phrase.height, Phrase.depth, Phrase.strays]
    omega

/-! ## Operators -/

/-- An operator is counted at most once. -/
theorem BinaryOp.markedBehind_le (op : BinaryOp) (point : Bool) : op.markedBehind point ≤ 1 := by
  unfold markedBehind
  split <;> omega

/-- What is counted in items is in their expressions and numerals when that holds of each. -/
theorem itemsMarked_le {items : List Phrase}
    (h : ∀ item ∈ items, item.marked ≤ item.expr.operatorCount + item.numeralMarks) :
    itemsMarked items ≤ exprsOperatorCount (itemsExprs items) + itemsNumeralMarks items := by
  induction items with
  | nil => exact le_rfl
  | cons item items ih =>
    have hitem := h item List.mem_cons_self
    have hitems := ih fun item hm => h item (List.mem_cons_of_mem _ hm)
    simp only [itemsMarked, itemsExprs, exprsOperatorCount, itemsNumeralMarks]
    omega

/-- What is counted in entries is in their fields and numerals when that holds of each value. -/
theorem entriesMarked_le {entries : List (Atom × Option Phrase)}
    (h : ∀ entry ∈ entries, ∀ value ∈ entry.2,
      value.marked ≤ value.expr.operatorCount + value.numeralMarks) :
    entriesMarked entries ≤
      fieldsOperatorCount (entriesFields entries) + entriesNumeralMarks entries := by
  induction entries with
  | nil => exact le_rfl
  | cons entry entries ih =>
    obtain ⟨key, value⟩ := entry
    have hentries := ih fun entry hm => h entry (List.mem_cons_of_mem _ hm)
    cases value with
    | none =>
      simp only [entriesMarked, entryMarked, entriesFields, entryField, fieldsOperatorCount,
        Expr.operatorCount, entriesNumeralMarks, entryNumeralMarks]
      omega
    | some value =>
      have hvalue := h (key, some value) List.mem_cons_self value rfl
      simp only [entriesMarked, entryMarked, entriesFields, entryField, fieldsOperatorCount,
        entriesNumeralMarks, entryNumeralMarks]
      omega

/-- What the pass counts in a phrase is in its expression or in its numerals. -/
theorem Phrase.WellFormed.marked_le {phrase : Phrase} (h : phrase.WellFormed) :
    phrase.marked ≤ phrase.expr.operatorCount + phrase.numeralMarks := by
  induction h with
  | atom => exact Nat.le_add_left _ _
  | group _ ih | sign _ _ ih => exact ih
  | array _ ih => exact itemsMarked_le ih
  | object _ _ ih => exact entriesMarked_le ih
  | @operation op left right _ _ _ _ ihleft ihright =>
    have hop := op.markedBehind_le left.endsWithPoint
    simp only [Phrase.marked, Phrase.expr, Expr.operatorCount, Phrase.numeralMarks]
    omega
  | conditional _ _ _ _ ihtest ihyes ihno =>
    simp only [Phrase.marked, Phrase.expr, Expr.operatorCount, Phrase.numeralMarks]
    omega
  | @member receiver _ _ _ _ ih =>
    have haccess := receiver.endsWithPoint_add_accessMarked
    simp only [Phrase.marked, Phrase.expr, Expr.operatorCount, Phrase.numeralMarks]
    omega
  | @index receiver _ _ _ _ ihreceiver ihplace =>
    have haccess := receiver.endsWithPoint_add_accessMarked
    simp only [Phrase.marked, Phrase.expr, Expr.operatorCount, Phrase.numeralMarks]
    omega
  | @call callee _ _ _ _ _ ihcallee iharguments =>
    have haccess := callee.endsWithPoint_add_accessMarked
    have harguments := itemsMarked_le iharguments
    simp only [Phrase.marked, Phrase.expr, Expr.operatorCount, Phrase.numeralMarks]
    omega

/-! ## Acceptance -/

/-- A source that can be read is accepted exactly when its phrase is within the limits as the pass
sees it, and always when the phrase is within them together with its strays and numerals. -/
theorem parse_eq_ok_iff_of_readWhole {source : String} {expr : Expr}
    (hread : readWhole source.toList = .ok expr) :
    (∃ phrase : Phrase, phrase.Spells source.toList expr) ∧
      ∀ phrase : Phrase, phrase.Spells source.toList expr →
        (parse source = .ok expr ↔ phrase.height 0 ≤ maxNesting ∧ phrase.marked ≤ maxOperators) ∧
          (phrase.depth + phrase.strays ≤ maxNesting →
            expr.operatorCount + phrase.numeralMarks ≤ maxOperators → parse source = .ok expr) := by
  refine ⟨exists_phrase_of_readWhole hread, fun phrase hphrase => ?_⟩
  have hlimits : parse source = .ok expr ↔
      phrase.height 0 ≤ maxNesting ∧ phrase.marked ≤ maxOperators := by
    rw [parse_eq_ok_iff, hphrase.excess?_eq_none_iff, and_iff_left hread]
  refine ⟨hlimits, fun hnesting hoperators => hlimits.mpr ⟨?_, ?_⟩⟩
  · have hheight := hphrase.wellFormed.height_le 0
    omega
  · have hmarked := hphrase.wellFormed.marked_le
    rw [hphrase.expr_eq] at hmarked
    omega

/-- A list under a sign, with a conditional at its end, is within the limits. -/
theorem parse_list_under_sign :
    let expr : Expr := .unary .negate
      (.array [.literal (.bool true), .conditional (.ident "a") (.ident "b")
        (.binary .add (.ident "c") (.ident "d"))])
    parse "- [ true , a ? b : c + d ] " = .ok expr := by
  intro expr
  have hgap : IsGap [' '] := by simp [IsGap, Text.isTokenGap]
  obtain ⟨hwell, hexpr⟩ := Expr.writes_phrase (fun _ => false) expr (by decide)
  have htext : Separated (expr.phrase fun _ => false).tokens
      "- [ true , a ? b : c + d ] ".toList := separated_flatMap hgap (List.cons_ne_nil _ _) _
  have hread : readWhole "- [ true , a ? b : c + d ] ".toList = .ok expr :=
    hexpr ▸ readWhole_of_separated hwell htext
  exact ((parse_eq_ok_iff_of_readWhole hread).2 _ ⟨hwell, htext.laidOut, hexpr⟩).2
    (by decide) (by decide)

/-! ### A list without operators -/

/-- The numeral `1.5`. -/
def fraction : Phrase :=
  .atom (.decimal ⟨['1'], some ['5'], none⟩)

/-- A list of numerals with a point. -/
def fractions (count : Nat) : Phrase :=
  .array (List.replicate count fraction) false

/-- A list of numerals is well formed. -/
theorem wellFormed_fractions (count : Nat) : (fractions count).WellFormed := by
  refine .array fun item hitem => ?_
  rw [List.eq_of_mem_replicate hitem]
  refine .atom ⟨⟨by simp, ?_, .inl (List.cons_ne_nil _ _), by simp⟩, ?_⟩
  · rintro _ ⟨⟩
    simp
  · rintro _ ⟨⟩
    decide +kernel

/-- In a list of numerals nothing nests and there are no operators, but the pass counts every
point. -/
theorem measures_fractions (count : Nat) : (fractions count).depth = 1 ∧
    (fractions count).expr.operatorCount = 0 ∧ (fractions count).marked = count := by
  have hitems : itemsDepth (List.replicate count fraction) = 0 ∧
      exprsOperatorCount (itemsExprs (List.replicate count fraction)) = 0 ∧
      itemsMarked (List.replicate count fraction) = count := by
    induction count with
    | zero => exact ⟨rfl, rfl, rfl⟩
    | succ count ih =>
      obtain ⟨hdepth, hoperators, hmarked⟩ := ih
      have hpoint : fraction.marked = 1 := by decide
      simp only [List.replicate_succ, itemsDepth, itemsExprs, exprsOperatorCount, itemsMarked,
        hdepth, hoperators, hmarked, hpoint]
      exact ⟨rfl, rfl, Nat.add_comm _ _⟩
  simpa [fractions, Phrase.depth, Phrase.expr, Expr.operatorCount, Phrase.marked] using hitems

/-- A list of 257 numerals with a point can be read, has one bracket and no operator, and is not
accepted. -/
theorem parse_fractions_ne_ok :
    let source := String.ofList ((fractions 257).tokens.flatMap (· ++ [' ']))
    let expr := (fractions 257).expr
    readWhole source.toList = .ok expr ∧ (fractions 257).Spells source.toList expr ∧
      (fractions 257).depth ≤ maxNesting ∧ expr.operatorCount ≤ maxOperators ∧
        parse source ≠ .ok expr := by
  intro source expr
  have hgap : IsGap [' '] := by simp [IsGap, Text.isTokenGap]
  have htext : Separated (fractions 257).tokens source.toList := by
    rw [String.toList_ofList]
    exact separated_flatMap hgap (List.cons_ne_nil _ _) _
  have hwell := wellFormed_fractions 257
  have hspells : (fractions 257).Spells source.toList expr := ⟨hwell, htext.laidOut, rfl⟩
  obtain ⟨hdepth, hoperators, hmarked⟩ := measures_fractions 257
  refine ⟨readWhole_of_separated hwell htext, hspells, by rw [hdepth]; decide,
    by rw [hoperators]; exact Nat.zero_le _, fun hparse => ?_⟩
  have hlimit := (hspells.excess?_eq_none_iff.mp (parse_eq_ok_iff.mp hparse).1).2
  rw [hmarked] at hlimit
  exact absurd hlimit (by decide)

end DirectiveMarkup.Expression
