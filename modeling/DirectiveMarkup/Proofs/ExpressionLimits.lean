import DirectiveMarkup.Proofs.Measuring
import Mathlib.Tactic.Ring

/-!
# How complex an accepted expression is

What is read is bounded by what the pass counted. The operators and accesses of an expression
are at most the ones that were counted: where the point of a numeral hides an operator, it was
counted in its place. The nesting is another matter, since the pass forgets the signs in front of
an operand before it meets the accesses of the operand. What holds of every accepted expression is
a bound on the nesting as the pass sees it, and a larger one on the nesting itself.
-/

namespace DirectiveMarkup.Expression

/-- A source is accepted when something can be told of what is read. -/
theorem exists_of_parse {α : Type} {source : String} {f : Expr → α} {a : α}
    (h : (parse source).toOption.map f = some a) : ∃ expr, parse source = .ok expr ∧ f expr = a := by
  cases hparse : parse source with
  | error e => simp [hparse, Except.toOption] at h
  | ok expr => exact ⟨expr, rfl, by simpa [hparse, Except.toOption] using h⟩

/-- The phrase of an accepted source is within the limits. -/
theorem exists_phrase_of_parse {source : String} {expr : Expr} (h : parse source = .ok expr) :
    ∃ phrase : Phrase, phrase.Spells source.toList expr ∧ phrase.height 0 ≤ maxNesting ∧
      phrase.marked ≤ maxOperators := by
  obtain ⟨hexcess, hread⟩ := parse_eq_ok_iff.mp h
  obtain ⟨phrase, hphrase⟩ := exists_phrase_of_readWhole hread
  exact ⟨phrase, hphrase, hphrase.excess?_eq_none_iff.mp hexcess⟩

/-! ## Operators and accesses -/

mutual

/-- The operators between operands and the accesses of an expression, all together. -/
def Expr.operatorCount : Expr → Nat
  | .literal _ | .ident _ => 0
  | .array items => exprsOperatorCount items
  | .object entries => fieldsOperatorCount entries
  | .unary _ operand => operand.operatorCount
  | .binary _ left right => left.operatorCount + right.operatorCount + 1
  | .conditional test yes no => test.operatorCount + yes.operatorCount + no.operatorCount
  | .member receiver _ => receiver.operatorCount + 1
  | .index receiver place => receiver.operatorCount + place.operatorCount + 1
  | .call callee arguments => callee.operatorCount + exprsOperatorCount arguments + 1

/-- The operators and accesses of some expressions. -/
def exprsOperatorCount : List Expr → Nat
  | [] => 0
  | expr :: rest => expr.operatorCount + exprsOperatorCount rest

/-- The operators and accesses of the values of an object. -/
def fieldsOperatorCount : List (String × Expr) → Nat
  | [] => 0
  | (_, value) :: rest => value.operatorCount + fieldsOperatorCount rest

end

/-- An atom has no operators. -/
theorem Atom.operatorCount_expr (atom : Atom) : atom.expr.operatorCount = 0 := by
  cases atom with
  | decimal | quoted => rfl
  | named name =>
    simp only [Atom.expr, Grammar.ofName]
    split_ifs <;> rfl

/-- The point at the end of a numeral is counted. -/
theorem Atom.WellSpelled.endsWithPoint_le {atom : Atom} (h : atom.WellSpelled) :
    atom.endsWithPoint.toNat ≤ atom.marked := by
  cases atom with
  | decimal d =>
    by_cases hpoint : d.fraction = some []
    · have hwhole : d.whole ≠ [] := by simpa [hpoint] using h.nonempty
      refine (Bool.toNat_le _).trans ?_
      simp [Atom.marked, Decimal.marked, hpoint, hwhole]
    · simp [Atom.endsWithPoint, Decimal.endsWithPoint, hpoint]
  | quoted | named => exact Nat.zero_le _

/-- An access is counted, or it follows a point that was. -/
theorem Phrase.endsWithPoint_add_accessMarked (receiver : Phrase) :
    receiver.endsWithPoint.toNat + receiver.accessMarked = 1 := by
  unfold accessMarked
  cases receiver.endsWithPoint <;> rfl

/-- An operator is counted, or it follows a point that was. -/
theorem BinaryOp.le_markedBehind (op : BinaryOp) (point : Bool) :
    1 ≤ point.toNat + op.markedBehind point := by
  unfold markedBehind
  cases point
  · simp
  · exact Nat.le_add_right 1 _

/-- The operators of items are counted when those of each are. -/
theorem exprsOperatorCount_le {items : List Phrase}
    (h : ∀ item ∈ items, item.expr.operatorCount + item.endsWithPoint.toNat ≤ item.marked) :
    exprsOperatorCount (itemsExprs items) ≤ itemsMarked items := by
  induction items with
  | nil => exact le_rfl
  | cons item items ih =>
    have hitem := h item List.mem_cons_self
    have hitems := ih fun item hm => h item (List.mem_cons_of_mem _ hm)
    simp only [itemsExprs, exprsOperatorCount, itemsMarked]
    omega

/-- The operators of entries are counted when those of each value are. -/
theorem fieldsOperatorCount_le {entries : List (Atom × Option Phrase)}
    (h : ∀ entry ∈ entries, ∀ value ∈ entry.2,
      value.expr.operatorCount + value.endsWithPoint.toNat ≤ value.marked) :
    fieldsOperatorCount (entriesFields entries) ≤ entriesMarked entries := by
  induction entries with
  | nil => exact le_rfl
  | cons entry entries ih =>
    obtain ⟨key, value⟩ := entry
    have hentries := ih fun entry hm => h entry (List.mem_cons_of_mem _ hm)
    cases value with
    | none =>
      simp only [entriesFields, entryField, fieldsOperatorCount, Expr.operatorCount, entriesMarked,
        entryMarked]
      omega
    | some value =>
      have hvalue := h (key, some value) List.mem_cons_self value rfl
      simp only [entriesFields, entryField, fieldsOperatorCount, entriesMarked, entryMarked]
      omega

/-- All operators and accesses of a phrase are counted, and its point if it ends with one. -/
theorem Phrase.WellFormed.operatorCount_le {phrase : Phrase} (h : phrase.WellFormed) :
    phrase.expr.operatorCount + phrase.endsWithPoint.toNat ≤ phrase.marked := by
  induction h with
  | @atom atom hatom =>
    have hpoint := hatom.1.endsWithPoint_le
    have hcount := atom.operatorCount_expr
    simp only [Phrase.expr, Phrase.endsWithPoint, Phrase.marked]
    omega
  | group _ ih | sign _ _ ih =>
    simp only [Phrase.expr, Expr.operatorCount, Phrase.endsWithPoint, Phrase.marked,
      Bool.toNat_false] at ih ⊢
    omega
  | array _ ih => exact exprsOperatorCount_le ih
  | object _ _ ih => exact fieldsOperatorCount_le ih
  | @operation op left right _ _ _ _ ihleft ihright =>
    have hop := op.le_markedBehind left.endsWithPoint
    simp only [Phrase.expr, Expr.operatorCount, Phrase.endsWithPoint, Phrase.marked]
    omega
  | conditional _ _ _ _ ihtest ihyes ihno =>
    simp only [Phrase.expr, Expr.operatorCount, Phrase.endsWithPoint, Phrase.marked]
    omega
  | @member receiver _ _ _ _ ih =>
    have haccess := receiver.endsWithPoint_add_accessMarked
    simp only [Phrase.expr, Expr.operatorCount, Phrase.endsWithPoint, Phrase.marked,
      Bool.toNat_false]
    omega
  | @index receiver _ _ _ _ ihreceiver ihplace =>
    have haccess := receiver.endsWithPoint_add_accessMarked
    simp only [Phrase.expr, Expr.operatorCount, Phrase.endsWithPoint, Phrase.marked,
      Bool.toNat_false]
    omega
  | @call callee _ _ _ _ _ ihcallee iharguments =>
    have haccess := callee.endsWithPoint_add_accessMarked
    have harguments := exprsOperatorCount_le iharguments
    simp only [Phrase.expr, Expr.operatorCount, Phrase.endsWithPoint, Phrase.marked,
      Bool.toNat_false]
    omega

/-- An accepted expression has at most so many operators and accesses as the limit allows. -/
theorem operatorCount_le_maxOperators {source : String} {expr : Expr} (h : parse source = .ok expr) :
    expr.operatorCount ≤ maxOperators := by
  obtain ⟨phrase, hphrase, -, hmarked⟩ := exists_phrase_of_parse h
  have hcount := hphrase.wellFormed.operatorCount_le
  rw [hphrase.expr_eq] at hcount
  omega

/-- The operator behind the point of `1.` is bounded too: the point was counted for it. -/
theorem operatorCount_sum_behind_point : ∃ expr, parse "1. + a.b[c]" = .ok expr ∧
    expr.operatorCount = 3 ∧ expr.operatorCount ≤ maxOperators := by
  have hread : (parse "1. + a.b[c]").toOption.map Expr.operatorCount = some 3 := by decide +kernel
  obtain ⟨expr, hparse, hcount⟩ := exists_of_parse hread
  exact ⟨expr, hparse, hcount, operatorCount_le_maxOperators hparse⟩

/-! ## Nesting -/

mutual

/-- The most signs, conditionals and steps into brackets on a way from an expression to one of its
parts. -/
def Expr.nesting : Expr → Nat
  | .literal _ | .ident _ => 0
  | .array items => exprsNesting items
  | .object entries => fieldsNesting entries
  | .unary _ operand => operand.nesting + 1
  | .binary _ left right => max left.nesting right.nesting
  | .conditional test yes no => max test.nesting (max yes.nesting no.nesting) + 1
  | .member receiver _ => receiver.nesting
  | .index receiver place => max receiver.nesting (place.nesting + 1)
  | .call callee arguments => max callee.nesting (exprsNesting arguments)

/-- The nesting of expressions in brackets. -/
def exprsNesting : List Expr → Nat
  | [] => 0
  | expr :: rest => max (expr.nesting + 1) (exprsNesting rest)

/-- The nesting of the values of an object. -/
def fieldsNesting : List (String × Expr) → Nat
  | [] => 0
  | (_, value) :: rest => max (value.nesting + 1) (fieldsNesting rest)

end

/-- True of an access in brackets, also with names behind it or signs in front. -/
def Expr.isBracketed : Expr → Bool
  | .index .. | .call .. => true
  | .member receiver _ => receiver.isBracketed
  | .unary _ operand => operand.isBracketed
  | _ => false

mutual

/-- True of an expression in which no sign stands over an access in brackets, and no test of a
conditional nests deeper than the branches. -/
def Expr.isRegular : Expr → Bool
  | .literal _ | .ident _ => true
  | .array items => exprsRegular items
  | .object entries => fieldsRegular entries
  | .unary _ operand => !operand.isBracketed && operand.isRegular
  | .binary _ left right => left.isRegular && right.isRegular
  | .conditional test yes no => test.nesting ≤ max yes.nesting no.nesting && test.isRegular &&
      yes.isRegular && no.isRegular
  | .member receiver _ => receiver.isRegular
  | .index receiver place => receiver.isRegular && place.isRegular
  | .call callee arguments => callee.isRegular && exprsRegular arguments

/-- True when all of some expressions are regular. -/
def exprsRegular : List Expr → Bool
  | [] => true
  | expr :: rest => expr.isRegular && exprsRegular rest

/-- True when all values of an object are regular. -/
def fieldsRegular : List (String × Expr) → Bool
  | [] => true
  | (_, value) :: rest => value.isRegular && fieldsRegular rest

end

/-- The signs in front of a phrase are part of its height. -/
theorem Phrase.WellFormed.height_mono {phrase : Phrase} (h : phrase.WellFormed) {fewer more : Nat}
    (hle : fewer ≤ more) : phrase.height fewer ≤ phrase.height more := by
  induction h generalizing fewer more with
  | atom => exact hle
  | group | array | object => simp only [Phrase.height]; omega
  | sign _ _ ih => exact ih (Nat.succ_le_succ hle)
  | operation _ _ _ _ ihleft _ => exact max_le_max (ihleft hle) le_rfl
  | conditional _ _ _ _ ihtest _ _ => exact max_le_max (ihtest hle) le_rfl
  | member _ _ _ ih => exact ih hle
  | index _ _ _ ihreceiver _ => exact max_le_max (ihreceiver hle) le_rfl
  | call _ _ _ ihcallee _ => exact max_le_max (ihcallee hle) le_rfl

/-- The signs in front of a phrase are held. -/
theorem Phrase.WellFormed.le_height {phrase : Phrase} (h : phrase.WellFormed) (signs : Nat) :
    signs ≤ phrase.height signs := by
  induction h generalizing signs with
  | atom => exact le_rfl
  | group | array | object => simp only [Phrase.height]; omega
  | sign _ _ ih => exact (Nat.le_succ signs).trans (ih (signs + 1))
  | operation _ _ _ _ ihleft _ => exact (ihleft signs).trans (le_max_left _ _)
  | conditional _ _ _ _ ihtest _ _ => exact (ihtest signs).trans (le_max_left _ _)
  | member _ _ _ ih => exact ih signs
  | index _ _ _ ihreceiver _ => exact (ihreceiver signs).trans (le_max_left _ _)
  | call _ _ _ ihcallee _ => exact (ihcallee signs).trans (le_max_left _ _)

/-- How deep an expression may nest when the pass meets a given nesting. -/
def depthBound : Nat → Nat
  | 0 => 0
  | height + 1 => depthBound height + height + 3

/-- The bound grows with the square of the nesting that the pass meets. -/
theorem depthBound_eq (height : Nat) : depthBound height = height * (height + 5) / 2 := by
  have hdouble : 2 * depthBound height = height * (height + 5) := by
    induction height with
    | zero => rfl
    | succ height ih =>
      rw [depthBound]
      calc 2 * (depthBound height + height + 3) = 2 * depthBound height + 2 * height + 6 := by ring
        _ = (height + 1) * (height + 1 + 5) := by rw [ih]; ring
  omega

/-- The bound grows. -/
theorem depthBound_mono {low high : Nat} (h : low ≤ high) : depthBound low ≤ depthBound high := by
  induction h with
  | refl => exact le_rfl
  | step _ ih => exact ih.trans (by rw [depthBound]; omega)

/-- The nesting of items is bounded by what the pass meets in them. -/
theorem exprsNesting_le {items : List Phrase} {bound : Nat → Nat} (hbound : Monotone bound)
    (h : ∀ item ∈ items, item.expr.nesting ≤ bound (item.height 0)) :
    exprsNesting (itemsExprs items) ≤ bound (itemsHeight items) + 1 := by
  induction items with
  | nil => exact Nat.zero_le _
  | cons item items ih =>
    have hitem := h item List.mem_cons_self
    have hitems := ih fun item hm => h item (List.mem_cons_of_mem _ hm)
    simp only [itemsExprs, exprsNesting, itemsHeight]
    have hfirst : bound (item.height 0) ≤
        bound (max (item.height 0) (item.questions + itemsHeight items)) := hbound (le_max_left _ _)
    have hrest : bound (itemsHeight items) ≤
        bound (max (item.height 0) (item.questions + itemsHeight items)) :=
      hbound ((Nat.le_add_left _ _).trans (le_max_right _ _))
    omega

/-- The nesting of entries is bounded by what the pass meets in them. -/
theorem fieldsNesting_le {entries : List (Atom × Option Phrase)} {bound : Nat → Nat}
    (hbound : Monotone bound) (h : ∀ entry ∈ entries, ∀ value ∈ entry.2,
      value.expr.nesting ≤ bound (value.height 0)) :
    fieldsNesting (entriesFields entries) ≤ bound (entriesHeight entries) + 1 := by
  induction entries with
  | nil => exact Nat.zero_le _
  | cons entry entries ih =>
    have hentries := ih fun entry hm => h entry (List.mem_cons_of_mem _ hm)
    have hfirst : bound (entryHeight entry) ≤ bound (entriesHeight (entry :: entries)) :=
      hbound (le_max_left _ _)
    have hrest : bound (entriesHeight entries) ≤ bound (entriesHeight (entry :: entries)) :=
      hbound ((Nat.le_add_left _ _).trans (le_max_right _ _))
    obtain ⟨key, value⟩ := entry
    cases value with
    | none =>
      simp only [entriesFields, entryField, fieldsNesting, Expr.nesting]
      omega
    | some value =>
      have hvalue := h (key, some value) List.mem_cons_self value rfl
      simp only [entriesFields, entryField, fieldsNesting]
      simp only [entryHeight] at hfirst
      omega

/-- An atom does not nest. -/
theorem Atom.nesting_expr (atom : Atom) : atom.expr.nesting = 0 := by
  cases atom with
  | decimal | quoted => rfl
  | named name =>
    simp only [Atom.expr, Grammar.ofName]
    split_ifs <;> rfl

/-! ### Every accepted expression -/

/-- One step into brackets leaves room for the signs in front of them. -/
theorem add_le_depthBound {signs nesting inner height : Nat} (hnesting : nesting ≤ depthBound inner)
    (hinner : inner + 1 ≤ height) (hsigns : signs ≤ height) :
    signs + (nesting + 1) ≤ depthBound height - 1 := by
  cases height with
  | zero => exact absurd hinner (Nat.not_succ_le_zero _)
  | succ height =>
    have hle := depthBound_mono (Nat.le_of_succ_le_succ hinner)
    rw [depthBound]
    omega

/-- The bound leaves room for signs. -/
theorem le_depthBound (height : Nat) : height ≤ depthBound height - 1 := by
  cases height with
  | zero => exact le_rfl
  | succ height =>
    rw [depthBound]
    omega

/-- The nesting of a phrase is bounded by what the pass meets in it: the more tightly it binds, the
more room is left. -/
structure Phrase.NestsWithin (phrase : Phrase) : Prop where
  loose : phrase.expr.nesting ≤ depthBound (phrase.height 0)
  tight : 1 ≤ phrase.rank → phrase.expr.nesting ≤ depthBound (phrase.height 0) - 1
  operand : 7 ≤ phrase.rank → ∀ signs,
    signs + phrase.expr.nesting ≤ depthBound (phrase.height signs) - 1

/-- A bound under signs is a bound without them. -/
theorem Phrase.NestsWithin.of_operand {phrase : Phrase}
    (h : ∀ signs, signs + phrase.expr.nesting ≤ depthBound (phrase.height signs) - 1) :
    phrase.NestsWithin := by
  have h0 := h 0
  exact ⟨by omega, fun _ => by omega, fun _ => h⟩

/-- The nesting in brackets is bounded by what the pass meets between them. -/
theorem Phrase.NestsWithin.of_brackets {phrase : Phrase} {inner : Nat}
    (hnesting : phrase.expr.nesting ≤ depthBound inner + 1)
    (hheight : ∀ signs, phrase.height signs = signs + 1 + inner) : phrase.NestsWithin := by
  refine .of_operand fun signs => ?_
  have hinner : signs + (depthBound inner + 1) ≤ depthBound (signs + 1 + inner) - 1 :=
    add_le_depthBound le_rfl (by omega) (by omega)
  rw [hheight]
  omega

/-- The nesting of an access in brackets is bounded by that of its receiver and by what the pass
meets between the brackets. -/
theorem Phrase.NestsWithin.of_access {receiver access : Phrase} {inner : Nat}
    (hreceiver : receiver.NestsWithin) (hwell : receiver.WellFormed) (hrank : 8 ≤ receiver.rank)
    (hnesting : access.expr.nesting ≤ max receiver.expr.nesting (depthBound inner + 1))
    (hheight : ∀ signs, access.height signs = max (receiver.height signs) (1 + inner)) :
    access.NestsWithin := by
  refine .of_operand fun signs => ?_
  have hoperand := hreceiver.operand (by omega) signs
  have hmono : depthBound (receiver.height signs) ≤
      depthBound (max (receiver.height signs) (1 + inner)) := depthBound_mono (le_max_left _ _)
  have hinner : signs + (depthBound inner + 1) ≤
      depthBound (max (receiver.height signs) (1 + inner)) - 1 :=
    add_le_depthBound le_rfl (by omega) ((hwell.le_height signs).trans (le_max_left _ _))
  rw [hheight]
  omega

/-- The nesting of an operation is bounded by what the pass meets in its operands. -/
theorem Phrase.NestsWithin.operation {op : BinaryOp} {left right : Phrase}
    (hleft : left.NestsWithin) (hright : right.NestsWithin) (hwell : right.WellFormed)
    (hleftRank : op.rank ≤ left.rank) (hrightRank : op.rank < right.rank) :
    (Phrase.operation op left right).NestsWithin := by
  have hop := op.rank_bounds
  have hl := hleft.tight (by omega)
  have hr := hright.tight (by omega)
  have hlmono : depthBound (left.height 0) ≤
      depthBound (max (left.height 0) (right.height (op.signsBehind left.endsWithPoint))) :=
    depthBound_mono (le_max_left _ _)
  have hrmono : depthBound (right.height 0) ≤
      depthBound (max (left.height 0) (right.height (op.signsBehind left.endsWithPoint))) :=
    depthBound_mono ((hwell.height_mono (Nat.zero_le _)).trans (le_max_right _ _))
  have htight : max left.expr.nesting right.expr.nesting ≤ depthBound
      (max (left.height 0) (right.height (op.signsBehind left.endsWithPoint))) - 1 := by
    omega
  exact ⟨htight.trans (Nat.sub_le _ _), fun _ => htight,
    fun h => absurd h (by simp only [Phrase.rank]; omega)⟩

/-- The nesting of a conditional is bounded by what the pass meets in its test and branches. -/
theorem Phrase.NestsWithin.conditional {test yes no : Phrase} (htest : test.NestsWithin)
    (hyes : yes.NestsWithin) (hno : no.NestsWithin) (hrank : 1 ≤ test.rank) :
    (Phrase.conditional test yes no).NestsWithin := by
  have ht := htest.tight hrank
  have hmono : depthBound (test.height 0) ≤
      depthBound ((Phrase.conditional test yes no).height 0) := depthBound_mono (le_max_left _ _)
  have hbranch {branch : Phrase} (hbranch : branch.NestsWithin)
      (hle : branch.height 0 + 1 ≤ (Phrase.conditional test yes no).height 0) :
      branch.expr.nesting + 1 ≤ depthBound ((Phrase.conditional test yes no).height 0) - 1 := by
    have hadd := add_le_depthBound hbranch.loose hle (Nat.zero_le _)
    omega
  have hy := hbranch hyes (by simp only [Phrase.height]; omega)
  have hn := hbranch hno (by simp only [Phrase.height]; omega)
  -- A conditional may take the last step of the bound, since no operator stands over it.
  refine ⟨?_, fun h => absurd h (Nat.not_succ_le_zero 0),
    fun h => absurd h (by simp [Phrase.rank])⟩
  simp only [Phrase.expr, Expr.nesting]
  omega

/-- The nesting of every phrase is bounded. -/
theorem Phrase.WellFormed.nestsWithin {phrase : Phrase} (h : phrase.WellFormed) :
    phrase.NestsWithin := by
  have hmono : Monotone depthBound := fun _ _ => depthBound_mono
  induction h with
  | @atom atom _ =>
    refine .of_operand fun signs => ?_
    simp only [Phrase.expr, atom.nesting_expr, Phrase.height]
    exact le_depthBound signs
  | group _ ih => exact .of_brackets (ih.loose.trans (Nat.le_succ _)) fun _ => rfl
  | array _ ih =>
    exact .of_brackets (exprsNesting_le hmono fun item hitem => (ih item hitem).loose) fun _ => rfl
  | object _ _ ih =>
    exact .of_brackets (fieldsNesting_le hmono fun entry hentry value hvalue =>
      (ih entry hentry value hvalue).loose) fun _ => rfl
  | @sign op operand _ hrank ih =>
    refine .of_operand fun signs => ?_
    have hoperand := ih.operand hrank (signs + 1)
    simp only [Phrase.expr, Expr.nesting, Phrase.height]
    omega
  | operation _ hwell hleft hright ihleft ihright =>
    exact ihleft.operation ihright hwell hleft hright
  | conditional _ _ _ hrank ihtest ihyes ihno => exact ihtest.conditional ihyes ihno hrank
  | member _ hrank _ ih => exact .of_operand (ih.operand (by omega))
  | index hwell _ hrank ihreceiver ihplace =>
    exact ihreceiver.of_access hwell hrank
      (max_le_max le_rfl (Nat.succ_le_succ ihplace.loose)) fun _ => rfl
  | call hwell _ hrank ihcallee iharguments =>
    exact ihcallee.of_access hwell hrank (max_le_max le_rfl (exprsNesting_le hmono
      fun item hitem => (iharguments item hitem).loose)) fun _ => rfl

/-! ### Regular expressions -/

/-- The signs in front of a phrase are met together with all of its nesting, unless an access in
brackets takes them back before. -/
theorem Phrase.WellFormed.height_eq_add {phrase : Phrase} (h : phrase.WellFormed)
    (hrank : 7 ≤ phrase.rank) (hbracketed : phrase.expr.isBracketed = false) (signs : Nat) :
    phrase.height signs = signs + phrase.height 0 := by
  induction h generalizing signs with
  | atom => rfl
  | group | array | object => simp only [Phrase.height]; omega
  | sign _ hoperand ih =>
    have hmore := ih hoperand hbracketed (signs + 1)
    have hone := ih hoperand hbracketed 1
    simp only [Phrase.height, Nat.zero_add]
    omega
  | @operation op =>
    have hop := op.rank_bounds
    exact absurd hrank (by simp only [Phrase.rank]; omega)
  | conditional => exact absurd hrank (by simp [Phrase.rank])
  | member _ hrank _ ih => exact ih (by omega) hbracketed signs
  | index | call => exact absurd hbracketed (by simp [Phrase.expr, Expr.isBracketed])

/-- All of some expressions are regular when each is. -/
theorem exprsRegular_iff (items : List Phrase) :
    exprsRegular (itemsExprs items) ↔ ∀ item ∈ items, item.expr.isRegular := by
  induction items with
  | nil => simp [itemsExprs, exprsRegular]
  | cons item items ih =>
    rw [List.forall_mem_cons, ← ih, itemsExprs, exprsRegular, Bool.and_eq_true]

/-- The values of an object are regular when each is. -/
theorem regular_of_fieldsRegular {entries : List (Atom × Option Phrase)}
    (h : fieldsRegular (entriesFields entries)) :
    ∀ entry ∈ entries, ∀ value ∈ entry.2, value.expr.isRegular := by
  induction entries with
  | nil => simp
  | cons entry entries ih =>
    obtain ⟨key, value⟩ := entry
    cases value with
    | none =>
      simp only [entriesFields, entryField, fieldsRegular, Bool.and_eq_true] at h
      exact List.forall_mem_cons.mpr ⟨by simp, ih h.2⟩
    | some value =>
      simp only [entriesFields, entryField, fieldsRegular, Bool.and_eq_true] at h
      exact List.forall_mem_cons.mpr ⟨by simpa using h.1, ih h.2⟩

/-- The nesting of a regular expression is met by the pass. -/
theorem Phrase.WellFormed.nesting_le_height {phrase : Phrase} (h : phrase.WellFormed)
    (hregular : phrase.expr.isRegular) : phrase.expr.nesting ≤ phrase.height 0 := by
  induction h with
  | @atom atom _ => exact (Nat.le_of_eq atom.nesting_expr)
  | @group inner _ ih => exact (ih hregular).trans (Nat.le_add_left _ _)
  | @array items comma _ ih =>
    have hitems := exprsNesting_le monotone_id fun item hitem =>
      ih item hitem ((exprsRegular_iff items).mp hregular item hitem)
    simp only [Phrase.expr, Expr.nesting, Phrase.height, id] at hitems ⊢
    omega
  | @object entries comma _ _ ih =>
    have hentries := fieldsNesting_le monotone_id fun entry hentry value hvalue =>
      ih entry hentry value hvalue (regular_of_fieldsRegular hregular entry hentry value hvalue)
    simp only [Phrase.expr, Expr.nesting, Phrase.height, id] at hentries ⊢
    omega
  | @sign op operand hoperand hrank ih =>
    simp only [Phrase.expr, Expr.isRegular, Bool.and_eq_true, Bool.not_eq_true'] at hregular
    have hinner := ih hregular.2
    simp only [Phrase.expr, Expr.nesting, Phrase.height, Nat.zero_add]
    rw [hoperand.height_eq_add hrank hregular.1]
    omega
  | @operation op left right _ hright _ _ ihleft ihright =>
    simp only [Phrase.expr, Expr.isRegular, Bool.and_eq_true] at hregular
    exact max_le_max (ihleft hregular.1)
      ((ihright hregular.2).trans (hright.height_mono (Nat.zero_le _)))
  | @conditional test yes no _ _ _ _ ihtest ihyes ihno =>
    simp only [Phrase.expr, Expr.isRegular, Bool.and_eq_true, decide_eq_true_eq] at hregular
    have hyes := ihyes hregular.1.2
    have hno := ihno hregular.2
    -- The pass meets the test before the question mark, so the branches must reach as deep.
    have htest := hregular.1.1.1
    simp only [Phrase.expr, Expr.nesting, Phrase.height]
    omega
  | member _ _ _ ih => exact ih hregular
  | @index receiver place _ _ _ ihreceiver ihplace =>
    simp only [Phrase.expr, Expr.isRegular, Bool.and_eq_true] at hregular
    have hreceiver := ihreceiver hregular.1
    have hplace := ihplace hregular.2
    simp only [Phrase.expr, Expr.nesting, Phrase.height]
    omega
  | @call callee arguments comma _ _ _ ihcallee iharguments =>
    simp only [Phrase.expr, Expr.isRegular, Bool.and_eq_true] at hregular
    have hcallee := ihcallee hregular.1
    have harguments := exprsNesting_le monotone_id fun item hitem =>
      iharguments item hitem ((exprsRegular_iff arguments).mp hregular.2 item hitem)
    simp only [Phrase.expr, Expr.nesting, Phrase.height, id] at harguments ⊢
    omega

/-- An accepted expression nests at most so deep as the limit allows when it is regular, and
otherwise within a bound that grows with the square of the limit. -/
theorem nesting_le_of_parse {source : String} {expr : Expr} (h : parse source = .ok expr) :
    (expr.isRegular → expr.nesting ≤ maxNesting) ∧
      expr.nesting ≤ maxNesting * (maxNesting + 5) / 2 := by
  obtain ⟨phrase, hphrase, hheight, -⟩ := exists_phrase_of_parse h
  have hwell := hphrase.wellFormed
  rw [← hphrase.expr_eq, ← depthBound_eq]
  exact ⟨fun hregular => (hwell.nesting_le_height hregular).trans hheight,
    hwell.nestsWithin.loose.trans (depthBound_mono hheight)⟩

/-- The signs, the conditional and the brackets of a regular expression are bounded together. -/
theorem nesting_list_under_sign : ∃ expr, parse "-[!a, b ? c : d.e[0]]" = .ok expr ∧
    expr.isRegular ∧ expr.nesting = 4 ∧ expr.nesting ≤ maxNesting := by
  have hread : (parse "-[!a, b ? c : d.e[0]]").toOption.map
      (fun expr => (expr.isRegular, expr.nesting)) = some (true, 4) := by decide +kernel
  obtain ⟨expr, hparse, hexpr⟩ := exists_of_parse hread
  obtain ⟨hregular, hnesting⟩ := Prod.mk.inj hexpr
  exact ⟨expr, hparse, hregular, hnesting, (nesting_le_of_parse hparse).1 hregular⟩

/-- A sign in front of an access is forgotten before its bracket: seventeen of them in each other
are accepted, and nest deeper than the limit. -/
theorem maxNesting_lt_nesting_signed_accesses : ∃ expr,
    parse "-a[-a[-a[-a[-a[-a[-a[-a[-a[-a[-a[-a[-a[-a[-a[-a[-a[a]]]]]]]]]]]]]]]]]" = .ok expr ∧
      maxNesting < expr.nesting := by
  have hread :
      (parse "-a[-a[-a[-a[-a[-a[-a[-a[-a[-a[-a[-a[-a[-a[-a[-a[-a[a]]]]]]]]]]]]]]]]]").toOption.map
        Expr.nesting = some 34 := by decide +kernel
  obtain ⟨expr, hparse, hnesting⟩ := exists_of_parse hread
  exact ⟨expr, hparse, by rw [hnesting]; decide⟩

end DirectiveMarkup.Expression
