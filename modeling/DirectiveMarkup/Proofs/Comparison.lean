import DirectiveMarkup.Expression.Evaluate
import DirectiveMarkup.Proofs.WholeNumbers

/-!
# Comparing values

Strict equality, loose equality and the order are three functions, and each has its own way with the
kinds of two values. What is shown is that they fit together. Strict equality is equality once zeros
have no signs and a number that is not inside something else is kept as a double, so it is an
equivalence. Loose equality is strict, except that two primitive values that are not both strings are
compared by the numbers they stand for. The order compares strings by code point and all else by those
numbers, so primitive values that are neither above nor below each other are loosely equal.

The numbers of a value are taken to be finite, as all stored numbers are. Something that is not a
number is not equal to itself.
-/

namespace DirectiveMarkup

namespace Binary64

/-- The double without the sign of zero. -/
def unsignedZero : Binary64 → Binary64
  | finite negative quanta => finite (negative && quanta != 0) quanta
  | other => other

/-- Counts of quanta with their signs are the same when the counts are, and the signs unless the counts
are zero. -/
theorem signedQuanta_eq_iff {s t : Bool} {a b : Nat} :
    signedQuanta s a = signedQuanta t b ↔ (s && a != 0) = (t && b != 0) ∧ a = b := by
  cases s <;> cases t <;> grind [signedQuanta]

/-- Finite numbers are equal when they are the same apart from the sign of zero. -/
theorem equals_iff_unsignedZero {a b : Binary64} (ha : a.isFinite) (hb : b.isFinite) :
    a.equals b ↔ a.unsignedZero = b.unsignedZero := by
  cases a with
  | finite s m =>
    cases b with
    | finite t n =>
      rw [equals_iff, unsignedZero, unsignedZero, finite.injEq, ← signedQuanta_eq_iff]
      simp [rank?, eq_comm]
    | infinite | nan => exact absurd hb Bool.false_ne_true
  | infinite | nan => exact absurd ha Bool.false_ne_true

/-- Exchanging two numbers turns their order round. -/
theorem compare?_swap (a b : Binary64) : b.compare? a = (a.compare? b).map Ordering.swap := by
  unfold compare?
  cases a.rank? with
  | none => cases b.rank? <;> rfl
  | some x =>
    cases b.rank? with
    | none => rfl
    | some y => exact congrArg some Std.OrientedOrd.eq_swap

end Binary64

namespace Expression

/-! ## Strict equality -/

/-- The number without the sign of zero. -/
def Numeral.unsignedZero : Numeral → Numeral
  | integer i => integer i
  | double x => double x.unsignedZero

namespace Value

mutual

/-- All numbers of a value are finite. -/
def AllFinite : Value → Prop
  | number n => n.toBinary64.isFinite
  | array items => ItemsFinite items
  | object fields => FieldsFinite fields
  | null | bool _ | string _ => True

/-- All numbers of the items of an array are finite. -/
def ItemsFinite : List Value → Prop
  | [] => True
  | item :: rest => AllFinite item ∧ ItemsFinite rest

/-- All numbers of the fields of an object are finite. -/
def FieldsFinite : List (String × Value) → Prop
  | [] => True
  | (_, value) :: rest => AllFinite value ∧ FieldsFinite rest

end

mutual

/-- A value without the signs of its zeros. -/
def unsignedZeros : Value → Value
  | number n => number n.unsignedZero
  | array items => array (unsignedItems items)
  | object fields => object (unsignedFields fields)
  | null => null
  | bool b => bool b
  | string s => string s

/-- The items of an array without the signs of their zeros. -/
def unsignedItems : List Value → List Value
  | [] => []
  | item :: rest => unsignedZeros item :: unsignedItems rest

/-- The fields of an object without the signs of their zeros. -/
def unsignedFields : List (String × Value) → List (String × Value)
  | [] => []
  | (name, value) :: rest => (name, unsignedZeros value) :: unsignedFields rest

end

/-- Stored numbers are the same item when they are kept alike and differ at most in the sign of zero. -/
theorem sameNumeral_iff {a b : Numeral} (ha : a.toBinary64.isFinite) (hb : b.toBinary64.isFinite) :
    sameNumeral a b ↔ a.unsignedZero = b.unsignedZero := by
  cases a with
  | integer i => cases b <;> simp [sameNumeral, Numeral.unsignedZero]
  | double x =>
    cases b with
    | integer j => simp [sameNumeral, Numeral.unsignedZero]
    | double y =>
      rw [sameNumeral, Numeral.unsignedZero, Numeral.unsignedZero, Numeral.double.injEq]
      exact Binary64.equals_iff_unsignedZero ha hb

mutual

/-- Values are the same when they differ at most in the signs of zeros. -/
theorem same_iff {a b : Value} (ha : a.AllFinite) (hb : b.AllFinite) :
    same a b ↔ a.unsignedZeros = b.unsignedZeros := by
  match a, b with
  | number m, number n =>
    rw [AllFinite] at ha hb
    simpa [same, unsignedZeros] using sameNumeral_iff ha hb
  | array as, array bs =>
    rw [AllFinite] at ha hb
    simpa [same, unsignedZeros] using sameItems_iff ha hb
  | object as, object bs =>
    rw [AllFinite] at ha hb
    simpa [same, unsignedZeros] using sameFields_iff ha hb
  -- All else is of two kinds, or has nothing inside.
  | null, b | bool _, b | string _, b => cases b <;> simp [same, unsignedZeros]
  | number _, null | number _, bool _ | number _, string _ | number _, array _ | number _, object _
  | array _, null | array _, bool _ | array _, string _ | array _, number _ | array _, object _
  | object _, null | object _, bool _ | object _, string _ | object _, number _
  | object _, array _ => simp [same, unsignedZeros]

/-- Items are the same when they differ at most in the signs of zeros. -/
theorem sameItems_iff {as bs : List Value} (ha : ItemsFinite as) (hb : ItemsFinite bs) :
    sameItems as bs ↔ unsignedItems as = unsignedItems bs := by
  match as, bs with
  | [], bs => cases bs <;> simp [sameItems, unsignedItems]
  | a :: as, [] => simp [sameItems, unsignedItems]
  | a :: as, b :: bs =>
    rw [ItemsFinite] at ha hb
    rw [sameItems, Bool.and_eq_true, same_iff ha.1 hb.1, sameItems_iff ha.2 hb.2]
    simp [unsignedItems]

/-- Fields are the same when they differ at most in the signs of zeros. -/
theorem sameFields_iff {as bs : List (String × Value)} (ha : FieldsFinite as)
    (hb : FieldsFinite bs) : sameFields as bs ↔ unsignedFields as = unsignedFields bs := by
  match as, bs with
  | [], bs => cases bs <;> simp [sameFields, unsignedFields]
  | (m, a) :: as, [] => simp [sameFields, unsignedFields]
  | (m, a) :: as, (n, b) :: bs =>
    rw [FieldsFinite] at ha hb
    rw [sameFields, Bool.and_eq_true, Bool.and_eq_true, same_iff ha.1 hb.1,
      sameFields_iff ha.2 hb.2]
    simp [unsignedFields]

end

/-- A value in which a number at the top is kept as a double. -/
def asDouble : Value → Value
  | number n => number (.double n.toBinary64)
  | value => value

/-- Strict equality is sameness once a number at the top is kept as a double. -/
theorem strictEquals_eq_same (a b : Value) : a.strictEquals b = same a.asDouble b.asDouble := by
  cases a <;> cases b <;> rfl

/-- A number that is kept as a double is as finite as it was. -/
theorem AllFinite.asDouble {a : Value} (ha : a.AllFinite) : a.asDouble.AllFinite := by
  cases a with
  | number n => rwa [Value.asDouble, AllFinite] at *
  | null | bool | string | array | object => exact ha

/-- Strict equality is equality once a number at the top is kept as a double and zeros have no signs. -/
theorem strictEquals_iff {a b : Value} (ha : a.AllFinite) (hb : b.AllFinite) :
    a.strictEquals b ↔ a.asDouble.unsignedZeros = b.asDouble.unsignedZeros := by
  rw [strictEquals_eq_same]
  exact same_iff ha.asDouble hb.asDouble

/-! ## Loose equality -/

/-- The primitive values: truth values, numbers and strings. -/
def IsPrimitive (a : Value) : Prop :=
  a.kind = .boolean ∨ a.kind = .number ∨ a.kind = .string

instance (a : Value) : Decidable a.IsPrimitive :=
  inferInstanceAs (Decidable (_ ∨ _))

/-- Two primitive values that are not both strings are compared by the numbers they stand for. -/
def ComparedAsNumbers (a b : Value) : Prop :=
  a.IsPrimitive ∧ b.IsPrimitive ∧ ¬ (a.kind = .string ∧ b.kind = .string)

instance (a b : Value) : Decidable (a.ComparedAsNumbers b) :=
  inferInstanceAs (Decidable (_ ∧ _))

/-- Loose equality compares numbers where it can, and is strict otherwise. -/
theorem looseEquals_eq (a b : Value) :
    a.looseEquals b = if a.ComparedAsNumbers b then a.numericallyEqual b else a.strictEquals b := by
  cases a <;> cases b <;> rfl

/-- The order of the numbers that two values stand for. -/
def numericOrder? (a b : Value) : Option Ordering :=
  a.toBinary64?.bind fun x => b.toBinary64?.bind fun y => x.compare? y

/-- Values are numerically equal when their numbers are neither above nor below each other. -/
theorem numericallyEqual_eq (a b : Value) : a.numericallyEqual b = (a.numericOrder? b == some .eq) := by
  unfold numericallyEqual numericOrder?
  cases a.toBinary64? <;> cases b.toBinary64? <;> rfl

/-- Exchanging two values turns the order of their numbers round. -/
theorem numericOrder?_swap (a b : Value) :
    b.numericOrder? a = (a.numericOrder? b).map Ordering.swap := by
  unfold numericOrder?
  cases a.toBinary64? with
  | none => cases b.toBinary64? <;> rfl
  | some x =>
    cases b.toBinary64? with
    | none => rfl
    | some y => exact Binary64.compare?_swap x y

/-- Numerical equality is symmetric. -/
theorem numericallyEqual_comm (a b : Value) : a.numericallyEqual b = b.numericallyEqual a := by
  rw [numericallyEqual_eq, numericallyEqual_eq, numericOrder?_swap]
  rcases b.numericOrder? a with _ | _ | _ | _ <;> rfl

/-- A value that stands for a finite number is numerically equal to itself. -/
theorem numericallyEqual_self {a : Value} {x : Binary64} (h : a.toBinary64? = some x)
    (hx : x.isFinite) : a.numericallyEqual a := by
  rw [numericallyEqual, h]
  exact Binary64.equals_self_of_isFinite hx

/-- A truth value is numerically equal to itself. -/
theorem numericallyEqual_bool (b : Bool) : (bool b).numericallyEqual (bool b) := by
  refine numericallyEqual_self rfl ?_
  rw [Binary64.ofNat, Binary64.ofInt_of_lt (by cases b <;> decide)]
  rfl

/-- Values of different kinds are not strictly equal. -/
theorem kind_eq_of_strictEquals {a b : Value} (h : a.strictEquals b) : a.kind = b.kind := by
  revert h
  cases a <;> cases b <;> simp [strictEquals, same, kind]

/-- What is strictly equal is loosely equal. -/
theorem looseEquals_of_strictEquals {a b : Value} (h : a.strictEquals b) : a.looseEquals b := by
  have hkind := kind_eq_of_strictEquals h
  rw [looseEquals_eq]
  split_ifs with hcompared
  · -- Numbers are compared as doubles by both, and strings are not compared as numbers.
    obtain ⟨hprimitive, -, hstrings⟩ := hcompared
    match a, b, hprimitive with
    | number m, number n, _ => exact h
    | bool p, bool q, _ =>
      have hpq : p = q := by simpa [strictEquals, same] using h
      rw [hpq]
      exact numericallyEqual_bool q
    | string s, b, _ => exact absurd ⟨rfl, hkind.symm⟩ hstrings
  · exact h

/-- Every value is loosely equal to itself. -/
theorem looseEquals_self {a : Value} (ha : a.AllFinite) : a.looseEquals a :=
  looseEquals_of_strictEquals ((strictEquals_iff ha ha).mpr rfl)

/-- Loose equality is symmetric. -/
theorem looseEquals_symm {a b : Value} (ha : a.AllFinite) (hb : b.AllFinite) (h : a.looseEquals b) :
    b.looseEquals a := by
  rw [looseEquals_eq] at h ⊢
  -- Which of the two ways is taken does not depend on the order of the sides.
  by_cases hcompared : a.ComparedAsNumbers b
  · rw [if_pos hcompared] at h
    rwa [if_pos ⟨hcompared.2.1, hcompared.1, fun hs => hcompared.2.2 hs.symm⟩,
      numericallyEqual_comm]
  · rw [if_neg hcompared] at h
    rw [if_neg fun hc => hcompared ⟨hc.2.1, hc.1, fun hs => hc.2.2 hs.symm⟩]
    exact (strictEquals_iff hb ha).mpr ((strictEquals_iff ha hb).mp h).symm

/-! ## Orders -/

/-- Two strings are compared by code point, and all else by numbers. -/
theorem compare?_eq (a b : Value) (h : ¬ (a.kind = .string ∧ b.kind = .string)) :
    a.compare? b = a.numericOrder? b := by
  unfold compare? numericOrder?
  split
  · exact absurd ⟨rfl, rfl⟩ h
  · cases a.toBinary64? <;> cases b.toBinary64? <;> rfl

/-- A value of the kind of strings is a string. -/
theorem exists_string {a : Value} (h : a.kind = .string) : ∃ s, a = string s := by
  cases a with
  | string s => exact ⟨s, rfl⟩
  | _ => exact nomatch h

/-- Exchanging two values turns their order round. -/
theorem compare?_swap (a b : Value) : b.compare? a = (a.compare? b).map Ordering.swap := by
  by_cases hstrings : a.kind = .string ∧ b.kind = .string
  · obtain ⟨s, rfl⟩ := exists_string hstrings.1
    obtain ⟨t, rfl⟩ := exists_string hstrings.2
    exact congrArg some Std.OrientedOrd.eq_swap
  · rw [compare?_eq a b hstrings, compare?_eq b a fun h => hstrings h.symm, numericOrder?_swap]

/-- Two primitive values are loosely equal when they are neither above nor below each other. -/
theorem looseEquals_iff_compare? {a b : Value} (ha : a.IsPrimitive) (hb : b.IsPrimitive) :
    a.looseEquals b ↔ a.compare? b = some .eq := by
  rw [looseEquals_eq]
  by_cases hstrings : a.kind = .string ∧ b.kind = .string
  · rw [if_neg fun hcompared => hcompared.2.2 hstrings]
    obtain ⟨s, rfl⟩ := exists_string hstrings.1
    obtain ⟨t, rfl⟩ := exists_string hstrings.2
    simp [strictEquals, same, compare?]
  · rw [if_pos ⟨ha, hb, hstrings⟩, numericallyEqual_eq, compare?_eq a b hstrings, beq_iff_eq]

end Value

/-- True when an operator between two values gives true. -/
def GivesTrue (op : BinaryOp) (a b : Value) : Prop :=
  applyBinary op a b = .ok (.bool true)

section Orders

variable {a b : Value}

/-- Something is less when it is below. -/
theorem givesTrue_lt_iff : GivesTrue .lt a b ↔ a.compare? b = some .lt := by
  rw [GivesTrue, applyBinary, comparison]
  rcases a.compare? b with _ | _ | _ | _ <;> simp

/-- Something is greater when it is above. -/
theorem givesTrue_gt_iff : GivesTrue .gt a b ↔ a.compare? b = some .gt := by
  rw [GivesTrue, applyBinary, comparison]
  rcases a.compare? b with _ | _ | _ | _ <;> simp

/-- Something is at most another when it is below it or neither below nor above. -/
theorem givesTrue_le_iff :
    GivesTrue .le a b ↔ a.compare? b = some .lt ∨ a.compare? b = some .eq := by
  rw [GivesTrue, applyBinary, comparison]
  rcases a.compare? b with _ | _ | _ | _ <;> simp

/-- Something is at least another when it is above it or neither below nor above. -/
theorem givesTrue_ge_iff :
    GivesTrue .ge a b ↔ a.compare? b = some .gt ∨ a.compare? b = some .eq := by
  rw [GivesTrue, applyBinary, comparison]
  rcases a.compare? b with _ | _ | _ | _ <;> simp

/-- Two values are turned round in their order. -/
theorem compare?_eq_some_iff_swap {order : Ordering} :
    b.compare? a = some order ↔ a.compare? b = some order.swap := by
  rw [Value.compare?_swap a b]
  rcases a.compare? b with _ | _ | _ | _ <;> cases order <;> simp

/-- Values are at most each other when they are neither below nor above each other. -/
theorem givesTrue_le_and_le_iff :
    GivesTrue .le a b ∧ GivesTrue .le b a ↔ a.compare? b = some .eq := by
  rw [givesTrue_le_iff, givesTrue_le_iff, @compare?_eq_some_iff_swap a b,
    @compare?_eq_some_iff_swap a b]
  rcases a.compare? b with _ | _ | _ | _ <;> simp

end Orders

/-- Equality and order of values are coherent. Strict equality is an equivalence and a part of loose
equality, which is reflexive and symmetric. The orders are turned round by exchanging their sides, `<`
is asymmetric, `<=` is `<` or `<=` both ways, and primitive values are loosely equal when they are at
most each other. -/
theorem comparisons_coherent {a b c : Value} (ha : a.AllFinite) (hb : b.AllFinite)
    (hc : c.AllFinite) :
    (a.strictEquals a ∧ (a.strictEquals b → b.strictEquals a) ∧
        (a.strictEquals b → b.strictEquals c → a.strictEquals c)) ∧
      (a.strictEquals b → a.looseEquals b) ∧
      (a.looseEquals a ∧ (a.looseEquals b → b.looseEquals a)) ∧
      ((GivesTrue .lt a b ↔ GivesTrue .gt b a) ∧ (GivesTrue .le a b ↔ GivesTrue .ge b a)) ∧
      ¬ (GivesTrue .lt a b ∧ GivesTrue .lt b a) ∧
      (GivesTrue .le a b ↔ GivesTrue .lt a b ∨ GivesTrue .le a b ∧ GivesTrue .le b a) ∧
      (a.IsPrimitive → b.IsPrimitive → (GivesTrue .le a b ∧ GivesTrue .le b a ↔ a.looseEquals b)) := by
  refine ⟨⟨?_, ?_, ?_⟩, Value.looseEquals_of_strictEquals,
    ⟨Value.looseEquals_self ha, Value.looseEquals_symm ha hb⟩, ⟨?_, ?_⟩, ?_, ?_, ?_⟩
  · exact (Value.strictEquals_iff ha ha).mpr rfl
  · rw [Value.strictEquals_iff ha hb, Value.strictEquals_iff hb ha]
    exact Eq.symm
  · rw [Value.strictEquals_iff ha hb, Value.strictEquals_iff hb hc, Value.strictEquals_iff ha hc]
    exact Eq.trans
  · rw [givesTrue_lt_iff, givesTrue_gt_iff, compare?_eq_some_iff_swap (a := a)]
    rfl
  · rw [givesTrue_le_iff, givesTrue_ge_iff, compare?_eq_some_iff_swap (a := a),
      compare?_eq_some_iff_swap (a := a)]
    rfl
  · rw [givesTrue_lt_iff, givesTrue_lt_iff, compare?_eq_some_iff_swap (a := a)]
    rintro ⟨hless, hgreater⟩
    exact nomatch hless.symm.trans hgreater
  · rw [givesTrue_le_and_le_iff, givesTrue_le_iff, givesTrue_lt_iff]
  · intro hprimitive hprimitive'
    rw [givesTrue_le_and_le_iff, Value.looseEquals_iff_compare? hprimitive hprimitive']

/-- The two zeros are the same item of an array, and the text of a zero is at most zero and no less. -/
theorem comparisons_coherent_zeros :
    let zero : Value := .number (.double (.finite false 0))
    let minusZero : Value := .number (.double (.finite true 0))
    let text : Value := .string "0"
    (zero.AllFinite ∧ minusZero.AllFinite ∧ text.AllFinite ∧ zero.IsPrimitive ∧ text.IsPrimitive) ∧
      (Value.array [minusZero]).strictEquals (.array [zero]) ∧
      (Value.array [minusZero]).looseEquals (.array [zero]) ∧
      zero.looseEquals text ∧ GivesTrue .le zero text ∧ GivesTrue .le text zero := by
  intro zero minusZero text
  have hzero : zero.AllFinite := rfl
  have hminus : minusZero.AllFinite := rfl
  have harray : (Value.array [zero]).AllFinite := ⟨rfl, trivial⟩
  have harray' : (Value.array [minusZero]).AllFinite := ⟨rfl, trivial⟩
  have hstrict : (Value.array [minusZero]).strictEquals (.array [zero]) := rfl
  have hloose : zero.looseEquals text := by decide +kernel
  have htext : text.AllFinite := trivial
  have hzeros := comparisons_coherent harray' harray harray
  obtain ⟨-, -, -, -, -, -, hmost⟩ := comparisons_coherent hzero htext htext
  refine ⟨⟨hzero, hminus, htext, ?_, ?_⟩, hstrict, hzeros.2.1 hstrict, hloose, ?_⟩
  · exact .inr (.inl rfl)
  · exact .inr (.inr rfl)
  · exact (hmost (.inr (.inl rfl)) (.inr (.inr rfl))).mpr hloose

end Expression

end DirectiveMarkup
