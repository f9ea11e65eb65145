import DirectiveMarkup.Expression.Value
import Mathlib.Algebra.Group.Nat.Defs
import Mathlib.Data.List.TakeWhile

/-!
# Whole numbers as doubles

A whole number below `2^53` is a multiple of the spacing of the doubles around it, so it is not
rounded. Its decimal digits are read back as that number, sums of such numbers are exact as long as
they stay in that range, and a value that is computed from one is the integer. Rounding never passes
such a number either: what lies below it is rounded to something that does not lie above it.
-/

namespace DirectiveMarkup

namespace Binary64

/-- A whole number of at most 53 bits is a multiple of the spacing around it. -/
theorem mul_pow_eq_mul_spacing {n k : Nat} (hn : n ≠ 0) (hbound : n < 2 ^ 53) (hk : 52 ≤ k) :
    n * 2 ^ k = n * 2 ^ (52 - n.log2) * spacing (n * 2 ^ k) := by
  have hpow := Nat.two_pow_pos k
  have hbits : n.log2 < 53 := (Nat.log2_lt hn).mpr hbound
  have hlog : (n * 2 ^ k).log2 = n.log2 + k := by
    have hlow := Nat.log2_self_le hn
    have hhigh : n < 2 ^ (n.log2 + 1) := Nat.lt_log2_self
    refine (Nat.log2_eq_iff (Nat.mul_ne_zero hn (Nat.ne_of_gt hpow))).mpr ⟨?_, ?_⟩
    · rw [Nat.pow_add]
      exact Nat.mul_le_mul_right _ hlow
    · rw [Nat.add_right_comm, Nat.pow_add]
      exact Nat.mul_lt_mul_of_pos_right hhigh hpow
  have hexponent : 52 - n.log2 + (n.log2 + k - 52) = k := by omega
  have hspacing : spacing (n * 2 ^ k) = 2 ^ (n.log2 + k - 52) := by rw [spacing, hlog, Nat.pow_eq]
  rw [hspacing, Nat.mul_assoc, ← Nat.pow_add, hexponent]

/-- A whole number of at most 53 bits is not rounded to the doubles around it. -/
theorem nearestQuotient_mul_spacing {n k : Nat} (hn : n ≠ 0) (hbound : n < 2 ^ 53) (hk : 52 ≤ k) :
    nearestQuotient (n * 2 ^ k) (spacing (n * 2 ^ k)) * spacing (n * 2 ^ k) = n * 2 ^ k := by
  have hmul := mul_pow_eq_mul_spacing hn hbound hk
  have hpos : 0 < spacing (n * 2 ^ k) := Nat.two_pow_pos _
  generalize spacing (n * 2 ^ k) = step at hmul hpos
  rw [hmul, nearestQuotient_mul hpos]

/-- One is a power of two of quanta; its exponent is put out of sight, so that it is never
computed. -/
theorem quantaPerOne_eq : ∃ k, (52 ≤ k ∧ k ≤ 1074) ∧ quantaPerOne = 2 ^ k := by
  refine ⟨1074, by decide, ?_⟩
  unfold quantaPerOne
  generalize 1074 = k
  exact Nat.pow_eq

/-- One has some quanta. -/
theorem quantaPerOne_pos : 0 < quantaPerOne := by
  obtain ⟨k, -, hquanta⟩ := quantaPerOne_eq
  exact hquanta ▸ Nat.two_pow_pos k

/-- A whole number of at most 53 bits is finite as a double. -/
theorem mul_quantaPerOne_lt {n : Nat} (hbound : n < 2 ^ 53) : n * quantaPerOne < quantaLimit := by
  obtain ⟨k, hk, hquanta⟩ := quantaPerOne_eq
  obtain ⟨m, hm, hlimit⟩ : ∃ m, 2098 ≤ m ∧ quantaLimit = 2 ^ m := by
    refine ⟨2098, le_rfl, ?_⟩
    unfold quantaLimit
    generalize 2098 = m
    exact Nat.pow_eq
  rw [hquanta, hlimit]
  calc n * 2 ^ k < 2 ^ 53 * 2 ^ k := Nat.mul_lt_mul_of_pos_right hbound (Nat.two_pow_pos k)
    _ = 2 ^ (53 + k) := (Nat.pow_add 2 53 k).symm
    _ ≤ 2 ^ m := Nat.pow_le_pow_right (by decide) (by omega)

/-- A whole number of at most 53 bits is not rounded. -/
theorem ofQuotient_whole (negative : Bool) {n : Nat} (hbound : n < 2 ^ 53) :
    ofQuotient negative (n * quantaPerOne) 1 = finite negative (n * quantaPerOne) := by
  have hless := mul_quantaPerOne_lt hbound
  by_cases hn : n = 0
  · subst hn
    rw [Nat.zero_mul] at hless ⊢
    simp [ofQuotient, nearestQuotient, hless]
  · obtain ⟨k, hk, hquanta⟩ := quantaPerOne_eq
    have hnearest := nearestQuotient_mul_spacing hn hbound hk.1
    rw [← hquanta] at hnearest
    simp [ofQuotient, hnearest, hless]

/-! ## Numerals -/

/-- A whole number of at most 53 bits is read as it is. -/
theorem ofDecimal_whole {n : Nat} (hbound : n < 2 ^ 53) :
    ofDecimal false n 0 = finite false (n * quantaPerOne) := by
  by_cases hn : n = 0
  · simp [ofDecimal, hn]
  have hlog : ¬((0 : Int) + (n.log2 : Int) < -1400) := by omega
  simp only [ofDecimal, hn, hlog, ↓reduceIte]
  simpa using ofQuotient_whole false hbound

/-- The digits of a number are read back as the number. -/
theorem digitsValue_toDigits (n : Nat) : digitsValue (Nat.toDigits 10 n) = n :=
  Nat.ofDigitChars_ten_toDigits

/-- The digits of a whole number of at most 53 bits are read as that number. -/
theorem ofNumeral?_toDigits {n : Nat} (hbound : n < 2 ^ 53) :
    ofNumeral? (Nat.toDigits 10 n) = some (finite false (n * quantaPerOne)) := by
  have hdigits : ∀ c ∈ Nat.toDigits 10 n, c.isDigit := fun c hc =>
    Nat.isDigit_of_mem_toDigits (by decide) (by decide) hc
  have hlength : (Nat.toDigits 10 n).length ≤ keptDigits := by
    have hshort : (Nat.toDigits 10 n).length ≤ 16 :=
      (Nat.length_toDigits_le_iff (by decide) (by decide)).mpr (Nat.lt_trans hbound (by decide))
    exact Nat.le_trans hshort (by decide)
  have hsignificand := significand_of_length_le hlength
  rw [digitsValue_toDigits] at hsignificand
  obtain ⟨c, rest, htext⟩ := List.exists_cons_of_ne_nil (Nat.toDigits_ne_nil (n := n) (b := 10))
  have hc : c.isDigit := hdigits c (htext ▸ List.mem_cons_self)
  have hsign {sign : Char} (hsign : sign.isDigit = false) (text : List Char) :
      Nat.toDigits 10 n = sign :: text → False := by
    rintro h
    rw [(List.cons.inj (htext.symm.trans h)).1, hsign] at hc
    exact absurd hc (by decide)
  have hexponent : readExponent [] = some 0 := rfl
  have htake := List.takeWhile_eq_self_iff.mpr hdigits
  have hdrop := List.dropWhile_eq_nil_iff.mpr hdigits
  have hne : (Nat.toDigits 10 n).isEmpty = false := by rw [htext, List.isEmpty_cons]
  rw [ofNumeral?.eq_3 _ (hsign (by decide)) (hsign (by decide))]
  simp [readUnsigned, htake, hdrop, hne, hsignificand, hexponent, ofDecimal_whole hbound]

/-! ## Integers -/

section Integers

variable {i j : Int}

/-- An integer of at most 53 bits is not rounded. -/
theorem ofInt_of_lt (hi : i.natAbs < 2 ^ 53) :
    ofInt i = finite (i < 0) (i.natAbs * quantaPerOne) :=
  ofQuotient_whole _ hi

/-- The quanta of an integer, with its sign. -/
theorem signedQuanta_natAbs (i : Int) :
    signedQuanta (i < 0) (i.natAbs * quantaPerOne) = i * quantaPerOne := by
  simp only [signedQuanta, Int.natCast_mul, decide_eq_true_eq]
  split_ifs with hi
  · rw [← Int.neg_mul, Int.ofNat_natAbs_of_nonpos (Int.le_of_lt hi), Int.neg_neg]
  · rw [Int.natAbs_of_nonneg (Int.not_lt.mp hi)]

/-- The place of an integer in the order. -/
theorem rank?_ofInt (hi : i.natAbs < 2 ^ 53) : (ofInt i).rank? = some (i * quantaPerOne) := by
  rw [ofInt_of_lt hi, rank?, signedQuanta_natAbs]

/-- An integer has as many quanta below zero as above. -/
theorem mul_quantaPerOne_neg_iff : i * quantaPerOne < 0 ↔ i < 0 := by
  have hpos := quantaPerOne_pos
  generalize quantaPerOne = quanta at hpos ⊢
  have hscaled : i * quanta < 0 * quanta ↔ i < 0 := Int.mul_lt_mul_right (by omega)
  rwa [Int.zero_mul] at hscaled

/-- An integer is below zero as a double when it is. -/
theorem isNegative_ofInt (hi : i.natAbs < 2 ^ 53) : (ofInt i).isNegative = decide (i < 0) := by
  rw [isNegative, rank?_ofInt hi, Option.any_some, decide_eq_decide]
  exact mul_quantaPerOne_neg_iff

/-- An integer is turned back to a natural number: a negative one to zero, a large one to the
limit. -/
theorem clampToNat_ofInt (hi : i.natAbs < 2 ^ 53) (limit : Nat) :
    (ofInt i).clampToNat limit = min i.toNat limit := by
  rw [ofInt_of_lt hi]
  by_cases hneg : i < 0
  · have hzero : i.toNat = 0 := by omega
    simp [clampToNat, hneg, hzero]
  · have habs : i.natAbs = i.toNat := by omega
    simp [clampToNat, hneg, habs, Nat.mul_div_cancel _ quantaPerOne_pos]

/-- A sum of integers is exact. -/
theorem ofInt_add_ofInt (hi : i.natAbs < 2 ^ 53) (hj : j.natAbs < 2 ^ 53)
    (hsum : (i + j).natAbs < 2 ^ 53) : ofInt i + ofInt j = ofInt (i + j) := by
  have hquanta : i * quantaPerOne + j * quantaPerOne = (i + j) * quantaPerOne :=
    (Int.add_mul i j quantaPerOne).symm
  change Binary64.add (ofInt i) (ofInt j) = _
  rw [ofInt_of_lt hi, ofInt_of_lt hj, Binary64.add, signedQuanta_natAbs, signedQuanta_natAbs, hquanta]
  by_cases hzero : i + j = 0
  · -- The two signs are not both negative, so the zero has none.
    have hsigns : (decide (i < 0) && decide (j < 0)) = false := by
      rw [Bool.and_eq_false_iff, decide_eq_false_iff_not, decide_eq_false_iff_not]
      omega
    rw [ofInt_of_lt hsum, hzero, hsigns, Int.zero_mul, if_pos rfl, Int.natAbs_zero, Nat.zero_mul]
    rfl
  · have hne : (i + j) * quantaPerOne ≠ 0 :=
      Int.mul_ne_zero hzero (Int.natCast_ne_zero.mpr quantaPerOne_pos.ne')
    simp only [hne, ↓reduceIte, mul_quantaPerOne_neg_iff, Int.natAbs_mul, Int.natAbs_natCast]
    rfl

end Integers

/-! ## Rounding below a whole number -/

/-- A quotient that is not above a whole number is not rounded above it. -/
theorem nearestQuotient_le {numerator denominator n : Nat} (hpos : 0 < denominator)
    (h : numerator ≤ n * denominator) : nearestQuotient numerator denominator ≤ n := by
  rcases Nat.eq_or_lt_of_le h with heq | hlt
  · rw [heq, nearestQuotient_mul hpos]
  · have hwhole : numerator / denominator < n := (Nat.div_lt_iff_lt_mul hpos).mpr hlt
    unfold nearestQuotient
    dsimp only
    split <;> omega

/-- A whole number of at most 53 bits is a multiple of the spacing around every smaller double. -/
theorem spacing_dvd {quanta n : Nat} (hbound : n < 2 ^ 53) (h : quanta ≤ n * quantaPerOne) :
    spacing quanta ∣ n * quantaPerOne := by
  by_cases hn : n = 0
  · simp [hn]
  · obtain ⟨k, hk, hquanta⟩ := quantaPerOne_eq
    have hmul := mul_pow_eq_mul_spacing hn hbound hk.1
    rw [← hquanta] at hmul
    have hlog : quanta.log2 ≤ (n * quantaPerOne).log2 := by
      by_cases hquanta : quanta = 0
      · simp [hquanta]
      · have hne := Nat.mul_ne_zero hn quantaPerOne_pos.ne'
        exact (Nat.le_log2 hne).mpr ((Nat.log2_self_le hquanta).trans h)
    have hdvd : spacing quanta ∣ spacing (n * quantaPerOne) :=
      Nat.pow_dvd_pow 2 (Nat.sub_le_sub_right hlog 52)
    exact Nat.dvd_trans hdvd ⟨_, hmul.trans (Nat.mul_comm _ _)⟩

/-- What is not above a whole number of at most 53 bits is not rounded above it. -/
theorem exists_le_ofQuotient (negative : Bool) {quanta n : Nat} (hbound : n < 2 ^ 53)
    (h : quanta ≤ n * quantaPerOne) :
    ∃ rounded ≤ n * quantaPerOne, ofQuotient negative quanta 1 = finite negative rounded := by
  obtain ⟨m, hm⟩ := spacing_dvd hbound h
  have hpos : 0 < spacing quanta := Nat.two_pow_pos _
  have hrounded : nearestQuotient quanta (spacing quanta) * spacing quanta ≤ n * quantaPerOne := by
    rw [hm, Nat.mul_comm _ m] at h ⊢
    exact Nat.mul_le_mul_right _ (nearestQuotient_le hpos h)
  refine ⟨_, hrounded, ?_⟩
  have hless := Nat.lt_of_le_of_lt hrounded (mul_quantaPerOne_lt hbound)
  simp [ofQuotient, hless]

end Binary64

namespace Expression

/-- An integer of at most 53 bits is kept as an integer. -/
theorem Value.ofBinary64?_ofInt {i : Int} (hi : i.natAbs < integerBound) :
    Value.ofBinary64? (.ofInt i) = some (.number (.integer i)) := by
  have hpos := Binary64.quantaPerOne_pos
  have hsign := Binary64.signedQuanta_natAbs i
  have hinteger : (Binary64.ofInt i).toInt? = some i := by
    rw [Binary64.ofInt_of_lt hi]
    by_cases hneg : i < 0
    · have habs : (i.natAbs : Int) = -i := by omega
      simp [Binary64.toInt?, Binary64.signedQuanta, hneg, Nat.mul_div_cancel _ hpos, habs]
    · have habs : (i.natAbs : Int) = i := by omega
      simp [Binary64.toInt?, Binary64.signedQuanta, hneg, Nat.mul_div_cancel _ hpos, habs]
  have hsmall : smallInteger? (.ofInt i) = some i := by
    rw [smallInteger?, hinteger]
    simpa using hi
  rw [Value.ofBinary64?, hsmall, Binary64.ofInt_of_lt hi]
  rfl

/-- A whole number of at most 53 bits is kept as an integer. -/
theorem value_toDigits {n : Nat} (hbound : n < integerBound) :
    (Binary64.ofNumeral? (Nat.toDigits 10 n)).bind Value.ofBinary64? =
      some (.number (.integer n)) := by
  have hinteger := Value.ofBinary64?_ofInt (i := n) hbound
  rw [Binary64.ofInt_of_lt (i := n) hbound] at hinteger
  rw [Binary64.ofNumeral?_toDigits hbound, Option.bind_some]
  exact hinteger

end Expression

end DirectiveMarkup
