/-!
# Double-precision numbers

Every finite double is a whole number of *quanta*, the smallest positive double `2^-1074`. A
number is stored as a sign and a count of quanta, so comparison and remainder are integer
operations, and every other operation is an exact quotient of integers that is rounded once,
to the nearest double with ties to the even one.

The operations below only build counts that are representable: at most 53 significant bits,
and below the count of `2^1024`, which no finite double reaches.
-/

namespace DirectiveMarkup

/-- The whole number nearest to a quotient; a tie goes to the even one. -/
def nearestQuotient (numerator denominator : Nat) : Nat :=
  let whole := numerator / denominator
  let rest := 2 * (numerator % denominator)
  if denominator < rest || (denominator = rest && whole % 2 = 1) then whole + 1 else whole

/-- A division without remainder is not rounded. -/
theorem nearestQuotient_mul {n denominator : Nat} (h : 0 < denominator) :
    nearestQuotient (n * denominator) denominator = n := by
  simp [nearestQuotient, Nat.mul_div_cancel _ h, Nat.mul_mod_left]
  omega

/-- A double-precision number: a sign with a count of quanta, an infinity, or not a number. -/
inductive Binary64 where
  | finite (negative : Bool) (quanta : Nat)
  | infinite (negative : Bool)
  | nan
  deriving DecidableEq, Repr

namespace Binary64

/-- How many quanta make one. -/
def quantaPerOne : Nat := Nat.pow 2 1074

/-- The count of quanta that is too large for a finite number. -/
def quantaLimit : Nat := Nat.pow 2 2098

/-- The distance from a count of quanta to the next representable one above it. -/
def spacing (quanta : Nat) : Nat := Nat.pow 2 (quanta.log2 - 52)

/-- The number nearest to a quotient of quanta. -/
def ofQuotient (negative : Bool) (numerator denominator : Nat) : Binary64 :=
  let step := spacing (numerator / denominator)
  let quanta := nearestQuotient numerator (denominator * step) * step
  if quanta < quantaLimit then finite negative quanta else infinite negative

/-- The number nearest to an integer. -/
def ofInt (i : Int) : Binary64 :=
  ofQuotient (i < 0) (i.natAbs * quantaPerOne) 1

/-- The number nearest to a natural number. -/
def ofNat (n : Nat) : Binary64 :=
  ofInt n

/-- The digits of a decimal numeral, as one number, scaled by a power of ten. Exponents far
outside the range of doubles are not computed: they give an infinity or zero. -/
def ofDecimal (negative : Bool) (digits : Nat) (exponent : Int) : Binary64 :=
  if digits = 0 then finite negative 0
  else if 400 < exponent then infinite negative
  else if exponent + (digits.log2 : Int) < -1400 then finite negative 0
  else ofQuotient negative (digits * Nat.pow 10 exponent.toNat * quantaPerOne)
    (Nat.pow 10 (-exponent).toNat)

/-- The count of quanta with its sign. -/
def signedQuanta (negative : Bool) (quanta : Nat) : Int :=
  if negative then -quanta else quanta

/-- The place of a number in the order; what is not a number has none. -/
def rank? : Binary64 → Option Int
  | finite negative quanta => some (signedQuanta negative quanta)
  | infinite negative => some (signedQuanta negative quantaLimit)
  | nan => none

/-- How two numbers compare, if both are numbers. The two zeros are equal. -/
def compare? (a b : Binary64) : Option Ordering :=
  match a.rank?, b.rank? with
  | some x, some y => some (compare x y)
  | _, _ => none

/-- Numerical equality: false when either side is not a number. -/
def equals (a b : Binary64) : Bool :=
  a.compare? b == some .eq

/-- True of the numbers below zero. -/
def isNegative (a : Binary64) : Bool :=
  a.rank?.any (· < 0)

/-- True of the two zeros. -/
def isZero (a : Binary64) : Bool :=
  a.rank? == some 0

/-- True unless the number is infinite or not a number. -/
def isFinite : Binary64 → Bool
  | finite _ _ => true
  | _ => false

/-- Change of sign. -/
protected def neg : Binary64 → Binary64
  | finite negative quanta => finite (!negative) quanta
  | infinite negative => infinite (!negative)
  | nan => nan

/-- Sum. A sum of zero is negative only when both terms are. -/
protected def add : Binary64 → Binary64 → Binary64
  | nan, _ | _, nan => nan
  | infinite s, infinite t => if s = t then infinite s else nan
  | infinite s, finite _ _ => infinite s
  | finite _ _, infinite t => infinite t
  | finite s a, finite t b =>
    let sum := signedQuanta s a + signedQuanta t b
    if sum = 0 then finite (s && t) 0 else ofQuotient (sum < 0) sum.natAbs 1

/-- Difference. -/
protected def sub (a b : Binary64) : Binary64 :=
  a.add b.neg

/-- Product. -/
protected def mul : Binary64 → Binary64 → Binary64
  | nan, _ | _, nan => nan
  | infinite s, infinite t => infinite (s != t)
  | infinite s, finite t b => if b = 0 then nan else infinite (s != t)
  | finite s a, infinite t => if a = 0 then nan else infinite (s != t)
  | finite s a, finite t b => ofQuotient (s != t) (a * b) quantaPerOne

/-- Quotient. Only zero divided by zero, and infinity by infinity, are not numbers. -/
protected def div : Binary64 → Binary64 → Binary64
  | nan, _ | _, nan => nan
  | infinite _, infinite _ => nan
  | infinite s, finite t _ => infinite (s != t)
  | finite s _, infinite t => finite (s != t) 0
  | finite s a, finite t b =>
    if b = 0 then (if a = 0 then nan else infinite (s != t))
    else ofQuotient (s != t) (a * quantaPerOne) b

/-- Remainder of the division truncated toward zero. It is exact and has the sign of the
dividend. -/
protected def mod : Binary64 → Binary64 → Binary64
  | nan, _ | _, nan => nan
  | infinite _, _ => nan
  | finite s a, infinite _ => finite s a
  | finite s a, finite _ b => if b = 0 then nan else finite s (a % b)

instance : Neg Binary64 := ⟨Binary64.neg⟩
instance : Add Binary64 := ⟨Binary64.add⟩
instance : Sub Binary64 := ⟨Binary64.sub⟩
instance : Mul Binary64 := ⟨Binary64.mul⟩
instance : Div Binary64 := ⟨Binary64.div⟩
instance : Mod Binary64 := ⟨Binary64.mod⟩

/-- The integer that a number is, if it has no fraction. -/
def toInt? : Binary64 → Option Int
  | finite negative quanta =>
    if quanta % quantaPerOne = 0 then some (signedQuanta negative (quanta / quantaPerOne))
    else none
  | _ => none

/-- The number without its fraction. -/
def truncate : Binary64 → Binary64
  | finite negative quanta => finite negative (quanta / quantaPerOne * quantaPerOne)
  | other => other

/-- The whole part, raised to zero and lowered to `limit`. What is not a number counts as
zero. -/
def clampToNat (limit : Nat) : Binary64 → Nat
  | finite false quanta => min (quanta / quantaPerOne) limit
  | infinite false => limit
  | _ => 0

/-- Equality is equality of rank. -/
theorem equals_iff {a b : Binary64} :
    a.equals b = true ↔ ∃ r, a.rank? = some r ∧ b.rank? = some r := by
  simp only [equals, compare?]
  cases a.rank? with
  | none => simp
  | some x =>
    cases b.rank? with
    | none => simp
    | some y => simp [eq_comm (a := y)]

/-- A finite number has a rank. -/
theorem exists_rank_of_isFinite {a : Binary64} (h : a.isFinite = true) :
    ∃ r, a.rank? = some r := by
  cases a <;> simp_all [isFinite, rank?]

/-- Among finite numbers equality is reflexive. -/
theorem equals_self_of_isFinite {a : Binary64} (h : a.isFinite = true) : a.equals a = true := by
  obtain ⟨r, hr⟩ := exists_rank_of_isFinite h
  exact equals_iff.2 ⟨r, hr, hr⟩

end Binary64

end DirectiveMarkup
