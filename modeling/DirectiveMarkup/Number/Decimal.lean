import DirectiveMarkup.Number.Binary64

/-!
# Decimal notation of doubles

Reading a decimal numeral gives the nearest double. Writing has two forms: the shortest
numeral that reads back as the same double, always positional, and a numeral with a fixed
number of places, rounded from the exact value with ties to even.

The shortest numeral lies in the interval of reals that round to the double. Its grid of
candidates, the multiples of a power of ten, is refined until one of the two multiples next
to the value lies in that interval. Of two such multiples the nearer is taken, and of two
equally near the upper.
-/

namespace DirectiveMarkup.Binary64

/-- The number that a sequence of decimal digits denotes. -/
def digitsValue (digits : List Char) : Nat :=
  digits.foldl (fun value digit => 10 * value + (digit.toNat - '0'.toNat)) 0

/-- How many significant digits of a numeral are kept. No double, and no number halfway between
two neighbouring doubles, has as many. -/
def keptDigits : Nat := 800

/-- The number that digits denote, as a count of units and the power of ten that is the unit. Of
the digits behind the kept ones it only matters whether one is not zero; a one stands for them,
which lies on the same side of every double and of every number halfway between two. -/
def significand (digits : List Char) : Nat × Nat :=
  let significant := digits.dropWhile (· = '0')
  let kept := digitsValue (significant.take keptDigits)
  let others := significant.drop keptDigits
  if others.all (· = '0') then (kept, others.length) else (10 * kept + 1, others.length - 1)

/-- Leading zeros do not count. -/
theorem digitsValue_dropWhile_zero (digits : List Char) :
    digitsValue (digits.dropWhile (· = '0')) = digitsValue digits := by
  induction digits with
  | nil => rfl
  | cons c rest ih =>
    by_cases h : c = '0'
    · subst h
      simpa [digitsValue] using ih
    · simp [h]

/-- A numeral that is not too long is taken as it is. -/
theorem significand_of_length_le {digits : List Char} (h : digits.length ≤ keptDigits) :
    significand digits = (digitsValue digits, 0) := by
  have hle : (digits.dropWhile (· = '0')).length ≤ keptDigits :=
    Nat.le_trans (List.dropWhile_suffix _).length_le h
  simp [significand, List.take_of_length_le hle, List.drop_of_length_le hle,
    digitsValue_dropWhile_zero]

/-- From here on the digits of an exponent are passed over. -/
def exponentLimit : Nat := Nat.pow 2 16

/-- The size of an exponent. Once its first digits make a number that is not below the limit, no
further digit counts. -/
def exponentSize (digits : List Char) : Nat :=
  digits.foldl (fun size digit =>
    if size < exponentLimit then 10 * size + (digit.toNat - '0'.toNat) else size) 0

/-- The exponent part of a numeral: nothing, or `e`, an optional sign and digits. -/
def readExponent : List Char → Option Int
  | [] => some 0
  | mark :: rest =>
    if mark = 'e' || mark = 'E' then
      let digits := match rest with
        | '+' :: digits | '-' :: digits => digits
        | digits => digits
      if digits.isEmpty || !digits.all Char.isDigit then none
      else if rest.head? = some '-' then some (-(exponentSize digits : Int))
      else some (exponentSize digits)
    else none

/-- A numeral without sign: digits with at most one point among or beside them and an
exponent, or one of the words for infinity and for what is not a number. -/
def readUnsigned (negative : Bool) (text : List Char) : Option Binary64 :=
  let whole := text.takeWhile Char.isDigit
  let afterWhole := text.dropWhile Char.isDigit
  let afterPoint := match afterWhole with
    | '.' :: rest => some rest
    | _ => none
  let fraction := (afterPoint.getD []).takeWhile Char.isDigit
  let exponentText := match afterPoint with
    | some rest => rest.dropWhile Char.isDigit
    | none => afterWhole
  if whole.isEmpty && fraction.isEmpty then
    let word := String.ofList (text.map Char.toLower)
    if word = "inf" || word = "infinity" then some (infinite negative)
    else if word = "nan" then some nan
    else none
  else
    let (units, unit) := significand (whole ++ fraction)
    (readExponent exponentText).map fun exponent =>
      ofDecimal negative units (exponent + unit - fraction.length)

/-- Read a numeral with an optional sign; `none` when the text is not a numeral. -/
def ofNumeral? : List Char → Option Binary64
  | '-' :: text => readUnsigned true text
  | '+' :: text => readUnsigned false text
  | text => readUnsigned false text

/-- A count of quanta in units of a power of ten, as a numerator and a denominator. -/
def inUnits (quanta : Nat) (exponent : Int) : Nat × Nat :=
  (quanta * Nat.pow 10 (-exponent).toNat, quantaPerOne * Nat.pow 10 exponent.toNat)

/-- True when a multiple of a power of ten rounds to the count of quanta. The interval of the
reals that do extends half a step to either side, a quarter below a power of two, and includes
its ends when the count is an even multiple of its step. -/
def roundsTo (quanta multiple : Nat) (exponent : Int) : Bool :=
  let step := spacing quanta
  let below := if 1 < step && quanta = Nat.pow 2 quanta.log2 then step else 2 * step
  let scale := Nat.pow 10 (-exponent).toNat
  let point := 4 * (multiple * (inUnits quanta exponent).2)
  let low := (4 * quanta - below) * scale
  let high := (4 * quanta + 2 * step) * scale
  if quanta / step % 2 = 0 then low ≤ point && point ≤ high else low < point && point < high

/-- The multiple of a power of ten next to the count of quanta that rounds to it, if either
neighbour does. -/
def neighbour? (quanta : Nat) (exponent : Int) : Option Nat :=
  let (numerator, denominator) := inUnits quanta exponent
  let lower := numerator / denominator
  let nearer := if denominator ≤ 2 * (numerator % denominator) then lower + 1 else lower
  let farther := if nearer = lower then lower + 1 else lower
  if nearer ≠ 0 && roundsTo quanta nearer exponent then some nearer
  else if farther ≠ 0 && roundsTo quanta farther exponent then some farther
  else none

/-- Refine the grid from `exponent` downwards, at most `steps` times. -/
def shortestFrom (quanta : Nat) : (steps : Nat) → (exponent : Int) → Nat × Int
  | 0, _ => (0, 0)
  | steps + 1, exponent =>
    match neighbour? quanta exponent with
    | some multiple => (multiple, exponent)
    | none => shortestFrom quanta steps (exponent - 1)

/-- The fewest digits that read back as the count of quanta, with their power of ten. No grid
coarser than the whole part, and none finer than `10^-324`, is needed. -/
def shortest (quanta : Nat) : Nat × Int :=
  let whole := (toString (quanta / quantaPerOne)).length
  shortestFrom quanta (whole + 325) whole

/-- A decimal point before the last `places` digits, with zeros in front where digits are
missing; no point when there are no places. -/
def withPoint (digits : List Char) (places : Nat) : List Char :=
  let padded := List.replicate (places + 1 - digits.length) '0' ++ digits
  let whole := padded.take (padded.length - places)
  if places = 0 then whole else whole ++ '.' :: padded.drop (padded.length - places)

/-- The sign in front of a negative numeral. -/
def signText (negative : Bool) : String :=
  if negative then "-" else ""

/-- The shortest numeral that reads back as the number, without an exponent. -/
def toText : Binary64 → String
  | finite negative quanta =>
    if quanta = 0 then signText negative ++ "0" else
      let (digits, exponent) := shortest quanta
      let text := (toString digits).toList ++ List.replicate exponent.toNat '0'
      signText negative ++ String.ofList (withPoint text (-exponent).toNat)
  | infinite negative => signText negative ++ "inf"
  | nan => "NaN"

/-- The number with exactly `places` digits after the point. -/
def toFixed (places : Nat) : Binary64 → String
  | finite negative quanta =>
    let digits := nearestQuotient (quanta * Nat.pow 10 places) quantaPerOne
    signText negative ++ String.ofList (withPoint (toString digits).toList places)
  | other => other.toText

end DirectiveMarkup.Binary64
