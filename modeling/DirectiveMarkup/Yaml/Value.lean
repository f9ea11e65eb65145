import DirectiveMarkup.Expression.Value
import DirectiveMarkup.Yaml.Document

/-!
# Values of YAML documents

What a plain scalar stands for: null, a truth value, an integer, a float or a string. A decimal
integer with a superfluous leading zero is a string. Integers that fit no word of 64 bits but one
of 128 have no value; larger ones are floats. Infinities and what is not a number become null.
All other scalars are strings.
-/

namespace DirectiveMarkup.Yaml

open DirectiveMarkup.Expression (Fields Value)

/-- The words for null; a scalar that is not written is null as well. -/
def isNull (text : String) : Bool :=
  ["", "~", "null", "Null", "NULL"].contains text

/-- The truth value that a word stands for. -/
def bool? (text : String) : Option Bool :=
  if ["true", "True", "TRUE"].contains text then some true
  else if ["false", "False", "FALSE"].contains text then some false
  else none

/-- The number with the given digits in a base, if there are any, all are digits, and it is not
above a bound. -/
def inBase? (base bound : Nat) (digits : List Char) : Option Nat :=
  if digits.isEmpty then none
  else digits.foldlM (fun n c =>
    (((hexDigit? c).filter (· < base)).map (base * n + ·)).filter (· ≤ bound)) 0

/-- The number that follows a base mark such as `0x`, up to a bound. -/
def based? (bound : Nat) : List Char → Option Nat
  | '0' :: 'x' :: digits => inBase? 16 bound digits
  | '0' :: 'o' :: digits => inBase? 8 bound digits
  | '0' :: 'b' :: digits => inBase? 2 bound digits
  | _ => none

/-- Several digits that start with a zero do not make a number. -/
def isZeroPadded (digits : List Char) : Bool :=
  1 < digits.length && digits.head? = some '0' && digits.all Char.isDigit

/-- The number without a sign that digits or a base mark give, up to a bound. -/
def magnitude? (bound : Nat) (text : List Char) : Option Nat :=
  match based? bound text with
  | some n => some n
  | none => if isZeroPadded text then none else inBase? 10 bound text

/-- A number from zero up to a bound, with an optional plus sign. -/
def unsigned? (bound : Nat) (text : List Char) : Option Nat :=
  match text with
  | '+' :: digits => magnitude? bound digits
  | digits => magnitude? bound digits

/-- A number below zero, or zero with a minus sign, down to a bound. -/
def negative? (bound : Nat) (text : List Char) : Option Int :=
  match text with
  | '-' :: digits => (magnitude? bound digits).map fun n => -(n : Int)
  | _ => none

/-- The double that a scalar stands for. -/
def double? (text : List Char) : Option Binary64 :=
  let unsigned := match text with
    | '+' :: rest => rest
    | rest => rest
  let doublySigned := text.head? = some '+' && unsigned.head?.any fun c => c = '+' || c = '-'
  if doublySigned then none
  else if [".inf", ".Inf", ".INF"].contains (String.ofList unsigned) then some (.infinite false)
  else if ["-.inf", "-.Inf", "-.INF"].contains (String.ofList text) then some (.infinite true)
  else if [".nan", ".NaN", ".NAN"].contains (String.ofList text) then some .nan
  else (Binary64.ofNumeral? unsigned).filter Binary64.isFinite

/-- A scalar with a value as text, where it is no number of another kind. -/
def floatOrText (text : String) : Value :=
  let digits := match text.toList with
    | '+' :: rest | '-' :: rest => rest
    | rest => rest
  match (if isZeroPadded digits then none else double? text.toList) with
  | some x => if x.isFinite then .number (.double x) else .null
  | none => .string text

/-- The value of a plain scalar; none for an integer that is too large. -/
def plainValue? (text : String) : Option Value :=
  if isNull text then some .null
  else match bool? text with
    | some b => some (.bool b)
    | none =>
      let chars := text.toList
      match unsigned? (Nat.pow 2 64 - 1) chars, negative? (Nat.pow 2 63) chars with
      | some n, _ => some (.number (.integer n))
      | none, some i => some (.number (.integer i))
      | none, none =>
        if (unsigned? (Nat.pow 2 128 - 1) chars).isSome || (negative? (Nat.pow 2 127) chars).isSome
        then none
        else some (floatOrText text)

/-- The text of a scalar, whatever it is written like. -/
def Document.text? : Document → Option String
  | .scalar _ text => some text
  | _ => none

mutual

/-- The value of a node in which no more than that many collections are nested. The keys of
mappings are taken as texts, and of two equal ones the later counts. -/
def Document.value? (levels : Nat) : Document → Option Value
  | .scalar plain text => if plain then plainValue? text else some (.string text)
  | .sequence items =>
    if levels = 0 then none else (values? (levels - 1) items).map .array
  | .mapping entries =>
    if levels = 0 then none
    else (bindings? (levels - 1) entries).map fun bindings => .object (Fields.ofBindings bindings)

/-- The values of several nodes. -/
def values? (levels : Nat) : List Document → Option (List Value)
  | [] => some []
  | item :: rest => do
    let value ← item.value? levels
    return value :: (← values? levels rest)

/-- The values of the entries of a mapping with their keys. -/
def bindings? (levels : Nat) : List (Document × Document) → Option (List (String × Value))
  | [] => some []
  | (key, item) :: rest => do
    let name ← key.text?
    let value ← item.value? levels
    return (name, value) :: (← bindings? levels rest)

end

end DirectiveMarkup.Yaml
