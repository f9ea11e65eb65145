import DirectiveMarkup.Expression.Fields
import DirectiveMarkup.Number.Decimal
import DirectiveMarkup.Text.Blank

/-!
# Values of expressions

A value is null, a truth value, a number, a string, an array or an object. Numbers are kept
either as an integer or as a double. The two behave alike in arithmetic and comparison, but
only an integer can index, and inside arrays and objects an integer and a double are different
items.
-/

namespace DirectiveMarkup.Expression

/-- A number as it is stored. -/
inductive Numeral where
  | integer (i : Int)
  | double (x : Binary64)
  deriving DecidableEq, Repr

/-- A value of the expression language. The fields of an object are a plain list, because a type
cannot hold proofs about lists of itself; all objects that are made have ascending names. -/
inductive Value where
  | null
  | bool (b : Bool)
  | number (n : Numeral)
  | string (s : String)
  | array (items : List Value)
  | object (fields : List (String × Value))

instance : Inhabited Value := ⟨.null⟩

/-- What sort of thing a value is. -/
inductive Kind where
  | null
  | boolean
  | number
  | string
  | array
  | object
  deriving DecidableEq, Repr

/-- The word for a kind of value in messages. -/
def Kind.name : Kind → String
  | null => "null"
  | boolean => "boolean"
  | number => "number"
  | string => "string"
  | array => "array"
  | object => "object"

/-- The number as a double. -/
def Numeral.toBinary64 : Numeral → Binary64
  | integer i => .ofInt i
  | double x => x

/-- The bound below which a whole double is stored as an integer. -/
def integerBound : Nat := Nat.pow 2 53

/-- The integer that a double stands for, if it is whole and of moderate size. -/
def smallInteger? (x : Binary64) : Option Int :=
  x.toInt?.filter fun i => i.natAbs < integerBound

/-- The text of a number. A whole double of moderate size is written like an integer. -/
def Numeral.toText : Numeral → String
  | integer i => toString i
  | double x =>
    match smallInteger? x with
    | some i => toString i
    | none => x.toText

namespace Value

/-- The value of a finite double: an integer where it is whole and of moderate size. -/
def ofBinary64? (x : Binary64) : Option Value :=
  if x.isFinite then
    match smallInteger? x with
    | some i => some (.number (.integer i))
    | none => some (.number (.double x))
  else none

/-- A count as a value. -/
def ofNat (n : Nat) : Value :=
  .number (.integer n)

/-- The kind of a value. -/
def kind : Value → Kind
  | null => .null
  | bool _ => .boolean
  | number _ => .number
  | string _ => .string
  | array _ => .array
  | object _ => .object

/-- Null, false, zero and the empty string do not count as true. -/
def truthy : Value → Bool
  | null => false
  | bool b => b
  | number n => !n.toBinary64.isZero
  | string s => !s.isEmpty
  | array _ | object _ => true

/-- The number that a value stands for. A blank string stands for zero; arrays and objects,
and strings that are not numerals, stand for none. -/
def toBinary64? : Value → Option Binary64
  | null => some (.ofNat 0)
  | bool b => some (.ofNat b.toNat)
  | number n => some n.toBinary64
  | string s =>
    let text := Text.trimChars s.toList
    if text.isEmpty then some (.ofNat 0) else Binary64.ofNumeral? text
  | array _ | object _ => none

mutual

/-- The text of a value. The items of an array are joined by commas, null as nothing. -/
def display : Value → String
  | null => "null"
  | bool b => if b then "true" else "false"
  | number n => n.toText
  | string s => s
  | array items => ",".intercalate (itemTexts items)
  | object _ => "[object Object]"

/-- The texts of the items of an array, in which null is left out. -/
def itemTexts : List Value → List String
  | [] => []
  | null :: rest => "" :: itemTexts rest
  | item :: rest => display item :: itemTexts rest

end

/-- The item that a number selects: its place must be a natural number kept as an integer. -/
def place? : Numeral → Option Nat
  | .integer (.ofNat n) => some n
  | _ => none

/-- Two stored numbers are the same item: both integers or both doubles, and equal. -/
def sameNumeral : Numeral → Numeral → Bool
  | .integer i, .integer j => i == j
  | .double x, .double y => x.equals y
  | _, _ => false

mutual

/-- Structural sameness, as between the items of arrays. -/
def same : Value → Value → Bool
  | null, null => true
  | bool a, bool b => a == b
  | number a, number b => sameNumeral a b
  | string a, string b => a == b
  | array a, array b => sameItems a b
  | object a, object b => sameFields a b
  | _, _ => false

/-- Structural sameness of the items of two arrays. -/
def sameItems : List Value → List Value → Bool
  | [], [] => true
  | a :: as, b :: bs => same a b && sameItems as bs
  | _, _ => false

/-- Structural sameness of the fields of two objects. -/
def sameFields : List (String × Value) → List (String × Value) → Bool
  | [], [] => true
  | (m, a) :: as, (n, b) :: bs => m == n && same a b && sameFields as bs
  | _, _ => false

end

/-- Strict equality: numbers by their numerical value, all else by structure. -/
def strictEquals : Value → Value → Bool
  | number a, number b => a.toBinary64.equals b.toBinary64
  | a, b => same a b

/-- Equality of the numbers that two values stand for. -/
def numericallyEqual (a b : Value) : Bool :=
  match a.toBinary64?, b.toBinary64? with
  | some x, some y => x.equals y
  | _, _ => false

/-- Loose equality: null equals only itself, and truth values, numbers and strings of
different kinds are compared as numbers. -/
def looseEquals (a b : Value) : Bool :=
  match a, b with
  | null, null => true
  | null, _ | _, null => false
  | number _, number _ | string _, number _ | bool _, number _
  | number _, bool _ | string _, bool _ | bool _, bool _
  | number _, string _ | bool _, string _ => numericallyEqual a b
  | _, _ => strictEquals a b

/-- How two values compare: strings by code point, all else as numbers, if they are any. -/
def compare? (a b : Value) : Option Ordering :=
  match a, b with
  | string s, string t => some (compare s t)
  | _, _ =>
    match a.toBinary64?, b.toBinary64? with
    | some x, some y => x.compare? y
    | _, _ => none

end Value

/-- The names that an expression may use, with their values. The names are ascending, so each has one
value. A scope has no parent. -/
structure Scope where
  fields : Fields Value
  ascending : fields.Ascending

namespace Scope

/-- The scope without names. -/
def empty : Scope := ⟨[], List.Pairwise.nil⟩

/-- The value bound to a name. -/
def find? (scope : Scope) (name : String) : Option Value :=
  scope.fields.find? name

/-- Bind a name, replacing the value that it had. -/
def bind (scope : Scope) (name : String) (value : Value) : Scope :=
  ⟨scope.fields.bind name value, scope.ascending.bind name value⟩

/-- Bind several names in turn; of two bindings of one name the later stays. -/
def bindAll (scope : Scope) (bindings : List (String × Value)) : Scope :=
  ⟨scope.fields.bindAll bindings, scope.ascending.bindAll bindings⟩

/-- The scope that a list of bindings makes. -/
def ofBindings (bindings : List (String × Value)) : Scope :=
  empty.bindAll bindings

/-- The scope that an object or null makes; other values make none. -/
def ofValue? : Value → Option Scope
  | .object fields => some (ofBindings fields)
  | .null => some empty
  | _ => none

/-- Binding no names changes nothing. -/
@[simp] theorem bindAll_nil (scope : Scope) : scope.bindAll [] = scope := rfl

/-- Of several names the first is bound first. -/
@[simp] theorem bindAll_cons (scope : Scope) (binding : String × Value)
    (bindings : List (String × Value)) :
    scope.bindAll (binding :: bindings) = (scope.bind binding.1 binding.2).bindAll bindings := rfl

/-- The name just bound has the new value, and every other name the value that it had. -/
@[simp] theorem find?_bind (scope : Scope) (name other : String) (value : Value) :
    (scope.bind name value).find? other = if other = name then some value else scope.find? other :=
  Fields.find?_bind name other value scope.fields

end Scope

end DirectiveMarkup.Expression
