import DirectiveMarkup.Expression.Error
import DirectiveMarkup.Text.Case
import DirectiveMarkup.Text.Search

/-!
# Properties and methods of values

The length and the items of strings and arrays, the fields of objects, and the methods that
can be called. A string is a sequence of code points for its length, its items and `slice`; its
size in bytes only limits what `repeat` may build. Lengths and places are given as doubles, like
every other number that is computed. A missing argument counts as the empty string where a text is
wanted, and as absent where a number is.
-/

namespace DirectiveMarkup.Expression

/-- The value of a double, which must be finite. -/
def Value.ofBinary64 (x : Binary64) : Except EvalError Value :=
  match Value.ofBinary64? x with
  | some value => .ok value
  | none => .error .nonFinite

/-- The largest size in bytes of a string that `repeat` builds. -/
def maxStringSize : Nat := Nat.pow 2 24

/-- A property by its name. What has no such property gives null, and null has none. -/
def member (object : Value) (name : String) : Except EvalError Value :=
  match object with
  | .null => .error (.propertyOfNull name)
  | .object fields => .ok ((Fields.find? fields name).getD .null)
  | .array items =>
    if name = "length" then Value.ofBinary64 (.ofNat items.length) else .ok .null
  | .string s => if name = "length" then Value.ofBinary64 (.ofNat s.length) else .ok .null
  | .bool _ | .number _ => .ok .null

/-- The string of one code point. -/
def charValue (c : Char) : Value :=
  .string c.toString

/-- What stands at a place. A number selects an item of an array or string, and gives null
where there is none; all else is taken as the name of a property. -/
def itemAt (object place : Value) : Except EvalError Value :=
  match object, place with
  | .array items, .number n =>
    .ok (((Value.place? n).bind fun i => items[i]?).getD .null)
  | .string s, .number n =>
    .ok (((Value.place? n).bind fun i => s.toList[i]?).elim .null charValue)
  | _, _ => member object place.display

/-- The largest place that a double is turned to. -/
def maxIndex : Nat := Nat.pow 2 64 - 1

/-- The place that an argument of `slice` stands for, which counts from the end when it is
negative. A place in front of the sequence is its start; one behind it is its end. -/
def slicePlace (length : Nat) (x : Binary64) : Nat :=
  if x.isNegative then (Binary64.ofNat length + x).clampToNat maxIndex
  else min (x.clampToNat maxIndex) length

/-- The places at which a slice starts and ends; it ends no earlier than it starts. -/
def sliceBounds (length : Nat) (start stop : Option Binary64) : Nat × Nat :=
  let first := start.elim 0 (slicePlace length)
  let last := stop.elim length (slicePlace length)
  (first, max last first)

/-- The part of a sequence between two places. -/
def slice {α : Type} (items : List α) (start stop : Option Binary64) : List α :=
  let (first, last) := sliceBounds items.length start stop
  (items.drop first).take (last - first)

/-- A string repeated a number of times, the fraction of which does not count. -/
def repeated (s : String) (count : Binary64) : Except EvalError Value :=
  if !count.isFinite || count.isNegative then .error (.invalidRepeatCount count)
  else
    let times := count.clampToNat (maxStringSize + 1)
    if times ≤ maxStringSize && times * s.utf8ByteSize ≤ maxStringSize then
      .ok (.string (Nat.repeat (· ++ s) times ""))
    else .error (.repeatTooLong count.truncate)

/-- The parts of a string between the occurrences of a separator; without a separator, its
code points. -/
def split (s separator : String) : List Value :=
  if separator.isEmpty then s.toList.map charValue
  else (Text.splitOn separator.toList s.toList).map fun part => .string (.ofList part)

/-- The place of the first item that is strictly equal to a value. -/
def firstPlace? (items : List Value) (value : Value) : Option Nat :=
  items.findIdx? fun item => Value.strictEquals item value

/-- The arguments of a call. -/
abbrev Arguments := List Value

namespace Arguments

/-- The first argument as a text. -/
def text (arguments : Arguments) : String :=
  arguments.head?.elim "" Value.display

/-- The first argument, or null. -/
def first (arguments : Arguments) : Value :=
  arguments.head?.getD .null

/-- The argument at a place as a number. -/
def number? (arguments : Arguments) (place : Nat) : Option Binary64 :=
  arguments[place]?.bind Value.toBinary64?

end Arguments

/-- The methods of strings. -/
def stringMethod (s : String) (arguments : Arguments) : String → Option (Except EvalError Value)
  | "toUpperCase" => some (.ok (.string (Text.toUpper s)))
  | "toLowerCase" => some (.ok (.string (Text.toLower s)))
  | "trim" => some (.ok (.string (Text.trim s)))
  | "includes" => some (.ok (.bool (Text.occursIn arguments.text.toList s.toList)))
  | "startsWith" => some (.ok (.bool (arguments.text.toList.isPrefixOf s.toList)))
  | "endsWith" => some (.ok (.bool (arguments.text.toList.isSuffixOf s.toList)))
  | "split" => some (.ok (.array (split s arguments.text)))
  | "repeat" => some (repeated s ((arguments.number? 0).getD (.ofNat 0)))
  | "slice" =>
    some (.ok (.string (.ofList (slice s.toList (arguments.number? 0) (arguments.number? 1)))))
  | _ => none

/-- The text of an item among those that are joined: nothing for null. -/
def joinedText : Value → String
  | .null => ""
  | item => item.display

/-- The methods of arrays. -/
def arrayMethod (items : List Value) (arguments : Arguments) :
    String → Option (Except EvalError Value)
  | "join" =>
    let separator := if arguments.isEmpty then "," else arguments.text
    some (.ok (.string (separator.intercalate (items.map joinedText))))
  | "includes" => some (.ok (.bool (items.any (Value.strictEquals · arguments.first))))
  | "indexOf" =>
    some (Value.ofBinary64 ((firstPlace? items arguments.first).elim (.ofInt (-1)) .ofNat))
  | "slice" => some (.ok (.array (slice items (arguments.number? 0) (arguments.number? 1))))
  | _ => none

/-- The most digits that `toFixed` writes after the point. -/
def maxPlaces : Nat := 100

/-- Call a method. Every value but null can be turned to a string; null can as well, but has no
other method. -/
def callMethod (receiver : Value) (method : String) (arguments : Arguments) :
    Except EvalError Value :=
  if method = "toString" then .ok (.string receiver.display)
  else
    let unknown := .error (.unknownMethod method receiver.kind)
    match receiver with
    | .string s => (stringMethod s arguments method).getD unknown
    | .array items => (arrayMethod items arguments method).getD unknown
    | .number n =>
      if method = "toFixed" then
        let places := ((arguments.number? 0).getD (.ofNat 0)).clampToNat maxPlaces
        .ok (.string (n.toBinary64.toFixed places))
      else unknown
    | .null => .error (.propertyOfNull method)
    | .bool _ | .object _ => unknown

end DirectiveMarkup.Expression
