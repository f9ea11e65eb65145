import DirectiveMarkup.Yaml.Cursor

/-!
# Scalars of YAML

The four ways to write a scalar: plain, in single or double quotes, and as a block of lines that
is kept (`|`) or folded (`>`). A reader gives the text of the scalar and the place after it, or
nothing where the text is malformed.
-/

namespace DirectiveMarkup.Yaml

/-- True where a plain scalar ends: at a gap or a value mark, and inside brackets also at the
marks of collections. -/
def endsPlain (inFlow : Bool) : List Char → Bool
  | [] => true
  | c :: rest =>
    atGap (c :: rest) || (c = ':' && atGap rest) || (inFlow && ",[]\x7b\x7d".toList.contains c)

/-- Read a part of a plain scalar on, after some of it, in reverse. -/
def plainPartFrom (inFlow : Bool) (passed : List Char) : List Char → List Char
  | [] => passed.reverse
  | c :: rest =>
    if endsPlain inFlow (c :: rest) then passed.reverse
    else plainPartFrom inFlow (c :: passed) rest

/-- The longest part of a plain scalar without a gap. -/
def plainPart (inFlow : Bool) (text : List Char) : List Char :=
  plainPartFrom inFlow [] text

/-- True when a part of a plain scalar inside brackets has a colon before a mark of
collections. -/
def hasStrayColon : List Char → Bool
  | ':' :: c :: rest => ",?[]\x7b\x7d".toList.contains c || hasStrayColon (c :: rest)
  | _ :: rest => hasStrayColon rest
  | [] => false

/-- Read a plain scalar on, after some of its text, in reverse, and the gap behind that. Also
tells whether the place after it is on a later line than its end. -/
def readPlainFrom (inFlow : Bool) (indentation : Nat) :
    (steps : Nat) → (text : List Char) → Gap → Cursor → Option (List Char × Bool × Cursor)
  | 0, _, _, _ => none
  | steps + 1, text, gap, cursor =>
    let part := plainPart inFlow cursor.rest
    let after := cursor.skip part.length
    if cursor.atDocumentMark || cursor.rest.head? = some '#' || part.isEmpty then
      some (text.reverse, !gap.breaks.isEmpty, cursor)
    else if inFlow && hasStrayColon (part ++ after.rest.take 1) then none
    else do
      let grown := (gap.folded ++ part).reverse ++ text
      let (next, place) ← readGap (some indentation) (steps + 1) after
      if next.spaces.isEmpty && next.breaks.isEmpty then return (grown.reverse, false, place)
      if !inFlow && place.column < indentation then
        return (grown.reverse, !next.breaks.isEmpty, place)
      readPlainFrom inFlow indentation steps grown next place

/-- Read a plain scalar. As for all scalars here, a step for each character and one more are
enough. -/
def readPlain (inFlow : Bool) (indentation steps : Nat) (cursor : Cursor) :
    Option (List Char × Bool × Cursor) :=
  readPlainFrom inFlow indentation steps [] ⟨[], []⟩ cursor

/-- The value of a hexadecimal digit. -/
def hexDigit? (c : Char) : Option Nat :=
  if c.isDigit then some (c.toNat - '0'.toNat)
  else if 'a' ≤ c && c ≤ 'f' then some (c.toNat - 'a'.toNat + 10)
  else if 'A' ≤ c && c ≤ 'F' then some (c.toNat - 'A'.toNat + 10)
  else none

/-- The character with a code of that many hexadecimal digits at the front of a text. -/
def hexChar? (digits : Nat) (text : List Char) : Option Char := do
  if text.length < digits then none
  let code ← (text.take digits).foldlM (fun code c => (hexDigit? c).map (16 * code + ·)) 0
  if code.isValidChar then some (.ofNat code) else none

/-- What the characters after a backslash stand for, and how many they are. -/
def escape? : List Char → Option (Char × Nat)
  | [] => none
  | c :: rest =>
    let simple := [('0', '\x00'), ('a', '\x07'), ('b', '\x08'), ('t', '\t'), ('\t', '\t'),
      ('n', '\n'), ('v', '\x0b'), ('f', '\x0c'), ('r', '\r'), ('e', '\x1b'), (' ', ' '),
      ('"', '"'), ('/', '/'), ('\\', '\\'), ('N', '\u0085'), ('_', '\u00a0'), ('L', '\u2028'),
      ('P', '\u2029')]
    match simple.lookup c with
    | some meaning => some (meaning, 1)
    | none =>
      let digits := [('x', 2), ('u', 4), ('U', 8)].lookup c
      digits.bind fun digits => (hexChar? digits rest).map fun meaning => (meaning, digits + 1)

/-- Read a scalar in double quotes on, after some of its text, in reverse. -/
def readDoubleFrom : (steps : Nat) → (text : List Char) → Cursor → Option (List Char × Cursor)
  | 0, _, _ => none
  | steps + 1, text, cursor =>
    if cursor.atDocumentMark then none
    else match cursor.rest with
      | [] => none
      | '"' :: _ => some (text.reverse, cursor.skip 1)
      | '\\' :: c :: rest =>
        if isBreak c then do
          let (gap, place) ← readGapFrom none (steps + 1) [] [c] (cursor.skip 1).nextLine
          readDoubleFrom steps ((gap.breaks.drop 1).reverse ++ text) place
        else do
          let (meaning, count) ← escape? (c :: rest)
          readDoubleFrom steps (meaning :: text) (cursor.skip (count + 1))
      | c :: rest =>
        if atGap (c :: rest) then do
          let (gap, place) ← readGap none (steps + 1) cursor
          readDoubleFrom steps (gap.folded.reverse ++ text) place
        else readDoubleFrom steps (c :: text) (cursor.skip 1)

/-- Read a scalar in single quotes on, after some of its text, in reverse. Two quotes stand for
one. -/
def readSingleFrom : (steps : Nat) → (text : List Char) → Cursor → Option (List Char × Cursor)
  | 0, _, _ => none
  | steps + 1, text, cursor =>
    if cursor.atDocumentMark then none
    else match cursor.rest with
      | [] => none
      | '\'' :: '\'' :: _ => readSingleFrom steps ('\'' :: text) (cursor.skip 2)
      | '\'' :: _ => some (text.reverse, cursor.skip 1)
      | c :: rest =>
        if atGap (c :: rest) then do
          let (gap, place) ← readGap none (steps + 1) cursor
          readSingleFrom steps (gap.folded.reverse ++ text) place
        else readSingleFrom steps (c :: text) (cursor.skip 1)

/-- Read a scalar in quotes, from its quote on. -/
def readQuoted (quote : Char) (steps : Nat) (cursor : Cursor) : Option (List Char × Cursor) :=
  if quote = '"' then readDoubleFrom steps [] (cursor.skip 1)
  else readSingleFrom steps [] (cursor.skip 1)

/-- What becomes of the line breaks at the end of a block: all go, one stays, or all stay. -/
inductive Chomping where
  | strip
  | clip
  | keep
  deriving DecidableEq

/-- The mark of a block scalar: whether its lines are kept, its chomping, and the indentation
beyond that of its parent, if it is written. -/
structure BlockStyle where
  literal : Bool
  chomping : Chomping
  increment : Option Nat

/-- The chomping that a character stands for. -/
def chomping? (c : Char) : Option Chomping :=
  if c = '+' then some .keep else if c = '-' then some .strip else none

/-- The style that the characters after the mark give, and how many they are. -/
def blockStyle (literal : Bool) (text : List Char) : BlockStyle × Nat :=
  let digit? := fun c : Char =>
    if c.isDigit && c != '0' then some (c.toNat - '0'.toNat) else none
  match text.head?.bind chomping?, text.head?.bind digit? with
  | some chomping, _ =>
    match (text.drop 1).head?.bind digit? with
    | some n => (⟨literal, chomping, some n⟩, 2)
    | none => (⟨literal, chomping, none⟩, 1)
  | none, some n =>
    match (text.drop 1).head?.bind chomping? with
    | some chomping => (⟨literal, chomping, some n⟩, 2)
    | none => (⟨literal, .clip, some n⟩, 1)
  | none, none => (⟨literal, .clip, none⟩, 0)

/-- Read empty lines of a block and the indentation of the line after them, after some breaks,
in reverse. Gives the breaks, the widest indentation, and the place. A tab in the indentation is
a failure. -/
def readEmptyLines (indentation : Option Nat) :
    (steps : Nat) → (breaks : List Char) → (widest : Nat) → Cursor →
      Option (List Char × Nat × Cursor)
  | 0, breaks, widest, cursor => some (breaks.reverse, widest, cursor)
  | steps + 1, breaks, widest, cursor =>
    let spaces := cursor.rest.takeWhile (· = ' ')
    let width := indentation.elim spaces.length fun n => min spaces.length (n - cursor.column)
    let place := cursor.skip width
    let reached := max widest place.column
    match place.rest with
    | c :: _ =>
      if c = '\t' && indentation.all (place.column < ·) then none
      else if isBreak c then readEmptyLines indentation steps (c :: breaks) reached place.nextLine
      else some (breaks.reverse, reached, place)
    | [] => some (breaks.reverse, reached, place)

/-- Read the lines of a block on, after some of its text, in reverse. `pending` is the break of
the last line, `breaks` the breaks of empty lines after it, and `indented` tells whether that line
started with a blank. Gives the text, and the breaks that its chomping is about. -/
def readBlockLines (literal : Bool) (indentation : Nat) :
    (steps : Nat) → (text pending breaks : List Char) → (indented : Bool) → Cursor →
      Option (List Char × List Char × List Char × Cursor)
  | 0, _, _, _, _, _ => none
  | steps + 1, text, pending, breaks, indented, cursor =>
    if cursor.column ≠ indentation || cursor.rest.isEmpty then
      some (text.reverse, pending, breaks, cursor)
    else
      let startsBlank := cursor.rest.head?.any isSpace
      let joint :=
        if !literal && pending = ['\n'] && !indented && !startsBlank then
          (if breaks.isEmpty then [' '] else [])
        else pending
      let (line, after) := cursor.run (!isBreak ·)
      let grown := (joint ++ breaks ++ line).reverse ++ text
      match after.rest with
      | [] => some (grown.reverse, [], [], after)
      | c :: _ => do
        let (next, _, place) ←
          readEmptyLines (some indentation) (steps + 1) [] 0 after.nextLine
        readBlockLines literal indentation steps grown [c] next startsBlank place

/-- Read a block scalar, from its mark on, in a collection of that indentation. -/
def readBlock (parent : Option Nat) (steps : Nat) (cursor : Cursor) :
    Option (List Char × Cursor) := do
  let (style, marks) := blockStyle (cursor.rest.head? = some '|') (cursor.rest.drop 1)
  let (_, afterMarks) := (cursor.skip (marks + 1)).run isSpace
  let atEnd := if afterMarks.rest.head? = some '#' then (afterMarks.run (!isBreak ·)).2 else afterMarks
  if !atEnd.rest.head?.all isBreak then none
  let body := if atEnd.rest.isEmpty then atEnd else atEnd.nextLine
  let written := style.increment.map (parent.getD 0 + ·)
  let (breaks, widest, place) ← readEmptyLines written steps [] 0 body
  let indentation := written.getD (max widest (max (parent.elim 0 (· + 1)) 1))
  let (text, pending, trailing, after) ←
    readBlockLines style.literal indentation steps [] [] breaks false place
  let ending := match style.chomping with
    | .strip => []
    | .clip => pending
    | .keep => pending ++ trailing
  return (text ++ ending, after)

end DirectiveMarkup.Yaml
