import DirectiveMarkup.Text.ByteSize

/-!
# Places in a YAML text

A cursor is a place in a text: the characters from there on, with the line, and the column and
the number of bytes before it on that line. A text holds printable characters only, and its line
breaks are normalised before it is read.
-/

namespace DirectiveMarkup.Yaml

/-- Normalise the line breaks of a text after what is already `written`, in reverse. -/
def normaliseAfter (written : List Char) : List Char → List Char
  | [] => written.reverse
  | '\r' :: '\n' :: rest => normaliseAfter ('\n' :: written) rest
  | c :: rest => normaliseAfter ((if c = '\r' || c = '\u0085' then '\n' else c) :: written) rest

/-- Write every carriage return, every pair of carriage return and line feed, and every next-line
character as a line feed. -/
def normaliseBreaks (text : List Char) : List Char :=
  normaliseAfter [] text

/-- True of the characters that a text may hold. -/
def isPrintable (c : Char) : Bool :=
  let code := c.toNat
  code == 0x09 || code == 0x0A || code == 0x0D || (0x20 ≤ code && code ≤ 0x7E) || code == 0x85 ||
    (0xA0 ≤ code && code ≤ 0xFFFD) || 0x10000 ≤ code

/-- Line breaks, once they are normalised. -/
def isBreak (c : Char) : Bool :=
  c = '\n' || c = '\u2028' || c = '\u2029'

/-- Blanks within a line. -/
def isSpace (c : Char) : Bool :=
  c = ' ' || c = '\t'

/-- True where nothing, a blank or a line break comes next. -/
def atGap : List Char → Bool
  | [] => true
  | c :: _ => isSpace c || isBreak c

/-- A place in a text. -/
structure Cursor where
  rest : List Char
  line : Nat
  column : Nat
  bytes : Nat

namespace Cursor

/-- Go on by a number of characters on the same line. -/
def skip (count : Nat) (cursor : Cursor) : Cursor :=
  ⟨cursor.rest.drop count, cursor.line, cursor.column + count,
    cursor.bytes + Text.byteSize (cursor.rest.take count)⟩

/-- The start of a text. -/
def start (text : List Char) : Cursor := ⟨text, 0, 0, 0⟩

/-- Go over a byte order mark at the start of a line. It takes up a column. -/
def skipByteOrderMark (cursor : Cursor) : Cursor :=
  if cursor.column = 0 && cursor.rest.head? = some '\ufeff' then cursor.skip 1 else cursor

/-- Go on to the next line, over one line break. -/
def nextLine (cursor : Cursor) : Cursor :=
  ⟨cursor.rest.drop 1, cursor.line + 1, 0, 0⟩

/-- The longest run of characters of a class, which holds no line break, and the place after
it. -/
def run (p : Char → Bool) (cursor : Cursor) : List Char × Cursor :=
  let found := cursor.rest.takeWhile p
  (found, cursor.skip found.length)

/-- True where `---` or `...` stands at the start of a line, with a gap behind. -/
def atDocumentMark (cursor : Cursor) : Bool :=
  cursor.column == 0 &&
    match cursor.rest with
    | '-' :: '-' :: '-' :: rest | '.' :: '.' :: '.' :: rest => atGap rest
    | _ => false

end Cursor

/-- The blanks and line breaks between two parts of a scalar. The blanks of later lines do not
count. -/
structure Gap where
  spaces : List Char
  breaks : List Char

/-- What a gap leaves in the text of a scalar: one break becomes a space, more become one
less. -/
def Gap.folded (gap : Gap) : List Char :=
  match gap.breaks with
  | [] => gap.spaces
  | '\n' :: [] => [' ']
  | '\n' :: more => more
  | breaks => breaks

/-- Read a gap, after the blanks of its first line and its breaks so far, in reverse. Where an
indentation is given, a tab in front of it on a later line is a failure. Each step reads a line,
so a step for each character is enough. -/
def readGapFrom (indentation : Option Nat) :
    (steps : Nat) → (spaces breaks : List Char) → Cursor → Option (Gap × Cursor)
  | 0, spaces, breaks, cursor => some (⟨spaces, breaks.reverse⟩, cursor)
  | steps + 1, spaces, breaks, cursor =>
    let (found, after) := cursor.run isSpace
    let abused := !breaks.isEmpty &&
      indentation.any fun column => (found.take (column - cursor.column)).contains '\t'
    let spaces := if breaks.isEmpty then found else spaces
    if abused then none
    else match after.rest with
      | c :: _ =>
        if isBreak c then readGapFrom indentation steps spaces (c :: breaks) after.nextLine
        else some (⟨spaces, breaks.reverse⟩, after)
      | [] => some (⟨spaces, breaks.reverse⟩, after)

/-- Read a gap. -/
def readGap (indentation : Option Nat) (steps : Nat) (cursor : Cursor) : Option (Gap × Cursor) :=
  readGapFrom indentation steps [] [] cursor

end DirectiveMarkup.Yaml
