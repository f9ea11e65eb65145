import DirectiveMarkup.Markup.Forest
import DirectiveMarkup.Text.ByteSize

/-!
# Reading markup by bytes

The reader takes lexemes off the front of what is left of a markup. Here the same is done by a
scanner that keeps the whole markup and a byte offset into it. It looks at the markup through slices
between two offsets, which it finds by counting bytes and by searching, in a copy in lower case as
well, and it moves on by numbers of bytes, some of them fixed. All of this may go wrong: a slice that
ends beyond the markup, before it starts or inside a character stops the scanner, and so does a loop
that takes more steps than it was given.

The scanner keeps a record of where it stood and of every pass of its two loops.
-/

namespace DirectiveMarkup.Markup

open DirectiveMarkup.Text (breakAt byteSize isBlank)

/-! ## Slices -/

/-- A text cut in two at a byte offset. Inside a character and beyond the end it cannot be cut. -/
def splitBytes? : (bytes : Nat) → List Char → Option (List Char × List Char)
  | 0, text => some ([], text)
  | _ + 1, [] => none
  | bytes + 1, c :: rest =>
    if c.utf8Size ≤ bytes + 1 then
      (splitBytes? (bytes + 1 - c.utf8Size) rest).map fun (first, last) => (c :: first, last)
    else none

/-- The text between two byte offsets, in this order. -/
def slice? (start stop : Nat) (text : List Char) : Option (List Char) := do
  let (front, _) ← splitBytes? stop text
  let (_, part) ← splitBytes? start front
  return part

/-- The byte offset of the first occurrence of a pattern. -/
def find? (pattern text : List Char) : Option Nat :=
  (breakAt pattern text).map fun parts => byteSize parts.1

/-! ## The scanner -/

/-- The two loops of the scanner: over the lexemes of a markup, and over the attributes of a tag. -/
inductive Loop where
  | lexemes
  | attributes
  deriving DecidableEq, Repr

/-- What is recorded of a run, with byte offsets. Both loops first look whether anything is left to
read: if so there is a pass, and otherwise the loop ends. -/
inductive Event where
  | moved (offset : Nat)
  | passed (loop : Loop) (start stop : Nat)
  | ended (loop : Loop) (offset : Nat)
  deriving DecidableEq, Repr

/-- Why a scanner stops before its end. -/
inductive Breakdown where
  | badSlice
  | outOfSteps
  deriving DecidableEq, Repr

/-- Where a scanner stands, and its record, the latest event first. -/
structure Progress where
  offset : Nat
  events : List Event

/-- A computation that moves through a markup by byte offsets. -/
abbrev Scanner := ReaderT (List Char) (StateT Progress (Except Breakdown))

namespace Scanner

variable {α : Type}

/-- Add an event to the record. -/
def record (event : Event) : Scanner Unit :=
  modify fun progress => ⟨progress.offset, event :: progress.events⟩

/-- The byte offset at which the scanner stands. -/
def offset : Scanner Nat :=
  return (← get).offset

/-- Move on by a number of bytes. -/
def advance (bytes : Nat) : Scanner Unit :=
  modify fun progress => ⟨progress.offset + bytes, .moved (progress.offset + bytes) :: progress.events⟩

/-- A slice of a text, or a breakdown. -/
def slice (start stop : Nat) (text : List Char) : Scanner (List Char) :=
  match slice? start stop text with
  | some part => return part
  | none => throw .badSlice

/-- What is left to read. -/
def remaining : Scanner (List Char) := do
  let markup ← read
  slice (← offset) (byteSize markup) markup

/-- True at the end of the markup. -/
def atEnd : Scanner Bool :=
  return byteSize (← read) ≤ (← offset)

/-- Take the first bytes of what is left. -/
def takeBytes (bytes : Nat) : Scanner (List Char) := do
  let rest ← remaining
  advance bytes
  slice 0 bytes rest

/-- Take characters as long as they are of some kind. -/
def takeWhile (kind : Char → Bool) : Scanner (List Char) := do
  takeBytes (byteSize ((← remaining).takeWhile kind))

/-- Take the text up to the first occurrence of a mark, or all that is left. -/
def takeUntil (mark : List Char) : Scanner (List Char) := do
  let rest ← remaining
  takeBytes ((find? mark rest).getD (byteSize rest))

/-- Move on by a number of bytes, or to the end of the markup if fewer are left. -/
def advanceWithin (bytes : Nat) : Scanner Unit := do
  advance (min bytes (byteSize (← remaining)))

/-- Take the text up to a mark of that many bytes, and pass the mark if it is there. -/
def takePast (mark : List Char) (bytes : Nat) : Scanner (List Char) := do
  let text ← takeUntil mark
  advanceWithin bytes
  return text

/-- Pass over blanks. -/
def skipBlanks : Scanner Unit := do
  let _ ← takeWhile isBlank

/-- The part of the markup that a computation moves over. -/
def spanned (body : Scanner Unit) : Scanner (List Char) := do
  let start ← offset
  body
  slice start (← offset) (← read)

/-- One turn of a loop: look whether anything is left, and if so make a pass. -/
def turn (loop : Loop) (look : Scanner Bool) (body : Scanner α) : Scanner (Option α) := do
  let start ← offset
  if ← look then
    let value ← body
    record (.passed loop start (← offset))
    return some value
  else
    record (.ended loop (← offset))
    return none

/-! ## Tags -/

/-- An attribute value behind its equals sign. -/
def readValue : Scanner (List Char) := do
  match (← remaining).head?.filter fun c => c = '"' || c = '\'' with
  | some quote =>
    advance 1
    let value ← takeWhile (· != quote)
    advanceWithin 1
    return value
  | none => takeWhile isBareValueChar

/-- The equals sign and value that may stand behind a name. -/
def readAssignment : Scanner (List Char) := do
  if ['='].isPrefixOf (← remaining) then
    advance 1
    skipBlanks
    readValue
  else return []

/-- What one pass of the loop over attributes finds: an attribute, a mark that says nothing, or the end
of the tag. -/
inductive Found where
  | assigned (a : Attribute)
  | junk
  | ending (selfClosing : Bool)

/-- One pass of the loop over attributes, in front of what is no blank. -/
def readInTag : Scanner Found := do
  let rest ← remaining
  if ['/', '>'].isPrefixOf rest then
    advance 2
    return .ending true
  else if ['>'].isPrefixOf rest then
    advance 1
    return .ending false
  else if ['/'].isPrefixOf rest then
    advance 1
    return .junk
  else
    let name ← takeWhile isAttributeNameChar
    if name.isEmpty then
      advance 1
      return .junk
    else
      skipBlanks
      return .assigned ⟨.ofList name, .ofList (← readAssignment)⟩

/-- Pass over blanks and look whether anything is left. -/
def lookInTag : Scanner Bool := do
  skipBlanks
  return !(← remaining).isEmpty

/-- The loop over the attributes of a tag. It gives the attributes and whether the tag ends with a
slash. -/
def readAttributes : (steps : Nat) → Scanner (List Attribute × Bool)
  | 0 => throw .outOfSteps
  | steps + 1 => do
    match ← turn .attributes lookInTag readInTag with
    | none => return ([], false)
    | some (.ending selfClosing) => return ([], selfClosing)
    | some .junk => readAttributes steps
    | some (.assigned a) =>
      let (attributes, selfClosing) ← readAttributes steps
      return (a :: attributes, selfClosing)

/-- The content of a raw-text element, which ends where its closing tag is found in a copy of the rest
in lower case. -/
def readRawText (name : String) : Scanner (List Char) := do
  let rest ← remaining
  let mark := '<' :: '/' :: name.toList
  let stop := (find? mark (rest.map Char.toLower)).getD (byteSize rest)
  let text ← takeBytes stop
  if ← atEnd then return text
  else
    let _ ← takePast ['>'] 1
    return text

/-- The lexeme of an opening tag, from its name on. -/
def readOpening (steps : Nat) : Scanner Lexeme := do
  let written ← takeWhile isTagNameChar
  let (attributes, selfClosing) ← readAttributes steps
  let tag : Tag := ⟨.ofList written, attributes⟩
  let name := asciiLower tag.name
  if selfClosing || isVoid name then return .leaf tag
  else if rawTextTags.contains name then return .raw tag (.ofList (← readRawText name))
  else return .opening tag

/-! ## Lexemes -/

/-- True where a mark of that many bytes stands in front of a letter. -/
def atTag (mark : List Char) (bytes : Nat) : Scanner Bool := do
  let rest ← remaining
  if mark.isPrefixOf rest then
    let behind ← slice bytes (byteSize rest) rest
    return behind.head?.any Char.isAlpha
  else return false

/-- One pass of the loop over lexemes. -/
def readLexeme (steps : Nat) : Scanner Lexeme := do
  let rest ← remaining
  if ['<', '!', '-', '-'].isPrefixOf rest then
    advance 4
    return .comment (.ofList (← takePast ['-', '-', '>'] 3))
  else if ['<', '!'].isPrefixOf rest || ['<', '?'].isPrefixOf rest then
    let _ ← takePast ['>'] 1
    return .declaration
  else if ← atTag ['<', '/'] 2 then
    advance 2
    let name ← takeWhile fun c => !isBlank c && c != '>'
    let _ ← takePast ['>'] 1
    return .closing (.ofList name)
  else if ← atTag ['<'] 1 then
    advance 1
    readOpening steps
  else
    let text ← spanned do
      advance (rest.head?.elim 1 Char.utf8Size)
      let _ ← takeUntil ['<']
    return .text (.ofList text)

/-- The loop over lexemes, in which every loop over attributes has `inner` steps. -/
def readLexemes (inner : Nat) : (steps : Nat) → Scanner (List Lexeme)
  | 0 => throw .outOfSteps
  | steps + 1 => do
    match ← turn .lexemes (return !(← atEnd)) (readLexeme inner) with
    | none => return []
    | some lexeme => return lexeme :: (← readLexemes inner steps)

end Scanner

/-- Read markup by bytes, with one step more for each loop than there are bytes. A run that does not
break down gives the forest and the record. -/
def scan (markup : String) : Except Breakdown (List Node × List Event) := do
  let steps := byteSize markup.toList + 1
  let (lexemes, progress) ← ((Scanner.readLexemes steps steps).run markup.toList).run ⟨0, [.moved 0]⟩
  return (build (lexemes.filterMap Lexeme.step?), progress.events)

end DirectiveMarkup.Markup
