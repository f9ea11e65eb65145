import DirectiveMarkup.Yaml.Scalar

/-!
# Tokens of YAML

A text is cut into tokens. Block collections are opened and closed by indentation alone, so the
tokens that open and close them stand for no characters.

The key of a mapping entry is recognised when the colon after it is met. Until then the place
where it may have started is kept as a candidate, one for the block and one for each open
bracket. A candidate is lost at the end of its line; one that starts an entry of a block mapping
must not be lost. When the colon comes, the key token is put in front of the tokens of the
candidate.

Anchors, aliases, tags and directives are not supported: a text that uses them is malformed.
-/

namespace DirectiveMarkup.Yaml

/-- A token. A scalar tells whether it is plain. -/
inductive Token where
  | documentStart
  | documentEnd
  | sequenceStart
  | mappingStart
  | blockEnd
  | bracket
  | bracketEnd
  | brace
  | braceEnd
  | item
  | comma
  | key
  | value
  | scalar (plain : Bool) (text : String)
  deriving DecidableEq, Repr

/-- Where a key may have started: before which token, on which line, at which column, after how
many bytes of the line, and whether it must be a key. -/
structure KeyCandidate where
  token : Nat
  line : Nat
  column : Nat
  bytes : Nat
  required : Bool

/-- How far a text is cut into tokens. The tokens are in reverse and counted, since most of what
is done to them is done near their end. -/
structure Scan where
  cursor : Cursor
  latest : List Token
  count : Nat
  indents : List Nat
  candidate : Option KeyCandidate
  outerCandidates : List (Option KeyCandidate)
  keyAllowed : Bool

/-- The largest distance in bytes between the start of a key and its colon. -/
def maxKeyLength : Nat := 1024

namespace Scan

/-- Nothing is read. -/
def start (text : List Char) : Scan := ⟨.start text, [], 0, [], none, [], true⟩

/-- True inside brackets or braces. -/
def inFlow (s : Scan) : Bool := !s.outerCandidates.isEmpty

/-- Add a token. -/
def emit (token : Token) (s : Scan) : Scan :=
  { s with latest := token :: s.latest, count := s.count + 1 }

/-- Add a token that stands for some characters. -/
def emitOver (token : Token) (width : Nat) (s : Scan) : Scan :=
  { s.emit token with cursor := s.cursor.skip width }

/-- Put a token in front of the token at a position. -/
def insertAt (position : Nat) (token : Token) (s : Scan) : Scan :=
  let behind := s.count - position
  { s with
    latest := s.latest.take behind ++ token :: s.latest.drop behind
    count := s.count + 1 }

/-- Skip blanks, comments and line breaks, and a byte order mark in front of a line. A line break
in block context allows a key again, and a tab is no blank where a key may start. Each step skips
a line. -/
def skipToToken : (steps : Nat) → Scan → Scan
  | 0, s => s
  | steps + 1, s =>
    let gap := fun c => c = ' ' || (c = '\t' && (s.inFlow || !s.keyAllowed))
    let (_, afterBlanks) := s.cursor.skipByteOrderMark.run gap
    let place := if afterBlanks.rest.head? = some '#' then (afterBlanks.run (!isBreak ·)).2 else afterBlanks
    if !place.rest.isEmpty && place.rest.head?.any isBreak then
      skipToToken steps
        { s with cursor := place.nextLine, keyAllowed := if s.inFlow then s.keyAllowed else true }
    else { s with cursor := place }

/-- A candidate that is still on the line and near enough; a required one must be. -/
def refresh (cursor : Cursor) (candidate : Option KeyCandidate) :
    Option (Option KeyCandidate) :=
  match candidate with
  | none => some none
  | some c =>
    if c.line < cursor.line || c.bytes + maxKeyLength < cursor.bytes then
      (if c.required then none else some none)
    else some candidate

/-- Drop the candidates that can be keys no more. -/
def dropStale (s : Scan) : Option Scan := do
  let candidate ← refresh s.cursor s.candidate
  let outer ← s.outerCandidates.mapM (refresh s.cursor)
  return { s with candidate := candidate, outerCandidates := outer }

/-- Give up the current candidate, which must not be required. -/
def dropCandidate (s : Scan) : Option Scan :=
  if s.candidate.any KeyCandidate.required then none else some { s with candidate := none }

/-- Remember that a key may start here. -/
def saveCandidate (s : Scan) : Option Scan :=
  if s.keyAllowed then do
    let s ← s.dropCandidate
    let required := !s.inFlow && s.indents.head? = some s.cursor.column
    let candidate : KeyCandidate :=
      ⟨s.count, s.cursor.line, s.cursor.column, s.cursor.bytes, required⟩
    return { s with candidate := some candidate }
  else some s

/-- The number of open block collections that start right of a column. -/
def deeperThan (column : Nat) (indents : List Nat) : Nat :=
  (indents.takeWhile (column < ·)).length

/-- Close that many block collections. -/
def closeBlocks (count : Nat) (s : Scan) : Scan :=
  { s with
    latest := List.replicate count .blockEnd ++ s.latest
    count := s.count + count
    indents := s.indents.drop count }

/-- Close the block collections that start right of the cursor. -/
def unroll (s : Scan) : Scan :=
  if s.inFlow then s else s.closeBlocks (deeperThan s.cursor.column s.indents)

/-- Close all block collections. -/
def unrollAll (s : Scan) : Scan :=
  if s.inFlow then s else s.closeBlocks s.indents.length

/-- Open a block collection at a column, with its token in front of the one at a position,
unless one starts there or further right already. -/
def roll (column position : Nat) (token : Token) (s : Scan) : Scan :=
  if s.inFlow || s.indents.head?.any (column ≤ ·) then s
  else { s.insertAt position token with indents := column :: s.indents }

/-- A mark between documents. -/
def documentMark (token : Token) (s : Scan) : Option Scan := do
  let s ← s.unrollAll.dropCandidate
  return { s.emitOver token 3 with keyAllowed := false }

/-- An opening bracket or brace. -/
def openFlow (token : Token) (s : Scan) : Option Scan := do
  let s ← s.saveCandidate
  return { s.emitOver token 1 with
    outerCandidates := s.candidate :: s.outerCandidates, candidate := none, keyAllowed := true }

/-- A closing bracket or brace. -/
def closeFlow (token : Token) (s : Scan) : Option Scan := do
  let s ← s.dropCandidate
  let closed : Scan := match s.outerCandidates with
    | [] => s
    | outer :: rest => { s with candidate := outer, outerCandidates := rest }
  return { closed.emitOver token 1 with keyAllowed := false }

/-- A comma. -/
def comma (s : Scan) : Option Scan := do
  let s ← s.dropCandidate
  return { s.emitOver .comma 1 with keyAllowed := true }

/-- The dash in front of an item of a block sequence. -/
def item (s : Scan) : Option Scan := do
  if !s.inFlow && !s.keyAllowed then none
  let s ← (s.roll s.cursor.column s.count .sequenceStart).dropCandidate
  return { s.emitOver .item 1 with keyAllowed := true }

/-- The question mark in front of a key. -/
def explicitKey (s : Scan) : Option Scan := do
  if !s.inFlow && !s.keyAllowed then none
  let s ← (s.roll s.cursor.column s.count .mappingStart).dropCandidate
  return { s.emitOver .key 1 with keyAllowed := !s.inFlow }

/-- The colon behind a key. -/
def colon (s : Scan) : Option Scan :=
  match s.candidate with
  | some c =>
    let keyed := (s.insertAt c.token .key).roll c.column c.token .mappingStart
    some { keyed.emitOver .value 1 with candidate := none, keyAllowed := false }
  | none =>
    if !s.inFlow && !s.keyAllowed then none
    else
      let rolled := s.roll s.cursor.column s.count .mappingStart
      some { rolled.emitOver .value 1 with keyAllowed := !s.inFlow }

section Reading

variable (steps : Nat)

/-- A scalar in quotes. -/
def quoted (quote : Char) (s : Scan) : Option Scan := do
  let s ← s.saveCandidate
  let (text, after) ← readQuoted quote steps s.cursor
  return { s.emit (.scalar false (.ofList text)) with cursor := after, keyAllowed := false }

/-- A block scalar. -/
def block (s : Scan) : Option Scan := do
  let s ← s.dropCandidate
  let (text, after) ← readBlock s.indents.head? steps s.cursor
  return { s.emit (.scalar false (.ofList text)) with cursor := after, keyAllowed := true }

/-- A plain scalar. A key may follow it on a later line. -/
def plain (s : Scan) : Option Scan := do
  let s ← s.saveCandidate
  let (text, onLaterLine, after) ←
    readPlain s.inFlow (s.indents.head?.elim 0 (· + 1)) steps s.cursor
  return { s.emit (.scalar true (.ofList text)) with cursor := after, keyAllowed := onLaterLine }

/-- True where a plain scalar may start: not at a blank, and at some marks only if what follows
does not make them one. -/
def startsPlain (inFlow : Bool) (c : Char) (rest : List Char) : Bool :=
  !(isSpace c || "-?:,[]\x7b\x7d#&*!|>'\"%@\x60".toList.contains c) ||
    (c = '-' && !rest.head?.any isSpace) || (!inFlow && (c = '?' || c = ':') && !atGap rest)

/-- Read the token that starts with a character. -/
def token (c : Char) (rest : List Char) (s : Scan) : Option Scan :=
  if s.cursor.column = 0 && c = '%' then none
  else if s.cursor.atDocumentMark then
    s.documentMark (if c = '-' then .documentStart else .documentEnd)
  else if c = '[' then s.openFlow .bracket
  else if c = '{' then s.openFlow .brace
  else if c = ']' then s.closeFlow .bracketEnd
  else if c = '}' then s.closeFlow .braceEnd
  else if c = ',' then s.comma
  else if c = '-' && atGap rest then s.item
  else if c = '?' && (s.inFlow || atGap rest) then s.explicitKey
  else if c = ':' && (s.inFlow || atGap rest) then s.colon
  else if (c = '|' || c = '>') && !s.inFlow then s.block steps
  else if c = '\'' || c = '"' then s.quoted steps c
  else if startsPlain s.inFlow c rest then s.plain steps
  else none

end Reading

/-- Cut the rest of a text into tokens. Each step but the last uses up a character, and no part
of a token needs more steps than are left. -/
def run : (steps : Nat) → Scan → Option (List Token)
  | 0, _ => none
  | steps + 1, s => do
    let s ← (s.skipToToken (steps + 1)).dropStale
    match s.cursor.rest with
    | [] => (·.latest.reverse) <$> s.unrollAll.dropCandidate
    | c :: rest => run steps (← s.unroll.token (steps + 1) c rest)

end Scan

/-- The tokens of a text, unless it is malformed. -/
def tokens? (text : String) : Option (List Token) :=
  let chars := text.toList
  if chars.all isPrintable then
    let chars := normaliseBreaks chars
    (Scan.start chars).run (chars.length + 1)
  else none

end DirectiveMarkup.Yaml
