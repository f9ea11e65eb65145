import DirectiveMarkup.Proofs.Canonical
import DirectiveMarkup.Proofs.Walk

/-!
# Pieces of markup

How markup is divided, said without the reader. A piece is a text, a comment, a declaration, a
closing tag, an opening tag, or the content of a raw-text element together with its closing tag. It
keeps every character that it is written with: names, values and bodies, the blanks and stray marks
between them, the kind of its quotes, and whether its end is there or the markup ended first. So
pieces in a row spell out markup, and what they say is a part of what they spell.

A piece fits in front of what follows it when it could not go on into it: a name ends where no
character of a name follows, a comment at its first end mark. Only at the end of markup may a piece
lack its end.
-/

namespace DirectiveMarkup.Markup

open DirectiveMarkup.Text (isBlank)

/-- The mark that ends a piece, if it is there. -/
def endMark (mark : List Char) (closed : Bool) : List Char :=
  if closed then mark else []

/-- A text does not start with a character of some kind. -/
def StartsNot (kind : Char → Bool) (text : List Char) : Prop :=
  ∀ c ∈ text.head?, kind c = false

/-- Nothing starts with no character. -/
theorem startsNot_nil (kind : Char → Bool) : StartsNot kind [] :=
  fun _ hc => nomatch hc

/-- True of the characters that are passed over in front of an attribute. -/
def isJunk (c : Char) : Bool :=
  isBlank c || c = '/' || c = '='

/-! ## Attributes -/

/-- A value as it is written behind an equals sign: bare, or between quotes of one kind. -/
inductive WrittenValue where
  | bare (content : List Char)
  | quoted (quote : Char) (content : List Char) (closed : Bool)

namespace WrittenValue

/-- The value with its quotes. -/
def source : WrittenValue → List Char
  | bare content => content
  | quoted quote content closed => quote :: (content ++ endMark [quote] closed)

/-- The value without quotes. -/
def content : WrittenValue → List Char
  | bare content => content
  | quoted _ content _ => content

/-- A value is written so in front of the rest. -/
def Fits : WrittenValue → (rest : List Char) → Prop
  | bare content, rest =>
    (∀ c ∈ content, isBareValueChar c) ∧ StartsNot isBareValueChar rest ∧
      StartsNot (fun c => isBlank c || c = '"' || c = '\'') (content ++ rest)
  | quoted quote content closed, rest =>
    (quote = '"' ∨ quote = '\'') ∧ quote ∉ content ∧ (closed = false → rest = [])

end WrittenValue

/-- What gives an attribute its value. Blanks may stand on both sides of the equals sign. -/
inductive Assignment where
  | missing
  | equals (gap inset : List Char) (value : WrittenValue)

namespace Assignment

/-- The assignment with all that it is written with. -/
def source : Assignment → List Char
  | missing => []
  | equals gap inset value => gap ++ '=' :: (inset ++ value.source)

/-- The value that is assigned, or the empty one. -/
def content : Assignment → List Char
  | missing => []
  | equals _ _ value => value.content

/-- An assignment is written so, behind a name and in front of the rest. -/
def Fits : Assignment → (rest : List Char) → Prop
  | missing, rest => StartsNot isAttributeNameChar rest ∧ StartsNot (· = '=') (rest.dropWhile isBlank)
  | equals gap inset value, rest =>
    (∀ c ∈ gap, isBlank c) ∧ (∀ c ∈ inset, isBlank c) ∧ value.Fits rest

end Assignment

/-- An attribute as it is written, with what is passed over in front of it. -/
structure WrittenAttribute where
  junk : List Char
  name : List Char
  assignment : Assignment

namespace WrittenAttribute

/-- The attribute with all that it is written with. -/
def source (a : WrittenAttribute) : List Char :=
  a.junk ++ (a.name ++ a.assignment.source)

/-- The attribute that is written. -/
def toAttribute (a : WrittenAttribute) : Attribute :=
  ⟨.ofList a.name, .ofList a.assignment.content⟩

/-- An attribute is written so in front of the rest. -/
structure Fits (a : WrittenAttribute) (rest : List Char) : Prop where
  junk : ∀ c ∈ a.junk, isJunk c
  named : a.name ≠ []
  name : ∀ c ∈ a.name, isAttributeNameChar c
  assignment : a.assignment.Fits rest

end WrittenAttribute

/-! ## Tags -/

/-- How an opening tag ends. -/
inductive TagEnd where
  | angle
  | slashAngle
  | missing
  deriving DecidableEq

/-- The end of an opening tag as it is written. -/
def TagEnd.source : TagEnd → List Char
  | angle => ['>']
  | slashAngle => ['/', '>']
  | missing => []

/-- What is written in an opening tag behind its name. -/
structure TagTail where
  attributes : List WrittenAttribute
  junk : List Char
  ending : TagEnd

namespace TagTail

/-- All that is written behind the name. -/
def source (tail : TagTail) : List Char :=
  tail.attributes.flatMap WrittenAttribute.source ++ (tail.junk ++ tail.ending.source)

/-- Attributes are written so in front of the rest. -/
def AttributesFit : List WrittenAttribute → (rest : List Char) → Prop
  | [], _ => True
  | a :: others, rest =>
    a.Fits (others.flatMap WrittenAttribute.source ++ rest) ∧ AttributesFit others rest

/-- The end of an opening tag is written so in front of the rest. A slash right in front of the angle
bracket belongs to it. -/
structure Fits (tail : TagTail) (rest : List Char) : Prop where
  attributes : AttributesFit tail.attributes (tail.junk ++ (tail.ending.source ++ rest))
  junk : ∀ c ∈ tail.junk, isJunk c
  slash : tail.ending = .angle → tail.junk.getLast? ≠ some '/'
  missing : tail.ending = .missing → rest = []

end TagTail

/-- An opening tag as it is written. -/
structure WrittenTag where
  name : List Char
  tail : TagTail

namespace WrittenTag

/-- The opening tag with all that it is written with. -/
def source (written : WrittenTag) : List Char :=
  '<' :: (written.name ++ written.tail.source)

/-- The tag that is written. -/
def toTag (written : WrittenTag) : Tag :=
  ⟨.ofList written.name, written.tail.attributes.map WrittenAttribute.toAttribute⟩

/-- True of an opening tag that raw text follows. -/
def startsRawText (written : WrittenTag) : Bool :=
  written.tail.ending != .slashAngle && isRawText written.toTag.name

/-- An opening tag is written so in front of the rest. -/
structure Fits (written : WrittenTag) (rest : List Char) : Prop where
  name : IsTagName written.name
  ends : StartsNot isTagNameChar (written.tail.source ++ rest)
  tail : written.tail.Fits rest

end WrittenTag

/-- A closing tag as it is written. What stands between its name and its end says nothing. -/
structure WrittenClosing where
  name : List Char
  gap : List Char
  closed : Bool

namespace WrittenClosing

/-- The closing tag with all that it is written with. -/
def source (written : WrittenClosing) : List Char :=
  '<' :: '/' :: (written.name ++ (written.gap ++ endMark ['>'] written.closed))

/-- A closing tag ends at the first angle bracket behind its name, or at the end of markup. -/
structure Ends (written : WrittenClosing) (rest : List Char) : Prop where
  gap : '>' ∉ written.gap
  missing : written.closed = false → rest = []

/-- A closing tag is written so in front of the rest. -/
structure Fits (written : WrittenClosing) (rest : List Char) : Prop extends written.Ends rest where
  start : ∃ c others, written.name = c :: others ∧ c.isAlpha
  name : ∀ c ∈ written.name, isBlank c = false ∧ c ≠ '>'
  apart : ∀ c ∈ written.gap.head?, isBlank c

end WrittenClosing

/-! ## Pieces -/

/-- A piece of markup as it is written. The content of a raw-text element has its closing tag with
it, unless the markup ends first. -/
inductive Piece where
  | text (content : List Char)
  | comment (body : List Char) (closed : Bool)
  | declaration (mark : Char) (inside : List Char) (closed : Bool)
  | closing (written : WrittenClosing)
  | opening (written : WrittenTag)
  | rawText (body : List Char) (ending : Option WrittenClosing)

namespace Piece

/-- The piece with all that it is written with. -/
def source : Piece → List Char
  | text content => content
  | comment body closed => '<' :: '!' :: '-' :: '-' :: (body ++ endMark ['-', '-', '>'] closed)
  | declaration mark inside closed => '<' :: mark :: (inside ++ endMark ['>'] closed)
  | closing written => written.source
  | opening written => written.source
  | rawText body ending => body ++ ending.elim [] WrittenClosing.source

/-- The nodes that a piece starts. Declarations and closing tags start none. -/
def entries : Piece → List Entry
  | text content => [.text (.ofList content)]
  | comment body _ => [.comment (.ofList body)]
  | declaration _ _ _ => []
  | closing _ => []
  | opening written => [.element written.toTag]
  | rawText body _ => if body.isEmpty then [] else [.text (.ofList body)]

end Piece

/-- The markup that pieces spell out. -/
def spelled (pieces : List Piece) : List Char :=
  pieces.flatMap Piece.source

/-- A text is written so in front of the rest: it goes on up to the next angle bracket, and an angle
bracket in front of it opens nothing. -/
structure TextFits (content rest : List Char) : Prop where
  isContent : IsContent content
  upToAngle : endsText rest
  opensNot : ∀ body, content = '<' :: body → ¬ Opens (body ++ rest)

/-- The content of a raw-text element is written so in front of the rest: it goes on up to the first
closing tag of the element in any ASCII case, or to the end of markup. -/
structure RawTextFits (tag : Tag) (body : List Char) (ending : Option WrittenClosing)
    (rest : List Char) : Prop where
  first : ¬ '<' :: '/' :: (asciiLower tag.name).toList <:+: body.map Char.toLower
  missing : ending = none → rest = []
  ends : ∀ written ∈ ending, written.Ends rest
  name : ∀ written ∈ ending, asciiLower (.ofList written.name) = asciiLower tag.name

/-- Pieces that divide the markup which they spell out: each fits in front of what follows, and raw
text stands behind the opening tags that it belongs to and nowhere else. -/
inductive Divided : List Piece → Prop
  | nil : Divided []
  | text {content : List Char} {pieces : List Piece} : TextFits content (spelled pieces) →
      Divided pieces → Divided (.text content :: pieces)
  | comment {body : List Char} {closed : Bool} {pieces : List Piece} :
      ¬ ['-', '-', '>'] <:+: body → (closed = false → spelled pieces = []) →
      Divided pieces → Divided (.comment body closed :: pieces)
  | declaration {mark : Char} {inside : List Char} {closed : Bool} {pieces : List Piece} :
      mark = '!' ∧ ¬ ['-', '-'] <+: inside ∨ mark = '?' → '>' ∉ inside →
      (closed = false → spelled pieces = []) →
      Divided pieces → Divided (.declaration mark inside closed :: pieces)
  | closing {written : WrittenClosing} {pieces : List Piece} : written.Fits (spelled pieces) →
      Divided pieces → Divided (.closing written :: pieces)
  | opening {written : WrittenTag} {pieces : List Piece} : written.Fits (spelled pieces) →
      written.startsRawText = false → Divided pieces → Divided (.opening written :: pieces)
  | raw {written : WrittenTag} {body : List Char} {ending : Option WrittenClosing}
      {pieces : List Piece} : written.Fits (spelled (.rawText body ending :: pieces)) →
      written.startsRawText → RawTextFits written.toTag body ending (spelled pieces) →
      Divided pieces → Divided (.opening written :: .rawText body ending :: pieces)

end DirectiveMarkup.Markup
