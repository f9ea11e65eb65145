import DirectiveMarkup.Markup.Node
import DirectiveMarkup.Text.Blank

/-!
# Lexemes of markup

Markup is cut into consecutive lexemes, and every text can be cut: what opens no tag, comment
or declaration is text. A tag name starts with an ASCII letter. A comment, declaration, tag
or quoted value that is not ended runs to the end of the markup.

The elements `style`, `script` and `textarea` hold raw text: what follows their opening tag, up
to their closing tag in any ASCII case, belongs to the same lexeme.
-/

namespace DirectiveMarkup.Markup

open DirectiveMarkup.Text (isBlank)

/-- A piece of markup, with what it says. -/
inductive Lexeme where
  | text (content : String)
  | comment (body : String)
  | declaration
  | closing (name : String)
  | opening (tag : Tag)
  | leaf (tag : Tag)
  | raw (tag : Tag) (body : String)
  deriving DecidableEq, Repr

/-- The elements whose content is kept as one text. -/
def rawTextTags : List String := ["style", "script", "textarea"]

/-- The text in ASCII lower case. -/
def asciiLower (text : String) : String :=
  .ofList (text.toList.map Char.toLower)

/-- What stands before the first occurrence of a pattern and what stands after it. Without an
occurrence all of the text stands before. -/
def upTo (pattern text : List Char) : List Char × List Char :=
  (Text.breakAt pattern text).getD (text, [])

/-- True of the characters of a tag name. -/
def isTagNameChar (c : Char) : Bool :=
  !isBlank c && c != '/' && c != '>'

/-- True of the characters of an attribute name. -/
def isAttributeNameChar (c : Char) : Bool :=
  !isBlank c && c != '=' && c != '>' && c != '/'

/-- True of the characters of a value without quotes. -/
def isBareValueChar (c : Char) : Bool :=
  !isBlank c && c != '>'

/-- An attribute value after its equals sign: in quotes of either kind, or bare. -/
def readValue (text : List Char) : List Char × List Char :=
  match text with
  | [] => ([], [])
  | quote :: rest =>
    if quote = '"' || quote = '\'' then
      (rest.takeWhile (· != quote), (rest.dropWhile (· != quote)).drop 1)
    else (text.takeWhile isBareValueChar, text.dropWhile isBareValueChar)

/-- The equals sign and value that may follow an attribute name. -/
def readAssignment (text : List Char) : List Char × List Char :=
  match text with
  | '=' :: rest => readValue (rest.dropWhile isBlank)
  | rest => ([], rest)

/-- The attributes of an opening tag, whether it ends with `/>`, and what follows it. Stray
slashes and equals signs are passed over. Each step but the last uses up a character, so a
step for each character and one more are enough. -/
def readAttributes : (steps : Nat) → List Char → List Attribute × Bool × List Char
  | 0, text => ([], false, text)
  | steps + 1, text =>
    match text.dropWhile isBlank with
    | [] => ([], false, [])
    | '/' :: '>' :: rest => ([], true, rest)
    | '>' :: rest => ([], false, rest)
    | c :: rest =>
      let name := (c :: rest).takeWhile isAttributeNameChar
      if name.isEmpty then readAttributes steps rest
      else
        let afterName := (c :: rest).dropWhile isAttributeNameChar
        let (value, afterValue) := readAssignment (afterName.dropWhile isBlank)
        let (attributes, selfClosing, after) := readAttributes steps afterValue
        (⟨.ofList name, .ofList value⟩ :: attributes, selfClosing, after)

/-- The content of a raw-text element, and what follows its closing tag. -/
def readRawText (name : String) (text : List Char) : List Char × List Char :=
  match Text.breakAt ('<' :: '/' :: name.toList) (text.map Char.toLower) with
  | some (before, _) =>
    (text.take before.length, (upTo ['>'] (text.drop before.length)).2)
  | none => (text, [])

/-- The lexeme of an opening tag, read from its name on. -/
def readOpening (text : List Char) : Lexeme × List Char :=
  let afterName := text.dropWhile isTagNameChar
  let (attributes, selfClosing, rest) := readAttributes (afterName.length + 1) afterName
  let tag : Tag := ⟨.ofList (text.takeWhile isTagNameChar), attributes⟩
  let name := asciiLower tag.name
  if selfClosing || isVoid name then (.leaf tag, rest)
  else if rawTextTags.contains name then
    let (body, after) := readRawText name rest
    (.raw tag (.ofList body), after)
  else (.opening tag, rest)

/-- The lexeme of a closing tag, read from its name on. -/
def readClosing (text : List Char) : Lexeme × List Char :=
  let nameEnds := fun c => !isBlank c && c != '>'
  (.closing (.ofList (text.takeWhile nameEnds)), (upTo ['>'] (text.dropWhile nameEnds)).2)

/-- A text: one character, then all up to the next angle bracket. -/
def readText (c : Char) (rest : List Char) : Lexeme × List Char :=
  (.text (.ofList (c :: rest.takeWhile (· != '<'))), rest.dropWhile (· != '<'))

/-- The first lexeme of markup that starts with a character, and what follows it. -/
def readLexeme (c : Char) (rest : List Char) : Lexeme × List Char :=
  if c != '<' then readText c rest else
    match rest with
    | '!' :: '-' :: '-' :: rest =>
      let (body, after) := upTo ['-', '-', '>'] rest
      (.comment (.ofList body), after)
    | '!' :: rest => (.declaration, (upTo ['>'] rest).2)
    | '?' :: rest => (.declaration, (upTo ['>'] rest).2)
    | '/' :: d :: rest => if d.isAlpha then readClosing (d :: rest) else readText c ('/' :: d :: rest)
    | d :: rest => if d.isAlpha then readOpening (d :: rest) else readText c (d :: rest)
    | [] => readText c []

/-- Cut markup into lexemes, at most `steps` of them. -/
def lexemesWithin : (steps : Nat) → List Char → List Lexeme
  | 0, _ => []
  | _, [] => []
  | steps + 1, c :: rest =>
    let (lexeme, after) := readLexeme c rest
    lexeme :: lexemesWithin steps after

/-- The lexemes of markup. Each uses up a character, so there are no more than characters. -/
def lexemes (markup : List Char) : List Lexeme :=
  lexemesWithin markup.length markup

end DirectiveMarkup.Markup
