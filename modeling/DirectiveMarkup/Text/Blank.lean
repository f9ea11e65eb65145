/-!
# Blank characters and trimming

Two notions of blank space occur side by side. Markup, and the text that expressions work
on, use the characters with Unicode's `White_Space` property; the zero-width no-break space
is not one of them. Between the tokens of an expression only space, tab, carriage return and
line feed are skipped.
-/

namespace DirectiveMarkup.Text

/-- The twenty-five characters that have Unicode's `White_Space` property. -/
def isBlank (c : Char) : Bool :=
  let code := c.toNat
  (9 ≤ code && code ≤ 13) || code == 0x20 || code == 0x85 || code == 0xA0 || code == 0x1680 ||
    (0x2000 ≤ code && code ≤ 0x200A) || code == 0x2028 || code == 0x2029 || code == 0x202F ||
    code == 0x205F || code == 0x3000

/-- The blanks that may stand between two tokens of an expression. -/
def isTokenGap (c : Char) : Bool :=
  c = ' ' || c = '\t' || c = '\r' || c = '\n'

/-- Remove blanks from both ends of a character sequence. -/
def trimChars (text : List Char) : List Char :=
  ((text.dropWhile isBlank).reverse.dropWhile isBlank).reverse

/-- Remove blanks from both ends of a text. -/
def trim (text : String) : String :=
  .ofList (trimChars text.toList)

/-- The characters of a trimmed text are the trimmed characters. -/
@[simp] theorem toList_trim (text : String) : (trim text).toList = trimChars text.toList := by
  simp [trim]

end DirectiveMarkup.Text
