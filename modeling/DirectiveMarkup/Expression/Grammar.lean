import DirectiveMarkup.Expression.Complexity
import DirectiveMarkup.Expression.Reader
import DirectiveMarkup.Expression.Tree
import DirectiveMarkup.Text.ByteSize
import DirectiveMarkup.Text.Letter

/-!
# The grammar of expressions

From the loosest to the tightest: the conditional `a ? b : c`, whose branches are expressions;
`||` and `??` together; `&&`; the equalities; the comparisons; `+` and `-`; `*`, `/` and `%`;
the signs `!`, `-` and `+` in front; and accesses `.name`, `[place]` and `(arguments)` behind.
Operators of one level associate to the left. Blanks may stand between all tokens.

An object entry is a key with a value, or a key alone, which stands for the variable of that
name. `undefined` is another word for null.

Readers that repeat, or that go into a nested expression, are given a number of steps. Each
step uses up a character, so the number of characters is enough.
-/

namespace DirectiveMarkup.Expression

/-- True of the characters that may start a name. -/
def isNameStart (c : Char) : Bool :=
  Text.isAlphabetic c || c = '_' || c = '$'

/-- True of the characters that may continue a name. -/
def isNamePart (c : Char) : Bool :=
  Text.isAlphanumeric c || c = '_' || c = '$'

namespace Grammar

open Reader

/-- A name. -/
def name : Reader String :=
  (satisfying isNameStart).andThen fun first rest =>
    .done (.ofList (first :: rest.takeWhile isNamePart)) (rest.dropWhile isNamePart)

/-- Decimal digits, at least one. -/
def digits : Reader (List Char) := fun text =>
  if (text.takeWhile Char.isDigit).isEmpty then .stuck text
  else .done (text.takeWhile Char.isDigit) (text.dropWhile Char.isDigit)

/-- Digits with at most one point, before, among or after them. -/
def mantissa : Reader (List Char) :=
  oneOf [
    digits.andThen fun whole =>
      (optional ((char '.').before fun text =>
        .done (text.takeWhile Char.isDigit) (text.dropWhile Char.isDigit))).map fun
          | some fraction => whole ++ '.' :: fraction
          | none => whole,
    (char '.').before (digits.map ('.' :: ·))]

/-- An exponent with its mark. -/
def exponent : Reader (List Char) :=
  (satisfying fun c => c = 'e' || c = 'E').andThen fun mark =>
    (optional (satisfying fun c => c = '+' || c = '-')).andThen fun sign =>
      digits.map fun digits => mark :: sign.toList ++ digits

/-- A numeral that stands for a finite number. -/
def number : Reader Expr := fun text =>
  let lexeme := mantissa.andThen fun m => (optional exponent).map fun e => m ++ e.getD []
  match lexeme text with
  | .done spelling rest =>
    match (Binary64.ofNumeral? spelling).bind Value.ofBinary64? with
    | some value => .done (.literal value) rest
    | none => .stuck text
  | .stuck rest => .stuck rest
  | .failed rest => .failed rest

/-- The character that a backslash makes of the next one. -/
def unescape (c : Char) : Char :=
  if c = 'n' then '\n' else if c = 't' then '\t' else if c = 'r' then '\r' else c

/-- The content of a string literal up to its quote, with what was read kept in reverse, and
what follows the quote. -/
def quotedContent (quote : Char) : (content : List Char) → List Char → Option (String × List Char)
  | _, [] => none
  | _, ['\\'] => none
  | content, '\\' :: c :: rest => quotedContent quote (unescape c :: content) rest
  | content, c :: rest =>
    if c = quote then some (.ofList content.reverse, rest)
    else quotedContent quote (c :: content) rest

/-- A string literal. One that is not ended is a failure for good, at its quote. -/
def stringLiteral : Reader String
  | [] => .stuck []
  | quote :: rest =>
    if quote = '"' || quote = '\'' then
      match quotedContent quote [] rest with
      | some (content, after) => .done content after
      | none => .failed (quote :: rest)
    else .stuck (quote :: rest)

/-- What a name stands for: one of the constants, or a variable. -/
def ofName (name : String) : Expr :=
  if name = "true" then .literal (.bool true)
  else if name = "false" then .literal (.bool false)
  else if name = "null" || name = "undefined" then .literal .null
  else .ident name

/-- An entry of an object literal. -/
def entry (nested : Reader Expr) : Reader (String × Expr) :=
  (spaced (oneOf [stringLiteral, name, digits.map String.ofList])).andThen fun key =>
    (optional ((spaced (char ':')).before nested)).map fun value =>
      (key, value.getD (.ident key))

/-- An expression that no operator divides. -/
def primary (steps : Nat) (nested : Reader Expr) : Reader Expr :=
  spaced <| oneOf [
    number,
    stringLiteral.map fun s => .literal (.string s),
    ((char '[').before (commaList steps nested)).followedBy (spaced (char ']')) |>.map Expr.array,
    ((char '{').before (commaList steps (entry nested))).followedBy (spaced (char '}'))
      |>.map Expr.object,
    ((char '(').before (spaced nested)).followedBy (char ')'),
    name.map ofName]

/-- What an access adds to the expression before it. -/
def access (steps : Nat) (nested : Reader Expr) : Reader (Expr → Expr) :=
  oneOf [
    ((spaced (char '.')).before name).map fun name object => .member object name,
    (((spaced (char '[')).before nested).followedBy (spaced (char ']'))).map
      fun place object => .index object place,
    (((spaced (char '(')).before (commaList steps nested)).followedBy (spaced (char ')'))).map
      fun arguments callee => .call callee arguments]

/-- A primary expression with its accesses. -/
def postfixed (steps : Nat) (nested : Reader Expr) : Reader Expr :=
  (primary steps nested).andThen
    (foldMany (fun object access => access object) (access steps nested) steps)

/-- The operator in front of an operand. -/
def unaryOperator : Reader UnaryOp :=
  oneOf [(char '!').map fun _ => .not, (char '-').map fun _ => .negate,
    (char '+').map fun _ => .plus]

/-- An expression with at most `signs` operators in front. -/
def unary (steps : Nat) (nested : Reader Expr) : (signs : Nat) → Reader Expr
  | 0 => postfixed steps nested
  | signs + 1 =>
    ((spaced unaryOperator).andThen fun op => (unary steps nested signs).map (.unary op)).orElse
      (postfixed steps nested)

/-- Operands of one level of precedence, grouped from the left. -/
def leftGrouped (steps : Nat) (operator : Reader BinaryOp) (operand : Reader Expr) : Reader Expr :=
  operand.andThen <|
    foldMany (fun left (op, right) => .binary op left right)
      ((spaced operator).andThen fun op => operand.map fun right => (op, right)) steps

/-- One of the given spellings of operators. -/
def operatorAmong (spellings : List (String × BinaryOp)) : Reader BinaryOp :=
  oneOf (spellings.map fun (spelling, op) => (word spelling).map fun _ => op)

/-- The levels of operators between operands, from the tightest to the loosest. Where one
spelling begins another, the longer comes first. -/
def levels : List (List (String × BinaryOp)) :=
  [[("*", .mul), ("/", .div), ("%", .rem)],
    [("+", .add), ("-", .sub)],
    [("<=", .le), (">=", .ge), ("<", .lt), (">", .gt)],
    [("===", .strictEq), ("!==", .strictNe), ("==", .eq), ("!=", .ne)],
    [("&&", .and)],
    [("||", .or), ("??", .coalesce)]]

/-- An expression without a conditional at its top. -/
def operation (steps : Nat) (nested : Reader Expr) : Reader Expr :=
  levels.foldl (fun operand spellings => leftGrouped steps (operatorAmong spellings) operand)
    (unary steps nested steps)

/-- An expression with a conditional at its top, or without. -/
def conditional (steps : Nat) (nested : Reader Expr) : Reader Expr :=
  (operation steps nested).andThen fun test =>
    (optional <|
      ((spaced (char '?')).before nested).andThen fun yes =>
        ((spaced (char ':')).before nested).map fun no => (yes, no)).map fun
      | some (yes, no) => .conditional test yes no
      | none => test

/-- An expression of less than `steps` characters. -/
def expression : (steps : Nat) → Reader Expr
  | 0 => fun text => .stuck text
  | steps + 1 => conditional steps (expression steps)

end Grammar

/-- What is wrong where reading stopped. -/
def Fault.atFront : List Char → Fault
  | [] => .unexpectedEnd
  | c :: _ => .unexpected c

/-- The whole source as one expression, by the grammar alone; otherwise the characters from
the place on at which reading stopped. -/
def readWhole (source : List Char) : Except (List Char) Expr :=
  match Reader.spaced (Grammar.expression (source.length + 1)) source with
  | .done expr [] => .ok expr
  | .done _ rest | .stuck rest | .failed rest => .error rest

/-- Read the source of an expression, within the limits of complexity. -/
def parse (source : String) : Except EvalError Expr :=
  let text := source.toList
  match excess? text with
  | some (offset, fault) => .error (.malformed source offset fault)
  | none =>
    (readWhole text).mapError fun rest =>
      .malformed source (Text.byteSize text - Text.byteSize rest) (.atFront rest)

/-- A source is accepted when it is within the limits and can be read. -/
theorem parse_eq_ok_iff {source : String} {expr : Expr} :
    parse source = .ok expr ↔ excess? source.toList = none ∧ readWhole source.toList = .ok expr := by
  unfold parse
  dsimp only
  cases excess? source.toList with
  | some excess => simp
  | none =>
    cases readWhole source.toList with
    | error rest =>
      change Except.error _ = Except.ok expr ↔ _
      simp
    | ok read =>
      change Except.ok read = Except.ok expr ↔ _
      simp

/-- A source that exceeds a limit is refused for it. -/
theorem parse_of_excess? {source : String} {place : Nat} {fault : Fault}
    (h : excess? source.toList = some (place, fault)) :
    parse source = .error (.malformed source place fault) := by
  unfold parse
  dsimp only
  rw [h]

/-- A source within the limits that does not fit the grammar is refused for what was left to read. -/
theorem parse_of_readWhole {source : String} {before after : List Char}
    (hexcess : excess? source.toList = none) (hsource : source.toList = before ++ after)
    (hread : readWhole source.toList = .error after) :
    parse source = .error (.malformed source (Text.byteSize before) (.atFront after)) := by
  have hplace : Text.byteSize source.toList - Text.byteSize after = Text.byteSize before := by
    rw [hsource, Text.byteSize_append, Nat.add_sub_cancel]
  unfold parse
  dsimp only
  rw [hexcess, hread, ← hplace]
  rfl

end DirectiveMarkup.Expression
