import DirectiveMarkup.Text.Blank

/-!
# Readers with backtracking

A reader takes the characters still to be read and either gives a value with what is left, or
is stuck at some place, or has failed for good at some place. Being stuck can be made good: an
alternative is tried at the same start, an optional part is left out, a repetition ends before
the part that did not fit. A final failure is passed on through all of these.
-/

namespace DirectiveMarkup.Expression

/-- What came of reading. The two failures keep the characters from the place on at which
reading stopped. -/
inductive Reading (α : Type) where
  | done (value : α) (rest : List Char)
  | stuck (rest : List Char)
  | failed (rest : List Char)
  deriving DecidableEq, Repr

/-- A way to read a value from the front of a text. -/
abbrev Reader (α : Type) := List Char → Reading α

namespace Reader

variable {α β : Type}

/-- Read nothing. -/
def succeed (value : α) : Reader α := fun text => .done value text

/-- Read one thing and then another that may depend on it. -/
def andThen (first : Reader α) (next : α → Reader β) : Reader β := fun text =>
  match first text with
  | .done value rest => next value rest
  | .stuck rest => .stuck rest
  | .failed rest => .failed rest

/-- Change what was read. -/
def map (f : α → β) (reader : Reader α) : Reader β :=
  reader.andThen fun value => succeed (f value)

/-- Read one thing and then another, and keep the second. -/
def before (first : Reader α) (second : Reader β) : Reader β :=
  first.andThen fun _ => second

/-- Read one thing and then another, and keep the first. -/
def followedBy (first : Reader α) (second : Reader β) : Reader α :=
  first.andThen fun value => second.map fun _ => value

/-- Read the second thing where the first is stuck. If both are, the second tells where. -/
def orElse (first second : Reader α) : Reader α := fun text =>
  match first text with
  | .stuck _ => second text
  | other => other

/-- The first of several alternatives that is not stuck. -/
def oneOf : List (Reader α) → Reader α
  | [] => fun text => .stuck text
  | [last] => last
  | reader :: rest => reader.orElse (oneOf rest)

/-- Read a thing where it fits, and nothing elsewhere. -/
def optional (reader : Reader α) : Reader (Option α) := fun text =>
  match reader text with
  | .done value rest => .done (some value) rest
  | .stuck _ => .done none text
  | .failed rest => .failed rest

/-- Read a thing as long as it fits, at most `steps` times, and combine what was read. -/
def foldMany (combine : α → β → α) (reader : Reader β) : (steps : Nat) → α → Reader α
  | 0, value => succeed value
  | steps + 1, value => fun text =>
    match reader text with
    | .done next rest => foldMany combine reader steps (combine value next) rest
    | .stuck _ => .done value text
    | .failed rest => .failed rest

/-- Read a character of a class. -/
def satisfying (p : Char → Bool) : Reader Char
  | [] => .stuck []
  | c :: rest => if p c then .done c rest else .stuck (c :: rest)

/-- Read a given character. -/
def char (c : Char) : Reader Char :=
  satisfying (· = c)

/-- Read a given word. -/
def word (letters : String) : Reader Unit := fun text =>
  match letters.toList.isPrefixOf? text with
  | some rest => .done () rest
  | none => .stuck text

/-- Skip the blanks in front of a thing and behind it. -/
def spaced (reader : Reader α) : Reader α := fun text =>
  match reader (text.dropWhile Text.isTokenGap) with
  | .done value rest => .done value (rest.dropWhile Text.isTokenGap)
  | .stuck rest => .stuck rest
  | .failed rest => .failed rest

/-- Read things with commas between them, and maybe one comma after the last. A comma is taken
back when no thing follows it, so a lone comma is read as well. -/
def commaList (steps : Nat) (item : Reader α) : Reader (List α) :=
  let comma := spaced (char ',')
  let items := (optional item).andThen fun
    | none => succeed []
    | some first => (foldMany (fun items item => item :: items) (comma.before item) steps [first]).map
        List.reverse
  items.followedBy (optional comma)

end Reader

end DirectiveMarkup.Expression
