import DirectiveMarkup.Expression.Error
import DirectiveMarkup.Text.Blank

/-!
# How complex an expression is

Before an expression is read, one pass over its characters bounds the work of reading and
evaluating it. The pass tells operands, brackets and operators apart without knowing the
grammar. It counts how many brackets, signs in front of an operand and conditionals are open
at once, and how many operators and accesses there are in all. A string literal counts as one
operand, and the mark `??` as one operator.
-/

namespace DirectiveMarkup.Expression

/-- What a character, a string literal or the mark `??` counts as. -/
inductive Mark where
  | literal
  | opening
  | closing
  | coalesce
  | question
  | sign
  | operator
  | separator
  | blank
  | operand
  deriving DecidableEq, Repr

/-- What a single character outside of string literals counts as. -/
def Mark.ofChar (c : Char) : Mark :=
  if c = '\'' || c = '"' then .literal
  else if c = '(' || c = '[' || c = '{' then .opening
  else if c = ')' || c = ']' || c = '}' then .closing
  else if c = '?' then .question
  else if c = '!' || c = '-' || c = '+' then .sign
  else if "*/%<>=&|.".toList.contains c then .operator
  else if c = ':' || c = ',' then .separator
  else if Text.isBlank c then .blank
  else .operand

/-- How a string literal goes on after one of its characters: with the same quote, escaped or
not, or not at all. -/
def quoteAfter (quote : Char) (escaped : Bool) (c : Char) : Option (Char × Bool) :=
  if escaped then some (quote, false)
  else if c = '\\' then some (quote, true)
  else if c = quote then none
  else some (quote, false)

/-- The marks of a source with the byte offsets at which they start. Inside a string literal
`quoted` holds its quote and whether the next character is escaped. -/
def marksFrom : (quoted : Option (Char × Bool)) → (offset : Nat) → List Char → List (Nat × Mark)
  | _, _, [] => []
  | some (quote, escaped), offset, c :: rest =>
    marksFrom (quoteAfter quote escaped c) (offset + c.utf8Size) rest
  | none, offset, '?' :: '?' :: rest => (offset, .coalesce) :: marksFrom none (offset + 2) rest
  | none, offset, c :: rest =>
    let quoted := if c = '\'' || c = '"' then some (c, false) else none
    (offset, .ofChar c) :: marksFrom quoted (offset + c.utf8Size) rest

/-- The marks of a source with their offsets. -/
def marks (source : List Char) : List (Nat × Mark) :=
  marksFrom none 0 source

/-- The counts of the pass: what the current bracket adds to the nesting, what each bracket
around it adds, the signs in front of the next operand, the operators so far, and whether an
operand stands right before. -/
structure Load where
  current : Nat
  enclosing : List Nat
  signs : Nat
  operators : Nat
  afterOperand : Bool
  deriving DecidableEq, Repr

namespace Load

/-- The counts before the first mark. -/
def start : Load := ⟨0, [], 0, 0, false⟩

/-- How many brackets, signs and conditionals are open. -/
def nesting (load : Load) : Nat :=
  load.current + load.enclosing.foldr Nat.add 0 + load.signs

/-- Count an operator, or an access, when an operand stands before it. -/
def countOperator (load : Load) : Load :=
  ⟨load.current, load.enclosing, load.signs,
    if load.afterOperand then load.operators + 1 else load.operators, false⟩

/-- The counts after one more mark. -/
def step (load : Load) : Mark → Load
  | .literal | .operand => ⟨load.current, load.enclosing, 0, load.operators, true⟩
  | .opening =>
    let counted := load.countOperator
    ⟨load.signs + 1, load.current :: load.enclosing, 0, counted.operators, false⟩
  | .closing =>
    match load.enclosing with
    | [] => ⟨load.current, [], load.signs, load.operators, true⟩
    | outer :: rest => ⟨outer, rest, load.signs, load.operators, true⟩
  | .coalesce => ⟨load.current, load.enclosing, load.signs, load.operators + 1, false⟩
  | .question => ⟨load.current + 1, load.enclosing, load.signs, load.operators, false⟩
  | .sign =>
    if load.afterOperand then load.countOperator
    else ⟨load.current, load.enclosing, load.signs + 1, load.operators, false⟩
  | .operator => load.countOperator
  | .separator => ⟨load.current, load.enclosing, load.signs, load.operators, false⟩
  | .blank => load

/-- The limit that the counts exceed, if any. -/
def fault? (load : Load) : Option Fault :=
  if maxNesting < load.nesting then some .tooDeep
  else if maxOperators < load.operators then some .tooManyOperators
  else none

end Load

/-- The first mark after which a limit is exceeded. -/
def firstExcess : Load → List (Nat × Mark) → Option (Nat × Fault)
  | _, [] => none
  | load, (offset, mark) :: rest =>
    match (load.step mark).fault? with
    | some fault => some (offset, fault)
    | none => firstExcess (load.step mark) rest

/-- Where and how a source exceeds the limits, if it does. -/
def excess? (source : List Char) : Option (Nat × Fault) :=
  firstExcess .start (marks source)

end DirectiveMarkup.Expression
