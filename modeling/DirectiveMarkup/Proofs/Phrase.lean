import DirectiveMarkup.Expression.Grammar

/-!
# Written expressions

A phrase is an expression as it is written: with its parentheses, with the spelling of its
numerals and string literals, and with the commas at the end of its lists. It determines the
tokens of a text, and the text up to the gaps between them. A phrase is well formed when every
part binds at least as tightly as its place demands.
-/

namespace DirectiveMarkup.Expression

/-! ## Operators -/

/-- How tightly an operator between two operands binds. -/
def BinaryOp.rank : BinaryOp → Nat
  | or | coalesce => 1
  | and => 2
  | strictEq | strictNe | eq | ne => 3
  | lt | le | gt | ge => 4
  | add | sub => 5
  | mul | div | rem => 6

/-- The spelling of an operator between two operands. -/
def BinaryOp.spelling : BinaryOp → String
  | or => "||"
  | coalesce => "??"
  | and => "&&"
  | strictEq => "==="
  | strictNe => "!=="
  | eq => "=="
  | ne => "!="
  | lt => "<"
  | le => "<="
  | gt => ">"
  | ge => ">="
  | add => "+"
  | sub => "-"
  | mul => "*"
  | div => "/"
  | rem => "%"

/-- The spelling of an operator in front of its operand. -/
def UnaryOp.spelling : UnaryOp → Char
  | not => '!'
  | negate => '-'
  | plus => '+'

/-! ## Atoms -/

/-- The exponent of a numeral. -/
structure Exponent where
  mark : Char
  sign : Option Char
  digits : List Char

/-- The characters of an exponent. -/
def Exponent.letters (exponent : Exponent) : List Char :=
  exponent.mark :: exponent.sign.toList ++ exponent.digits

/-- An exponent has its mark, one of two signs or none, and digits. -/
structure Exponent.WellFormed (exponent : Exponent) : Prop where
  mark : exponent.mark = 'e' ∨ exponent.mark = 'E'
  sign : ∀ sign ∈ exponent.sign, sign = '+' ∨ sign = '-'
  nonempty : exponent.digits ≠ []
  digits : ∀ c ∈ exponent.digits, c.isDigit

/-- A numeral: digits, a point with the digits behind it, and an exponent. -/
structure Decimal where
  whole : List Char
  fraction : Option (List Char)
  exponent : Option Exponent

namespace Decimal

/-- The characters of a numeral. -/
def letters (decimal : Decimal) : List Char :=
  decimal.whole ++ (decimal.fraction.elim [] ('.' :: ·) ++ decimal.exponent.elim [] Exponent.letters)

/-- Digits stand in front of the point or behind it. -/
structure WellFormed (decimal : Decimal) : Prop where
  whole : ∀ c ∈ decimal.whole, c.isDigit
  fraction : ∀ digits ∈ decimal.fraction, ∀ c ∈ digits, c.isDigit
  nonempty : decimal.whole ≠ [] ∨ ∃ digits ∈ decimal.fraction, digits ≠ []
  exponent : ∀ exponent ∈ decimal.exponent, exponent.WellFormed

/-- The value of a numeral, unless it is too large. -/
def value? (decimal : Decimal) : Option Value :=
  (Binary64.ofNumeral? decimal.letters).bind Value.ofBinary64?

/-- True of a numeral that ends with its point. -/
def endsWithPoint (decimal : Decimal) : Bool :=
  decimal.fraction = some [] && decimal.exponent.isNone

end Decimal

/-- True of the texts that are read as one name. -/
def isName (name : String) : Bool :=
  match name.toList with
  | [] => false
  | c :: rest => isNameStart c && rest.all isNamePart

/-- A numeral, a string literal with what stands between its quotes, or a name. -/
inductive Atom where
  | decimal (decimal : Decimal)
  | quoted (quote : Char) (inside : List Char) (content : String)
  | named (name : String)

/-- A token, as its characters. -/
abbrev Token := List Char

namespace Atom

/-- The characters of an atom. -/
def letters : Atom → Token
  | decimal d => d.letters
  | quoted quote inside _ => quote :: (inside ++ [quote])
  | named name => name.toList

/-- The expression that an atom stands for as an operand. -/
def expr : Atom → Expr
  | decimal d => .literal (d.value?.getD .null)
  | quoted _ _ content => .literal (.string content)
  | named name => Grammar.ofName name

/-- The key that an atom stands for in an object literal. -/
def key : Atom → String
  | decimal d => .ofList d.letters
  | quoted _ _ content => content
  | named name => name

/-- An atom is spelled as its kind demands. -/
def WellSpelled : Atom → Prop
  | decimal d => d.WellFormed
  | quoted quote inside content => (quote = '"' ∨ quote = '\'') ∧
      Grammar.quotedContent quote [] (inside ++ [quote]) = some (content, [])
  | named name => isName name

/-- An atom can be an operand: if it is a numeral, it has a value. -/
def IsOperand (atom : Atom) : Prop :=
  atom.WellSpelled ∧ ∀ d, atom = decimal d → d.value?.isSome

/-- An atom can be a key: if it is a numeral, it has no point and no exponent. -/
def IsKey (atom : Atom) : Prop :=
  atom.WellSpelled ∧ ∀ d, atom = decimal d → d.fraction = none ∧ d.exponent = none

/-- True of a numeral that ends with its point. -/
def endsWithPoint : Atom → Bool
  | decimal d => d.endsWithPoint
  | _ => false

end Atom

/-! ## Phrases -/

/-- A written expression. `comma` tells whether a list ends with a comma. An entry of an object
without a value stands for the variable with the name of its key. -/
inductive Phrase where
  | atom (atom : Atom)
  | group (inner : Phrase)
  | array (items : List Phrase) (comma : Bool)
  | object (entries : List (Atom × Option Phrase)) (comma : Bool)
  | sign (op : UnaryOp) (operand : Phrase)
  | operation (op : BinaryOp) (left right : Phrase)
  | conditional (test yes no : Phrase)
  | member (receiver : Phrase) (name : String)
  | index (receiver place : Phrase)
  | call (callee : Phrase) (arguments : List Phrase) (comma : Bool)

/-- The tokens of a list: those of its members, with commas between them and maybe behind. -/
def listTokens (members : List (List Token)) (comma : Bool) : List Token :=
  (match members with
    | [] => []
    | first :: rest => first ++ rest.flatMap ([','] :: ·)) ++
  if comma then [[',']] else []

mutual

/-- The tokens of a phrase. -/
def Phrase.tokens : Phrase → List Token
  | .atom atom => [atom.letters]
  | .group inner => ['('] :: (inner.tokens ++ [[')']])
  | .array items comma => ['['] :: (listTokens (itemsTokens items) comma ++ [[']']])
  | .object entries comma => ['{'] :: (listTokens (entriesTokens entries) comma ++ [['}']])
  | .sign op operand => [op.spelling] :: operand.tokens
  | .operation op left right => left.tokens ++ op.spelling.toList :: right.tokens
  | .conditional test yes no => test.tokens ++ ['?'] :: (yes.tokens ++ [':'] :: no.tokens)
  | .member receiver name => receiver.tokens ++ [['.'], name.toList]
  | .index receiver place => receiver.tokens ++ ['['] :: (place.tokens ++ [[']']])
  | .call callee arguments comma =>
    callee.tokens ++ ['('] :: (listTokens (itemsTokens arguments) comma ++ [[')']])

/-- The tokens of each item. -/
def itemsTokens : List Phrase → List (List Token)
  | [] => []
  | item :: rest => item.tokens :: itemsTokens rest

/-- The tokens of an entry. -/
def entryTokens : Atom × Option Phrase → List Token
  | (key, some value) => key.letters :: [':'] :: value.tokens
  | (key, none) => [key.letters]

/-- The tokens of each entry. -/
def entriesTokens : List (Atom × Option Phrase) → List (List Token)
  | [] => []
  | entry :: rest => entryTokens entry :: entriesTokens rest

end

mutual

/-- The expression that a phrase writes. -/
def Phrase.expr : Phrase → Expr
  | .atom atom => atom.expr
  | .group inner => inner.expr
  | .array items _ => .array (itemsExprs items)
  | .object entries _ => .object (entriesFields entries)
  | .sign op operand => .unary op operand.expr
  | .operation op left right => .binary op left.expr right.expr
  | .conditional test yes no => .conditional test.expr yes.expr no.expr
  | .member receiver name => .member receiver.expr name
  | .index receiver place => .index receiver.expr place.expr
  | .call callee arguments _ => .call callee.expr (itemsExprs arguments)

/-- The expressions of items. -/
def itemsExprs : List Phrase → List Expr
  | [] => []
  | item :: rest => item.expr :: itemsExprs rest

/-- The field that an entry writes. -/
def entryField : Atom × Option Phrase → String × Expr
  | (key, some value) => (key.key, value.expr)
  | (key, none) => (key.key, .ident key.key)

/-- The fields of entries. -/
def entriesFields : List (Atom × Option Phrase) → List (String × Expr)
  | [] => []
  | entry :: rest => entryField entry :: entriesFields rest

end

/-- The tokens of items are those of each. -/
@[simp] theorem itemsTokens_eq_map (items : List Phrase) :
    itemsTokens items = items.map Phrase.tokens := by
  induction items with
  | nil => rfl
  | cons item rest ih => rw [itemsTokens, ih, List.map_cons]

/-- The tokens of entries are those of each. -/
@[simp] theorem entriesTokens_eq_map (entries : List (Atom × Option Phrase)) :
    entriesTokens entries = entries.map entryTokens := by
  induction entries with
  | nil => rfl
  | cons entry rest ih => rw [entriesTokens, ih, List.map_cons]

/-- The expressions of items are those of each. -/
@[simp] theorem itemsExprs_eq_map (items : List Phrase) :
    itemsExprs items = items.map Phrase.expr := by
  induction items with
  | nil => rfl
  | cons item rest ih => rw [itemsExprs, ih, List.map_cons]

/-- The fields of entries are those of each. -/
@[simp] theorem entriesFields_eq_map (entries : List (Atom × Option Phrase)) :
    entriesFields entries = entries.map entryField := by
  induction entries with
  | nil => rfl
  | cons entry rest ih => rw [entriesFields, ih, List.map_cons]

/-- How tightly a phrase binds: a conditional not at all, an atom or what stands in brackets most
tightly. -/
def Phrase.rank : Phrase → Nat
  | .conditional .. => 0
  | .operation op .. => op.rank
  | .sign .. => 7
  | .member .. | .index .. | .call .. => 8
  | .atom .. | .group .. | .array .. | .object .. => 9

/-- Operators between operands bind more tightly than a conditional and less than a sign. -/
theorem BinaryOp.rank_bounds (op : BinaryOp) : 1 ≤ op.rank ∧ op.rank ≤ 6 := by
  cases op <;> decide

/-- Nothing binds more tightly than an atom. -/
theorem Phrase.rank_le (phrase : Phrase) : phrase.rank ≤ 9 := by
  cases phrase with
  | operation op => exact Nat.le_trans op.rank_bounds.2 (by decide)
  | _ => exact of_decide_eq_true rfl

/-- The phrases that follow the precedence of the operators, which group from the left. -/
inductive Phrase.WellFormed : Phrase → Prop where
  | atom {atom : Atom} : atom.IsOperand → WellFormed (.atom atom)
  | group {inner : Phrase} : WellFormed inner → WellFormed (.group inner)
  | array {items : List Phrase} {comma : Bool} :
      (∀ item ∈ items, WellFormed item) → WellFormed (.array items comma)
  | object {entries : List (Atom × Option Phrase)} {comma : Bool} :
      (∀ entry ∈ entries, entry.1.IsKey) →
      (∀ entry ∈ entries, ∀ value ∈ entry.2, WellFormed value) → WellFormed (.object entries comma)
  | sign {op : UnaryOp} {operand : Phrase} :
      WellFormed operand → 7 ≤ operand.rank → WellFormed (.sign op operand)
  | operation {op : BinaryOp} {left right : Phrase} :
      WellFormed left → WellFormed right → op.rank ≤ left.rank → op.rank < right.rank →
      WellFormed (.operation op left right)
  | conditional {test yes no : Phrase} :
      WellFormed test → WellFormed yes → WellFormed no → 1 ≤ test.rank →
      WellFormed (.conditional test yes no)
  | member {receiver : Phrase} {name : String} :
      WellFormed receiver → 8 ≤ receiver.rank → isName name → WellFormed (.member receiver name)
  | index {receiver place : Phrase} :
      WellFormed receiver → WellFormed place → 8 ≤ receiver.rank →
      WellFormed (.index receiver place)
  | call {callee : Phrase} {arguments : List Phrase} {comma : Bool} :
      WellFormed callee → (∀ argument ∈ arguments, WellFormed argument) → 8 ≤ callee.rank →
      WellFormed (.call callee arguments comma)

/-! ## Layout -/

/-- True of the texts that may stand between tokens. -/
def IsGap (text : List Char) : Prop :=
  ∀ c ∈ text, Text.isTokenGap c

/-- What holds of every character of a gap. -/
theorem of_isTokenGap {p : Char → Prop} (hp : p ' ' ∧ p '\t' ∧ p '\r' ∧ p '\n') (c : Char)
    (hc : Text.isTokenGap c) : p c := by
  obtain ⟨hspace, htab, hreturn, hline⟩ := hp
  simp only [Text.isTokenGap, Bool.or_eq_true, decide_eq_true_eq] at hc
  rcases hc with ((rfl | rfl) | rfl) | rfl <;> assumption

/-- A text that consists of tokens, with gaps in front, between and behind that may be empty. -/
inductive LaidOut : List Token → List Char → Prop where
  | nil {gap : List Char} : IsGap gap → LaidOut [] gap
  | cons {gap text : List Char} {token : Token} {tokens : List Token} :
      IsGap gap → LaidOut tokens text → LaidOut (token :: tokens) (gap ++ (token ++ text))

namespace LaidOut

variable {gap text text' : List Char} {token : Token} {tokens tokens' : List Token}

/-- Nothing is a layout of no tokens. -/
theorem empty : LaidOut [] [] :=
  .nil fun _ h => absurd h List.not_mem_nil

/-- A token is a layout of itself. -/
theorem single (token : Token) : LaidOut [token] token := by
  have h : LaidOut [token] ([] ++ (token ++ [])) :=
    .cons (fun _ h => absurd h List.not_mem_nil) empty
  simpa using h

/-- A gap in front may be wider. -/
theorem gap_append (hgap : IsGap gap) (h : LaidOut tokens text) : LaidOut tokens (gap ++ text) := by
  have hwider {first : List Char} (hfirst : IsGap first) : IsGap (gap ++ first) := fun c hc =>
    (List.mem_append.mp hc).elim (hgap c) (hfirst c)
  cases h with
  | nil hfirst => exact .nil (hwider hfirst)
  | cons hfirst hrest =>
    rw [← List.append_assoc]
    exact .cons (hwider hfirst) hrest

/-- Two layouts one behind the other are a layout. -/
theorem append (h : LaidOut tokens text) (h' : LaidOut tokens' text') :
    LaidOut (tokens ++ tokens') (text ++ text') := by
  induction h with
  | nil hgap => exact gap_append hgap h'
  | cons hgap _ ih =>
    simp only [List.append_assoc]
    exact .cons hgap ih

/-- A layout of two rows of tokens is cut between them. -/
theorem exists_of_append (h : LaidOut (tokens ++ tokens') text) :
    ∃ first second, text = first ++ second ∧ LaidOut tokens first ∧ LaidOut tokens' second := by
  induction tokens generalizing text with
  | nil => exact ⟨[], text, rfl, empty, h⟩
  | cons token tokens ih =>
    cases h with
    | cons hgap hrest =>
      obtain ⟨first, second, rfl, hfirst, hsecond⟩ := ih hrest
      exact ⟨_, second, by simp, .cons hgap hfirst, hsecond⟩

end LaidOut

/-- A phrase is well formed, writes an expression and is laid out as a text. -/
structure Phrase.Spells (phrase : Phrase) (text : List Char) (expr : Expr) : Prop where
  wellFormed : phrase.WellFormed
  laidOut : LaidOut phrase.tokens text
  expr_eq : phrase.expr = expr

end DirectiveMarkup.Expression
