import DirectiveMarkup.Proofs.ExpressionLimits
import DirectiveMarkup.Proofs.ReadingBack
import DirectiveMarkup.Proofs.WholeNumbers

/-!
# Printed expressions are read back

An expression is printed with parentheses where the precedence of its operators demands them, and
around a numeral in front of a point. Whichever gaps are put between the tokens, what is printed
is read as the same expression. Trees that no text stands for are left out: literals that are
arrays, objects, negative or fractional numbers, and variables whose name is no name or is that of
a constant.
-/

namespace DirectiveMarkup.Expression

/-! ## Atoms -/

/-- One of the two quotes. -/
def quoteMark (double : Bool) : Char :=
  if double then '"' else '\''

/-- The inside of a string literal: a backslash stands before quotes and backslashes. -/
def escaped (quote : Char) (content : List Char) : List Char :=
  content.flatMap fun c => if c = quote || c = '\\' then ['\\', c] else [c]

/-- The string literal for a content. -/
def Atom.ofString (double : Bool) (content : String) : Atom :=
  .quoted (quoteMark double) (escaped (quoteMark double) content.toList) content

/-- The atom for a literal value, each string in quotes of a given kind. Values that have no
literal are printed as null. -/
def Atom.ofValue (double : String → Bool) : Value → Atom
  | .bool b => .named (if b then "true" else "false")
  | .number (.integer i) => .decimal ⟨Nat.toDigits 10 i.toNat, none, none⟩
  | .string s => .ofString (double s) s
  | _ => .named "null"

/-- True of the values that have a literal: null, truth values, strings and the natural numbers
that are kept as integers. -/
def Value.isPrintable : Value → Bool
  | .null | .bool _ | .string _ => true
  | .number (.integer i) => 0 ≤ i && i < integerBound
  | _ => false

/-- An escaped content is read back up to its quote. -/
theorem quotedContent_escaped (double : Bool) (content read rest : List Char) :
    Grammar.quotedContent (quoteMark double) read
      (escaped (quoteMark double) content ++ quoteMark double :: rest) =
        some (.ofList (read.reverse ++ content), rest) := by
  have hquote : quoteMark double ≠ '\\' ∧ Grammar.unescape (quoteMark double) = quoteMark double := by
    cases double <;> decide
  induction content generalizing read with
  | nil =>
    rw [escaped, List.flatMap_nil, List.nil_append, Grammar.quotedContent_cons hquote.1, if_pos rfl,
      List.append_nil]
  | cons c content ih =>
    have hcons : read.reverse ++ c :: content = (c :: read).reverse ++ content := by simp
    rw [hcons, ← ih (c :: read)]
    by_cases hc : c = quoteMark double ∨ c = '\\'
    · have hescape : escaped (quoteMark double) (c :: content) =
          '\\' :: c :: escaped (quoteMark double) content := by
        simp [escaped, hc]
      have hunescape : Grammar.unescape c = c := by
        rcases hc with rfl | rfl
        · exact hquote.2
        · rfl
      rw [hescape, List.cons_append, List.cons_append, Grammar.quotedContent, hunescape]
    · rw [not_or] at hc
      have hescape : escaped (quoteMark double) (c :: content) =
          c :: escaped (quoteMark double) content := by
        simp [escaped, hc]
      rw [hescape, List.cons_append, Grammar.quotedContent_cons hc.2, if_neg hc.1]

/-- The string literal for a content is well spelled. -/
theorem Atom.wellSpelled_ofString (double : Bool) (content : String) :
    (Atom.ofString double content).WellSpelled := by
  refine ⟨by cases double <;> decide, ?_⟩
  rw [quotedContent_escaped]
  simp

/-- A name that is one of the constants is an operand. -/
theorem Atom.isOperand_named {name : String} (h : isName name) : (Atom.named name).IsOperand :=
  ⟨h, by simp⟩

/-- A value that has a literal is what its atom stands for. -/
theorem Atom.isOperand_ofValue (double : String → Bool) {value : Value} (h : value.isPrintable) :
    (Atom.ofValue double value).IsOperand ∧ (Atom.ofValue double value).expr = .literal value := by
  cases value with
  | null => exact ⟨isOperand_named (by decide), rfl⟩
  | bool b => cases b <;> exact ⟨isOperand_named (by decide), rfl⟩
  | number n =>
    cases n with
    | double x => exact absurd h (by simp [Value.isPrintable])
    | integer i =>
      simp only [Value.isPrintable, Bool.and_eq_true, decide_eq_true_eq] at h
      have hvalue : (Decimal.mk (Nat.toDigits 10 i.toNat) none none).value? =
          some (.number (.integer i)) := by
        have hread := value_toDigits (n := i.toNat) (by omega)
        rw [Int.toNat_of_nonneg h.1] at hread
        simpa [Decimal.value?, Decimal.letters] using hread
      have hwell : (Decimal.mk (Nat.toDigits 10 i.toNat) none none).WellFormed :=
        ⟨fun c hc => Nat.isDigit_of_mem_toDigits (by decide) (by decide) hc, by simp,
          .inl Nat.toDigits_ne_nil, by simp⟩
      refine ⟨⟨hwell, ?_⟩, by rw [Atom.ofValue, Atom.expr, hvalue]; rfl⟩
      rintro _ ⟨⟩
      rw [hvalue]
      rfl
  | string s => exact ⟨⟨wellSpelled_ofString _ s, by simp [Atom.ofValue, Atom.ofString]⟩, rfl⟩
  | array | object => exact absurd h (by simp [Value.isPrintable])

/-! ## Expressions -/

/-- A phrase for a place that demands a rank: what binds less tightly stands in parentheses. -/
def Phrase.within (rank : Nat) (phrase : Phrase) : Phrase :=
  if rank ≤ phrase.rank then phrase else .group phrase

/-- A phrase for the place in front of a name: a numeral stands in parentheses too. -/
def Phrase.receiver : Phrase → Phrase
  | .atom (.decimal d) => .group (.atom (.decimal d))
  | phrase => phrase.within 8

mutual

/-- The phrase that an expression is printed as, each string in quotes of a given kind. -/
def Expr.phrase (double : String → Bool) : Expr → Phrase
  | .literal value => .atom (.ofValue double value)
  | .ident name => .atom (.named name)
  | .array items => .array (exprsPhrases double items) false
  | .object entries => .object (fieldsPhrases double entries) false
  | .unary op operand => .sign op ((operand.phrase double).within 7)
  | .binary op left right =>
    .operation op ((left.phrase double).within op.rank) ((right.phrase double).within (op.rank + 1))
  | .conditional test yes no =>
    .conditional ((test.phrase double).within 1) (yes.phrase double) (no.phrase double)
  | .member receiver name => .member (receiver.phrase double).receiver name
  | .index receiver place => .index ((receiver.phrase double).within 8) (place.phrase double)
  | .call callee arguments =>
    .call ((callee.phrase double).within 8) (exprsPhrases double arguments) false

/-- The phrases of some expressions. -/
def exprsPhrases (double : String → Bool) : List Expr → List Phrase
  | [] => []
  | expr :: rest => expr.phrase double :: exprsPhrases double rest

/-- The entries of an object, with each key as a string literal. -/
def fieldsPhrases (double : String → Bool) : List (String × Expr) → List (Atom × Option Phrase)
  | [] => []
  | (key, value) :: rest =>
    (.ofString (double key) key, some (value.phrase double)) :: fieldsPhrases double rest

end

mutual

/-- True of the expressions that a text stands for. -/
def Expr.isPrintable : Expr → Bool
  | .literal value => value.isPrintable
  | .ident name => isName name && !(["true", "false", "null", "undefined"].contains name)
  | .array items => exprsPrintable items
  | .object entries => fieldsPrintable entries
  | .unary _ operand => operand.isPrintable
  | .binary _ left right => left.isPrintable && right.isPrintable
  | .conditional test yes no => test.isPrintable && yes.isPrintable && no.isPrintable
  | .member receiver name => receiver.isPrintable && isName name
  | .index receiver place => receiver.isPrintable && place.isPrintable
  | .call callee arguments => callee.isPrintable && exprsPrintable arguments

/-- True when texts stand for all of some expressions. -/
def exprsPrintable : List Expr → Bool
  | [] => true
  | expr :: rest => expr.isPrintable && exprsPrintable rest

/-- True when texts stand for all values of an object. -/
def fieldsPrintable : List (String × Expr) → Bool
  | [] => true
  | (_, value) :: rest => value.isPrintable && fieldsPrintable rest

end

/-- A phrase is well formed and writes an expression. -/
def Phrase.Writes (phrase : Phrase) (expr : Expr) : Prop :=
  phrase.WellFormed ∧ phrase.expr = expr

/-- In its place a phrase writes the same and binds tightly enough. -/
theorem Phrase.Writes.within {phrase : Phrase} {expr : Expr} (h : phrase.Writes expr) (rank : Nat)
    (hrank : rank ≤ 9) : (phrase.within rank).Writes expr ∧ rank ≤ (phrase.within rank).rank := by
  unfold Phrase.within
  split
  · exact ⟨h, ‹_›⟩
  · exact ⟨⟨.group h.1, h.2⟩, hrank⟩

/-- In front of a name a phrase writes the same and binds tightly enough. -/
theorem Phrase.Writes.receiver {phrase : Phrase} {expr : Expr} (h : phrase.Writes expr) :
    phrase.receiver.Writes expr ∧ 8 ≤ phrase.receiver.rank := by
  unfold Phrase.receiver
  split
  · exact ⟨⟨.group h.1, h.2⟩, of_decide_eq_true rfl⟩
  · exact h.within 8 (by decide)

variable (double : String → Bool)

mutual

/-- An expression is printed as a phrase for it. -/
theorem Expr.writes_phrase : (expr : Expr) → expr.isPrintable → (expr.phrase double).Writes expr
  | .literal value, h => by
    have hvalue : value.isPrintable := h
    obtain ⟨hoperand, hexpr⟩ := Atom.isOperand_ofValue double hvalue
    exact ⟨.atom hoperand, hexpr⟩
  | .ident name, h => by
    rw [Expr.isPrintable, Bool.and_eq_true] at h
    have hconstant : name ≠ "true" ∧ name ≠ "false" ∧ name ≠ "null" ∧ name ≠ "undefined" := by
      simpa using h.2
    refine ⟨.atom (Atom.isOperand_named h.1), ?_⟩
    simp [Expr.phrase, Phrase.expr, Atom.expr, Grammar.ofName, hconstant]
  | .array items, h => by
    obtain ⟨hwell, hexprs⟩ := writes_exprsPhrases items h
    exact ⟨.array hwell, by rw [Expr.phrase, Phrase.expr, itemsExprs_eq_map, hexprs]⟩
  | .object entries, h => by
    obtain ⟨hkeys, hwell, hfields⟩ := writes_fieldsPhrases entries h
    exact ⟨.object hkeys hwell, by rw [Expr.phrase, Phrase.expr, entriesFields_eq_map, hfields]⟩
  | .unary op operand, h => by
    obtain ⟨⟨hwell, hexpr⟩, hrank⟩ := (Expr.writes_phrase operand h).within 7 (by decide)
    exact ⟨.sign hwell hrank, by rw [Expr.phrase, Phrase.expr, hexpr]⟩
  | .binary op left right, h => by
    rw [Expr.isPrintable, Bool.and_eq_true] at h
    have hop := op.rank_bounds
    obtain ⟨⟨hleft, hl⟩, hlrank⟩ := (Expr.writes_phrase left h.1).within op.rank (by omega)
    obtain ⟨⟨hright, hr⟩, hrrank⟩ :=
      (Expr.writes_phrase right h.2).within (op.rank + 1) (by omega)
    exact ⟨.operation hleft hright hlrank hrrank, by rw [Expr.phrase, Phrase.expr, hl, hr]⟩
  | .conditional test yes no, h => by
    simp only [Expr.isPrintable, Bool.and_eq_true] at h
    obtain ⟨⟨htest, ht⟩, hrank⟩ := (Expr.writes_phrase test h.1.1).within 1 (by decide)
    obtain ⟨hyes, hy⟩ := Expr.writes_phrase yes h.1.2
    obtain ⟨hno, hn⟩ := Expr.writes_phrase no h.2
    exact ⟨.conditional htest hyes hno hrank, by rw [Expr.phrase, Phrase.expr, ht, hy, hn]⟩
  | .member receiver name, h => by
    rw [Expr.isPrintable, Bool.and_eq_true] at h
    obtain ⟨⟨hwell, hexpr⟩, hrank⟩ := (Expr.writes_phrase receiver h.1).receiver
    exact ⟨.member hwell hrank h.2, by rw [Expr.phrase, Phrase.expr, hexpr]⟩
  | .index receiver place, h => by
    rw [Expr.isPrintable, Bool.and_eq_true] at h
    obtain ⟨⟨hwell, hexpr⟩, hrank⟩ := (Expr.writes_phrase receiver h.1).within 8 (by decide)
    obtain ⟨hplace, hp⟩ := Expr.writes_phrase place h.2
    exact ⟨.index hwell hplace hrank, by rw [Expr.phrase, Phrase.expr, hexpr, hp]⟩
  | .call callee arguments, h => by
    rw [Expr.isPrintable, Bool.and_eq_true] at h
    obtain ⟨⟨hwell, hexpr⟩, hrank⟩ := (Expr.writes_phrase callee h.1).within 8 (by decide)
    obtain ⟨harguments, hexprs⟩ := writes_exprsPhrases arguments h.2
    exact ⟨.call hwell harguments hrank,
      by rw [Expr.phrase, Phrase.expr, hexpr, itemsExprs_eq_map, hexprs]⟩

/-- Expressions are printed as phrases for them. -/
theorem writes_exprsPhrases : (exprs : List Expr) → exprsPrintable exprs →
    (∀ item ∈ exprsPhrases double exprs, item.WellFormed) ∧
      (exprsPhrases double exprs).map Phrase.expr = exprs
  | [], _ => ⟨by simp [exprsPhrases], rfl⟩
  | expr :: rest, h => by
    rw [exprsPrintable, Bool.and_eq_true] at h
    obtain ⟨hwell, hexpr⟩ := Expr.writes_phrase expr h.1
    obtain ⟨hrest, hexprs⟩ := writes_exprsPhrases rest h.2
    exact ⟨List.forall_mem_cons.mpr ⟨hwell, hrest⟩,
      by rw [exprsPhrases, List.map_cons, hexpr, hexprs]⟩

/-- The entries of an object are printed as entries for them. -/
theorem writes_fieldsPhrases : (fields : List (String × Expr)) → fieldsPrintable fields →
    (∀ entry ∈ fieldsPhrases double fields, entry.1.IsKey) ∧
      (∀ entry ∈ fieldsPhrases double fields, ∀ value ∈ entry.2, value.WellFormed) ∧
        (fieldsPhrases double fields).map entryField = fields
  | [], _ => ⟨by simp [fieldsPhrases], by simp [fieldsPhrases], rfl⟩
  | (key, value) :: rest, h => by
    rw [fieldsPrintable, Bool.and_eq_true] at h
    obtain ⟨hwell, hexpr⟩ := Expr.writes_phrase value h.1
    obtain ⟨hkeys, hrest, hfields⟩ := writes_fieldsPhrases rest h.2
    have hkey : (Atom.ofString (double key) key).IsKey :=
      ⟨Atom.wellSpelled_ofString _ key, by simp [Atom.ofString]⟩
    refine ⟨List.forall_mem_cons.mpr ⟨hkey, hkeys⟩,
      List.forall_mem_cons.mpr ⟨?_, hrest⟩, ?_⟩
    · rintro _ ⟨⟩
      exact hwell
    · rw [fieldsPhrases, List.map_cons, hfields, entryField, hexpr]
      rfl

end

/-! ## Reading back -/

/-- What is printed for an expression, with gaps between its tokens, is read as that expression.
Within the limits it is accepted; whether it is does not depend on the gaps. -/
theorem parse_printed {expr : Expr} (h : expr.isPrintable) {text other : String}
    (htext : Separated (expr.phrase double).tokens text.toList)
    (hother : Separated (expr.phrase double).tokens other.toList) :
    readWhole text.toList = .ok expr ∧ (excess? text.toList = none → parse text = .ok expr) ∧
      (parse text = .ok expr ↔ parse other = .ok expr) := by
  obtain ⟨hwell, hexpr⟩ := Expr.writes_phrase double expr h
  have hread {source : String} (hsource : Separated (expr.phrase double).tokens source.toList) :
      readWhole source.toList = .ok expr := hexpr ▸ readWhole_of_separated hwell hsource
  have hlimits {source : String} (hsource : Separated (expr.phrase double).tokens source.toList) :=
    Phrase.Spells.excess?_eq_none_iff ⟨hwell, hsource.laidOut, hexpr⟩
  refine ⟨hread htext, fun hexcess => parse_eq_ok_iff.mpr ⟨hexcess, hread htext⟩, ?_⟩
  rw [parse_eq_ok_iff, parse_eq_ok_iff, hlimits htext, hlimits hother, hread htext, hread hother]

/-- Parentheses around a numeral in front of a point and around a sum in a product, a quote in a
string literal, and two ways to put gaps between the tokens. -/
theorem parse_printed_product :
    let expr : Expr := .binary .mul
      (.binary .add (.member (.literal (.number (.integer 1))) "a") (.literal (.string "it's")))
      (.unary .negate (.index (.ident "b") (.array [])))
    parse "( ( 1 ) . a + 'it\\'s' ) * - b [ [ ] ] " = .ok expr ∧
      parse "(\n(\n1\n)\n.\na\n+\n'it\\'s'\n)\n*\n-\nb\n[\n[\n]\n]\n" = .ok expr := by
  intro expr
  have hspaces : IsGap [' '] := by simp [IsGap, Text.isTokenGap]
  have hlines : IsGap ['\n'] := by simp [IsGap, Text.isTokenGap]
  have htext : Separated (expr.phrase fun _ => false).tokens
      "( ( 1 ) . a + 'it\\'s' ) * - b [ [ ] ] ".toList :=
    separated_flatMap hspaces (List.cons_ne_nil _ _) _
  have hother : Separated (expr.phrase fun _ => false).tokens
      "(\n(\n1\n)\n.\na\n+\n'it\\'s'\n)\n*\n-\nb\n[\n[\n]\n]\n".toList :=
    separated_flatMap hlines (List.cons_ne_nil _ _) _
  have hprinted := parse_printed (fun _ => false) (by decide : expr.isPrintable) htext hother
  have hparse := hprinted.2.1 (by decide +kernel)
  exact ⟨hparse, hprinted.2.2.mp hparse⟩

end DirectiveMarkup.Expression
