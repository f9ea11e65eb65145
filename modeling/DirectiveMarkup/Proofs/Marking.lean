import DirectiveMarkup.Proofs.Derivation

/-!
# What the tokens of an expression count as

The pass that bounds an expression reads characters and not tokens. Here the marks of a text are
cut at its tokens: of every token but one they do not depend on what follows. The exception is
the question mark of a conditional, which would be another operator before a second one; but no
phrase starts with a question mark.
-/

namespace DirectiveMarkup.Expression

/-- The marks of a text that are counted, without their places. -/
def countedFrom (quoted : Option (Char × Bool)) (text : List Char) : List Mark :=
  ((marksFrom quoted 0 text).map Prod.snd).filter (· ≠ .blank)

/-- The counted marks of a text outside of string literals. -/
def counted (text : List Char) : List Mark :=
  countedFrom none text

/-- True of the characters that count for themselves, whatever follows. -/
def isSteady (c : Char) : Bool :=
  c != '?' && c != '"' && c != '\''

/-! ## Characters -/

/-- The marks do not depend on the place at which a text starts. -/
theorem map_snd_marksFrom (quoted : Option (Char × Bool)) (offset offset' : Nat)
    (text : List Char) :
    (marksFrom quoted offset text).map Prod.snd = (marksFrom quoted offset' text).map Prod.snd := by
  induction quoted, offset, text using marksFrom.induct generalizing offset' with
  | case1 => simp [marksFrom]
  | case2 offset quote escaped c rest ih => simpa [marksFrom] using ih _
  | case3 offset rest ih => simpa [marksFrom] using ih _
  | case4 offset c rest hne quoted ih =>
    rw [marksFrom.eq_4 _ _ _ hne, marksFrom.eq_4 _ _ _ hne, List.map_cons, List.map_cons, ih]

/-- Nothing has no marks, also inside a string literal. -/
@[simp] theorem countedFrom_nil (quoted : Option (Char × Bool)) : countedFrom quoted [] = [] := by
  simp [countedFrom, marksFrom]

/-- Nothing has no marks. -/
@[simp] theorem counted_nil : counted [] = [] :=
  countedFrom_nil none

/-- Inside a string literal nothing is counted. -/
theorem countedFrom_quoted (quote : Char) (escaped : Bool) (c : Char) (rest : List Char) :
    countedFrom (some (quote, escaped)) (c :: rest) =
      countedFrom (quoteAfter quote escaped c) rest := by
  rw [countedFrom, marksFrom, map_snd_marksFrom _ _ 0, countedFrom]

/-- Two question marks count as one operator. -/
theorem counted_coalesce (rest : List Char) :
    counted ('?' :: '?' :: rest) = .coalesce :: counted rest := by
  rw [counted, countedFrom, marksFrom, List.map_cons, map_snd_marksFrom _ _ 0]
  rfl

/-- Any other character has its own mark. -/
theorem counted_cons {c : Char} {rest : List Char}
    (h : ∀ after, c = '?' → rest = '?' :: after → False) :
    counted (c :: rest) = [Mark.ofChar c].filter (· ≠ .blank) ++
      countedFrom (if c = '\'' || c = '"' then some (c, false) else none) rest := by
  rw [counted, countedFrom, marksFrom.eq_4 _ _ _ h, List.map_cons, map_snd_marksFrom _ _ 0,
    ← List.singleton_append, List.filter_append, countedFrom]

/-- A question mark before anything else starts a conditional. -/
theorem counted_question {rest : List Char} (h : ∀ after, rest ≠ '?' :: after) :
    counted ('?' :: rest) = .question :: counted rest :=
  counted_cons fun after _ hrest => h after hrest

/-- A steady character counts for itself. -/
theorem counted_steady {c : Char} (h : isSteady c) (rest : List Char) :
    counted (c :: rest) = [Mark.ofChar c].filter (· ≠ .blank) ++ counted rest := by
  simp only [isSteady, Bool.and_eq_true, bne_iff_ne] at h
  rw [counted_cons fun _ hc _ => h.1.1 hc]
  simp [h.1.2, h.2, counted]

/-- A string literal counts as one operand, however it goes on behind its quote. -/
theorem countedFrom_of_endsLiteral {quote : Char} {escaped : Bool} {literal : List Char}
    (h : endsLiteral quote escaped literal) (rest : List Char) :
    countedFrom (some (quote, escaped)) (literal ++ rest) = counted rest := by
  induction literal generalizing escaped with
  | nil => simp [endsLiteral] at h
  | cons c literal ih =>
    rw [endsLiteral] at h
    rw [List.cons_append, countedFrom_quoted]
    cases hnext : quoteAfter quote escaped c with
    | none =>
      simp only [hnext, List.isEmpty_iff] at h
      rw [h, List.nil_append, counted]
    | some next =>
      have hquote : next.1 = quote := by
        unfold quoteAfter at hnext
        split_ifs at hnext <;> simp_all [Prod.ext_iff]
      obtain ⟨_, escaped⟩ := next
      obtain rfl : _ = quote := hquote
      exact ih (by simpa only [hnext] using h)

/-- A string literal counts as one operand, whatever follows. -/
theorem counted_literal {quote : Char} {literal : List Char} (hquote : quote = '"' ∨ quote = '\'')
    (h : endsLiteral quote false literal) (rest : List Char) :
    counted (quote :: (literal ++ rest)) = .literal :: counted rest := by
  rcases hquote with rfl | rfl
  all_goals
    rw [counted_cons (by simp), ← countedFrom_of_endsLiteral h rest]
    rfl

/-! ## Tokens -/

/-- The marks of a token do not depend on what follows. -/
def IsWhole (token : Token) : Prop :=
  ∀ rest, counted (token ++ rest) = counted token ++ counted rest

/-- Steady characters are a whole. -/
theorem isWhole_of_forall {token : Token} (h : ∀ c ∈ token, isSteady c) : IsWhole token := by
  intro rest
  induction token with
  | nil => simp [counted]
  | cons c token ih =>
    have hc := h c List.mem_cons_self
    rw [List.cons_append, counted_steady hc, counted_steady hc,
      ih fun d hd => h d (List.mem_cons_of_mem c hd), List.append_assoc]

/-- The marks of a whole text between tokens are those of the tokens. -/
def Divides (tokens : List Token) : Prop :=
  ∀ text rest, LaidOut tokens text →
    counted (text ++ rest) = tokens.flatMap counted ++ counted rest

/-- Gaps do not count. -/
theorem counted_gap_append {gap : List Char} (h : IsGap gap) (rest : List Char) :
    counted (gap ++ rest) = counted rest := by
  induction gap with
  | nil => rfl
  | cons c gap ih =>
    have hc : isSteady c ∧ Mark.ofChar c = .blank :=
      of_isTokenGap (p := fun c => isSteady c ∧ Mark.ofChar c = .blank) (by decide) c
        (h c List.mem_cons_self)
    rw [List.cons_append, counted_steady hc.1, hc.2, ih fun d hd => h d (List.mem_cons_of_mem c hd)]
    rfl

/-- No tokens divide a gap. -/
theorem divides_nil : Divides [] := by
  rintro text rest ⟨hgap⟩
  exact counted_gap_append hgap rest

/-- A whole token divides a text before tokens that divide. -/
theorem Divides.cons {token : Token} {tokens : List Token} (htoken : IsWhole token)
    (htokens : Divides tokens) : Divides (token :: tokens) := by
  intro text rest h
  cases h with
  | cons hgap htext =>
    rw [List.append_assoc, List.append_assoc, counted_gap_append hgap, htoken, htokens _ rest htext,
      List.flatMap_cons, List.append_assoc]

/-- Two rows of tokens that divide do so together. -/
theorem Divides.append {tokens tokens' : List Token} (h : Divides tokens) (h' : Divides tokens') :
    Divides (tokens ++ tokens') := by
  intro text rest hlaid
  obtain ⟨first, second, rfl, hfirst, hsecond⟩ := hlaid.exists_of_append
  rw [List.append_assoc, h first _ hfirst, h' second rest hsecond, List.flatMap_append,
    List.append_assoc]

/-- A question mark divides a text before a token that does not start with one. -/
theorem Divides.question {c : Char} {token : Token} {tokens : List Token} (hc : c ≠ '?')
    (h : Divides ((c :: token) :: tokens)) : Divides (['?'] :: (c :: token) :: tokens) := by
  intro text rest hlaid
  cases hlaid with
  | @cons gap text _ _ hgap htext =>
    -- A second question mark directly behind would make the two one operator.
    have hstart : ∀ after, text ++ rest ≠ '?' :: after := by
      cases htext with
      | @cons gap _ _ _ hgap _ =>
        intro after heq
        cases gap with
        | nil => exact hc (List.cons.inj heq).1
        | cons d gap =>
          have hd := hgap d List.mem_cons_self
          rw [(List.cons.inj heq).1] at hd
          exact absurd hd (by decide)
    rw [List.append_assoc, List.append_assoc, counted_gap_append hgap, List.singleton_append,
      counted_question hstart, h text rest htext]
    rfl

/-- The tokens of a list divide a text when those of its members do. -/
theorem divides_listTokens {members : List (List Token)} (h : ∀ member ∈ members, Divides member)
    (comma : Bool) : Divides (listTokens members comma) := by
  have hcomma : IsWhole [','] := isWhole_of_forall (by simp [isSteady])
  refine Divides.append ?_ ?_
  · cases members with
    | nil => exact divides_nil
    | cons first rest =>
      refine (h first List.mem_cons_self).append ?_
      have hrest := fun member hm => h member (List.mem_cons_of_mem first hm)
      clear h
      induction rest with
      | nil => exact divides_nil
      | cons second rest ih =>
        rw [List.flatMap_cons]
        exact (Divides.cons hcomma (hrest second List.mem_cons_self)).append
          (ih fun member hm => hrest member (List.mem_cons_of_mem second hm))
  · cases comma with
    | false => exact divides_nil
    | true => exact .cons hcomma divides_nil

/-! ## Atoms -/

/-- Digits may continue a name. -/
theorem isNamePart_of_isDigit {c : Char} (h : c.isDigit) : isNamePart c := by
  have hsmall : c.toNat < 0x80 := by
    simp only [Char.isDigit, Bool.and_eq_true, decide_eq_true_eq] at h
    have h57 : c.toNat ≤ 57 := h.2
    omega
  simp [isNamePart, Text.isAlphanumeric, Text.isNumeric, hsmall, h]

/-- No blank continues a name. -/
theorem not_isBlank_of_isNamePart {c : Char} (h : isNamePart c) : Text.isBlank c = false := by
  have hnone : ∀ n ∈ [9, 10, 11, 12, 13, 0x20, 0x85, 0xA0, 0x1680, 0x2000, 0x2001, 0x2002, 0x2003,
      0x2004, 0x2005, 0x2006, 0x2007, 0x2008, 0x2009, 0x200A, 0x2028, 0x2029, 0x202F, 0x205F, 0x3000],
      isNamePart (Char.ofNat n) = false := by decide +kernel
  by_contra hblank
  simp only [Bool.not_eq_false, Text.isBlank, Bool.or_eq_true, Bool.and_eq_true, decide_eq_true_eq,
    beq_iff_eq] at hblank
  have hc := hnone c.toNat (by simp only [List.mem_cons, List.not_mem_nil, or_false]; omega)
  rw [Char.ofNat_toNat, h] at hc
  exact absurd hc (by decide)

/-- The characters that continue a name count as operands. -/
theorem ofChar_of_isNamePart {c : Char} (h : isNamePart c) : Mark.ofChar c = .operand := by
  have hnone : ∀ d ∈ "'\"()[]\x7b\x7d?!-+*/%<>=&|.:,".toList, isNamePart d = false := by
    have hall : "'\"()[]\x7b\x7d?!-+*/%<>=&|.:,".toList.all (fun d => !isNamePart d) := by decide
    simpa using List.all_eq_true.mp hall
  have hc : c ∉ "'\"()[]\x7b\x7d?!-+*/%<>=&|.:,".toList := fun hc => by
    have hpart := hnone c hc
    rw [h] at hpart
    exact absurd hpart (by decide)
  simp at hc
  simp [Mark.ofChar, not_isBlank_of_isNamePart h, hc]

/-- The characters that continue a name are steady. -/
theorem isSteady_of_isNamePart {c : Char} (h : isNamePart c) : isSteady c := by
  simp only [isSteady, Bool.and_eq_true, bne_iff_ne]
  refine ⟨⟨?_, ?_⟩, ?_⟩
  all_goals
    rintro rfl
    exact absurd h (by decide)

/-- A name consists of characters that may continue one. -/
theorem exists_of_isName {name : String} (h : isName name) :
    ∃ c rest, name.toList = c :: rest ∧ isNameStart c ∧ ∀ d ∈ c :: rest, isNamePart d := by
  unfold isName at h
  cases hname : name.toList with
  | nil => simp [hname] at h
  | cons c rest =>
    simp only [hname, Bool.and_eq_true, List.all_eq_true] at h
    refine ⟨c, rest, rfl, h.1, List.forall_mem_cons.mpr ⟨?_, h.2⟩⟩
    have hstart := h.1
    simp only [isNameStart, isNamePart, Text.isAlphanumeric, Bool.or_eq_true] at hstart ⊢
    tauto

/-- Every character that continues a name is an operand. -/
theorem counted_of_isNamePart {token : Token} (h : ∀ c ∈ token, isNamePart c) :
    counted token = List.replicate token.length .operand := by
  induction token with
  | nil => exact counted_nil
  | cons c token ih =>
    have hc := h c List.mem_cons_self
    rw [counted_steady (isSteady_of_isNamePart hc), ofChar_of_isNamePart hc,
      ih fun d hd => h d (List.mem_cons_of_mem c hd)]
    rfl

/-- The characters of a numeral are steady. -/
theorem Decimal.WellFormed.isSteady {decimal : Decimal} (h : decimal.WellFormed) :
    ∀ c ∈ decimal.letters, isSteady c := by
  have hdigit {c : Char} (hc : c.isDigit) : Expression.isSteady c :=
    isSteady_of_isNamePart (isNamePart_of_isDigit hc)
  intro c hc
  simp only [Decimal.letters, List.mem_append] at hc
  rcases hc with hc | hc | hc
  · exact hdigit (h.whole c hc)
  · cases hfraction : decimal.fraction with
    | none => simp [hfraction] at hc
    | some digits =>
      rw [hfraction] at hc
      rcases hc with _ | ⟨_, hc⟩
      · decide
      · exact hdigit (h.fraction digits hfraction c hc)
  · cases hexponent : decimal.exponent with
    | none => simp [hexponent] at hc
    | some exponent =>
      have hwell := h.exponent exponent hexponent
      simp only [hexponent, Option.elim_some, Exponent.letters, List.cons_append, List.mem_cons,
        List.mem_append, Option.mem_toList] at hc
      rcases hc with rfl | hc | hc
      · rcases hwell.mark with hmark | hmark <;> rw [hmark] <;> decide
      · rcases hwell.sign c hc with rfl | rfl <;> decide
      · exact hdigit (hwell.digits c hc)

/-- A string literal is one operand. -/
theorem counted_quoted {quote : Char} {inside : List Char} {content : String}
    (h : (Atom.quoted quote inside content).WellSpelled) (rest : List Char) :
    counted ((Atom.quoted quote inside content).letters ++ rest) = .literal :: counted rest := by
  obtain ⟨hquote, hcontent⟩ := h
  obtain ⟨literal, hliteral, hends⟩ := Grammar.endsLiteral_of_quotedContent hcontent
  rw [List.append_nil] at hliteral
  rw [Atom.letters, List.cons_append, hliteral, counted_literal hquote hends]

/-- An atom is a whole. -/
theorem Atom.WellSpelled.isWhole {atom : Atom} (h : atom.WellSpelled) : IsWhole atom.letters := by
  cases atom with
  | decimal d => exact isWhole_of_forall h.isSteady
  | quoted quote inside content =>
    intro rest
    have hone := counted_quoted h []
    rw [List.append_nil] at hone
    rw [counted_quoted h, hone, counted_nil]
    rfl
  | named name =>
    obtain ⟨c, rest, hname, -, hparts⟩ := exists_of_isName h
    exact isWhole_of_forall (by simpa only [Atom.letters, hname] using
      fun d hd => isSteady_of_isNamePart (hparts d hd))

/-- True of the characters that an operand starts with. -/
def startsOperand (c : Char) : Bool :=
  isNamePart c || c = '.' || c = '"' || c = '\'' || c = '(' || c = '[' || c = '{'

/-- An atom starts as an operand. -/
theorem Atom.WellSpelled.exists_cons {atom : Atom} (h : atom.WellSpelled) :
    ∃ c token, atom.letters = c :: token ∧ startsOperand c := by
  cases atom with
  | decimal d =>
    cases hwhole : d.whole with
    | nil =>
      obtain ⟨digits, hdigits, -⟩ : ∃ digits ∈ d.fraction, digits ≠ [] := by
        simpa [hwhole] using h.nonempty
      exact ⟨'.', digits ++ d.exponent.elim [] Exponent.letters,
        by simp [Atom.letters, Decimal.letters, hwhole, Option.mem_def.mp hdigits], by decide⟩
    | cons c whole =>
      have hc : isNamePart c := isNamePart_of_isDigit (h.whole c (hwhole ▸ List.mem_cons_self))
      exact ⟨c, whole ++ (d.fraction.elim [] ('.' :: ·) ++ d.exponent.elim [] Exponent.letters),
        by simp [Atom.letters, Decimal.letters, hwhole], by simp [startsOperand, hc]⟩
  | quoted quote inside content =>
    exact ⟨quote, inside ++ [quote], rfl, by rcases h.1 with rfl | rfl <;> decide⟩
  | named name =>
    obtain ⟨c, rest, hname, -, hparts⟩ := exists_of_isName h
    exact ⟨c, rest, hname, by simp [startsOperand, hparts c List.mem_cons_self]⟩

/-! ## Phrases -/

/-- A phrase starts as an operand, or with a sign if it does not bind too tightly. -/
theorem Phrase.WellFormed.exists_cons {phrase : Phrase} (h : phrase.WellFormed) :
    ∃ c token tokens, phrase.tokens = (c :: token) :: tokens ∧
      (startsOperand c ∨ phrase.rank ≤ 7 ∧ (c = '!' ∨ c = '-' ∨ c = '+')) := by
  induction h with
  | atom hatom =>
    obtain ⟨c, token, hletters, hc⟩ := hatom.1.exists_cons
    exact ⟨c, token, [], by rw [Phrase.tokens, hletters], .inl hc⟩
  | group => exact ⟨'(', [], _, Phrase.tokens.eq_2 .., .inl (by decide)⟩
  | array => exact ⟨'[', [], _, Phrase.tokens.eq_3 .., .inl (by decide)⟩
  | object => exact ⟨'{', [], _, Phrase.tokens.eq_4 .., .inl (by decide)⟩
  | @sign op =>
    exact ⟨op.spelling, [], _, Phrase.tokens.eq_5 .., .inr ⟨le_rfl, by cases op <;> decide⟩⟩
  | @operation op _ _ _ _ _ _ ih =>
    obtain ⟨c, token, tokens, hstart, hc⟩ := ih
    have hrank := op.rank_bounds.2
    exact ⟨c, token, _, by rw [Phrase.tokens, hstart, List.cons_append],
      hc.imp_right fun hc => ⟨by simp only [Phrase.rank]; omega, hc.2⟩⟩
  | conditional _ _ _ _ ih =>
    obtain ⟨c, token, tokens, hstart, hc⟩ := ih
    exact ⟨c, token, _, by rw [Phrase.tokens, hstart, List.cons_append],
      hc.imp_right fun hc => ⟨Nat.zero_le _, hc.2⟩⟩
  | member _ hrank _ ih | index _ _ hrank ih | call _ _ hrank ih =>
    obtain ⟨c, token, tokens, hstart, hc⟩ := ih
    exact ⟨c, token, _, by rw [Phrase.tokens, hstart, List.cons_append],
      .inl (hc.resolve_right fun hc => by omega)⟩

/-- No phrase starts with a question mark. -/
theorem Phrase.WellFormed.not_question {phrase : Phrase} (h : phrase.WellFormed) :
    ∃ c token tokens, phrase.tokens = (c :: token) :: tokens ∧ c ≠ '?' := by
  obtain ⟨c, token, tokens, hstart, hc⟩ := h.exists_cons
  refine ⟨c, token, tokens, hstart, ?_⟩
  rintro rfl
  rcases hc with hc | ⟨-, hc⟩
  · exact absurd hc (by decide)
  · exact absurd hc (by decide)

/-- The spelling of an operator is a whole. -/
theorem BinaryOp.isWhole_spelling (op : BinaryOp) : IsWhole op.spelling.toList := by
  by_cases hop : op = .coalesce
  · intro rest
    rw [hop]
    exact counted_coalesce rest
  · refine isWhole_of_forall (List.all_eq_true.mp ?_)
    revert hop
    cases op <;> decide

/-- The tokens of a phrase divide every text that they are laid out as. -/
theorem Phrase.WellFormed.divides {phrase : Phrase} (h : phrase.WellFormed) :
    Divides phrase.tokens := by
  have hchar {c : Char} (hc : isSteady c) : IsWhole [c] :=
    isWhole_of_forall (by simpa using hc)
  have hname {name : String} (h : isName name) : IsWhole name.toList := by
    have hspelled : (Atom.named name).WellSpelled := h
    exact hspelled.isWhole
  have hlast {c : Char} (hc : isSteady c) : Divides [[c]] := .cons (hchar hc) divides_nil
  induction h with
  | atom hatom => exact .cons hatom.1.isWhole divides_nil
  | group _ ih => exact .cons (hchar (by decide)) (ih.append (hlast (by decide)))
  | array _ ih =>
    rw [Phrase.tokens, itemsTokens_eq_map]
    refine .cons (hchar (by decide)) ((divides_listTokens ?_ _).append (hlast (by decide)))
    simpa using ih
  | @object entries comma hkeys _ ih =>
    rw [Phrase.tokens, entriesTokens_eq_map]
    refine .cons (hchar (by decide)) ((divides_listTokens ?_ _).append (hlast (by decide)))
    simp only [List.mem_map, forall_exists_index, and_imp, forall_apply_eq_imp_iff₂]
    rintro ⟨key, value⟩ hentry
    have hkey := (hkeys _ hentry).1.isWhole
    cases value with
    | none => exact .cons hkey divides_nil
    | some value => exact .cons hkey (.cons (hchar (by decide)) (ih _ hentry value rfl))
  | @sign op _ _ _ ih => exact .cons (hchar (by cases op <;> decide)) ih
  | @operation op _ _ _ _ _ _ ihleft ihright => exact ihleft.append (.cons op.isWhole_spelling ihright)
  | @conditional test yes no _ hyes _ _ ihtest ihyes ihno =>
    obtain ⟨c, token, tokens, hstart, hc⟩ := hyes.not_question
    have hquestion : Divides (['?'] :: yes.tokens) := by
      rw [hstart] at ihyes ⊢
      exact .question hc ihyes
    exact ihtest.append (hquestion.append (.cons (hchar (by decide)) ihno))
  | member _ _ hmember ih =>
    exact ih.append (.cons (hchar (by decide)) (.cons (hname hmember) divides_nil))
  | index _ _ _ ihreceiver ihplace =>
    exact ihreceiver.append (.cons (hchar (by decide)) (ihplace.append (hlast (by decide))))
  | call _ _ _ ihcallee iharguments =>
    rw [Phrase.tokens, itemsTokens_eq_map]
    refine ihcallee.append (.cons (hchar (by decide))
      ((divides_listTokens ?_ _).append (hlast (by decide))))
    simpa using iharguments

/-- The marks of a text are those of the tokens of its phrase. -/
theorem Phrase.Spells.counted_eq {phrase : Phrase} {text : List Char} {expr : Expr}
    (h : phrase.Spells text expr) : counted text = phrase.tokens.flatMap counted := by
  simpa using h.wellFormed.divides text [] h.laidOut

end DirectiveMarkup.Expression
