import DirectiveMarkup.Proofs.Standing

/-!
# What the readers of operators, atoms and lists take

Operators are told from longer ones by the token that they are. Atoms are taken whole, up to the
gap behind them. Lists and the operands of one level are read in loops: a loop goes on at the next
comma, operator or access, and ends at a token that is none.
-/

namespace DirectiveMarkup.Expression

/-! ## What may follow -/

/-- True of the characters that end an expression. -/
def isCloser (c : Char) : Bool :=
  c = ')' || c = ']' || c = '}' || c = ',' || c = ':'

/-- What holds of every character that ends an expression. -/
theorem of_isCloser {p : Char → Prop} (hp : p ')' ∧ p ']' ∧ p '}' ∧ p ',' ∧ p ':') (c : Char)
    (hc : isCloser c) : p c := by
  obtain ⟨hparen, hbracket, hbrace, hcomma, hcolon⟩ := hp
  simp only [isCloser, Bool.or_eq_true, decide_eq_true_eq] at hc
  rcases hc with (((rfl | rfl) | rfl) | rfl) | rfl <;> assumption

/-- How tightly a token behind an expression would bind it. -/
inductive Follows : Token → (tightness : Nat) → Prop where
  | closer {c : Char} : isCloser c → Follows [c] 0
  | question : Follows ['?'] 1
  | operator (op : BinaryOp) : Follows op.spelling.toList (op.rank + 1)
  | access {c : Char} : c = '.' ∨ c = '[' ∨ c = '(' → Follows [c] 9

/-- The next token, if there is one, does not bind an expression at some rank. -/
def Stops (rank : Nat) (tokens : List Token) : Prop :=
  ∀ token ∈ tokens.head?, ∃ tightness ≤ rank, Follows token tightness

/-- What does not bind at one rank does not at a higher one. -/
theorem Stops.mono {low high : Nat} {tokens : List Token} (h : Stops low tokens) (hle : low ≤ high) :
    Stops high tokens := fun token htoken =>
  let ⟨tightness, htight, hfollows⟩ := h token htoken
  ⟨tightness, htight.trans hle, hfollows⟩

namespace Grammar

open Reader

/-! ## Operators -/

/-- No operator begins a token that binds less tightly. -/
theorem not_prefix_of_follows {op : BinaryOp} {token : Token} {tightness : Nat}
    (h : Follows token tightness) (hle : tightness ≤ op.rank) : ¬op.spelling.toList <+: token := by
  cases h with
  | closer hc =>
    simp only [isCloser, Bool.or_eq_true, decide_eq_true_eq] at hc
    rcases hc with (((rfl | rfl) | rfl) | rfl) | rfl <;> cases op <;> decide
  | question => cases op <;> decide
  | operator other =>
    revert hle
    cases op <;> cases other <;> decide
  | access =>
    have hop := op.rank_bounds
    omega

/-- The spellings of one level, none of which begins a later one. -/
def IsLevel (rank : Nat) (spellings : List (String × BinaryOp)) : Prop :=
  (∀ pair ∈ spellings, pair.1 = pair.2.spelling ∧ pair.2.rank = rank) ∧
    (∀ op : BinaryOp, op.rank = rank → (op.spelling, op) ∈ spellings) ∧
    spellings.Pairwise fun earlier later => ¬earlier.1.toList <+: later.1.toList

/-- The spelling of an operator is not empty and has no gaps. -/
theorem spelling_steady (op : BinaryOp) : op.spelling.toList ≠ [] ∧
    ∀ c ∈ op.spelling.toList, Text.isTokenGap c = false := by
  have hall : op.spelling.toList.all (fun c => !Text.isTokenGap c) := by cases op <;> decide
  exact ⟨by cases op <;> decide, fun c hc => by simpa using List.all_eq_true.mp hall c hc⟩

variable {rank : Nat} {spellings : List (String × BinaryOp)}

/-- The operators of a level are stuck where nothing binds at its rank. -/
theorem balks_operatorAmong (hlevel : IsLevel rank spellings) {tokens : List Token}
    (h : Stops rank tokens) : (spaced (operatorAmong spellings)).Balks Stands tokens := by
  refine (balks_oneOf fun reader hreader => ?_).spaced
  obtain ⟨⟨spelling, op⟩, hpair, rfl⟩ := List.mem_map.mp hreader
  obtain ⟨rfl, hrank⟩ : spelling = op.spelling ∧ op.rank = rank := hlevel.1 _ hpair
  refine (balks_word (spelling_steady op) fun token htoken => ?_).andThen _
  obtain ⟨tightness, hle, hfollows⟩ := h token htoken
  exact not_prefix_of_follows hfollows (hrank ▸ hle)

/-- An operator is taken at its level. -/
theorem takes_operatorAmong (hlevel : IsLevel rank spellings) {op : BinaryOp} (hop : op.rank = rank) :
    (spaced (operatorAmong spellings)).Takes Stands (fun _ => True) [op.spelling.toList] op := by
  obtain ⟨hspellings, hcomplete, hpairwise⟩ := hlevel
  obtain ⟨earlier, later, rfl⟩ := List.append_of_mem (hcomplete op hop)
  refine Takes.spaced ?_
  rw [operatorAmong, List.map_append, List.map_cons]
  refine takes_oneOf (fun other hother rest _ => ?_) ((takes_word op.spelling).map fun _ => op)
  obtain ⟨⟨spelling, before⟩, hbefore, rfl⟩ := List.mem_map.mp hother
  obtain ⟨rfl, -⟩ : spelling = before.spelling ∧ before.rank = rank :=
    hspellings _ (List.mem_append_left _ hbefore)
  refine (balks_word (spelling_steady before) fun token htoken => ?_).andThen _
  obtain rfl : op.spelling.toList = token := by simpa using htoken
  exact (List.pairwise_append.mp hpairwise).2.2 _ hbefore _ List.mem_cons_self

/-- An operator in front of an operand is taken. -/
theorem takes_unaryOperator (op : UnaryOp) :
    (spaced unaryOperator).Takes Stands (fun _ => True) [[op.spelling]] op := by
  have hother {c d : Char} (hne : c ≠ d) (rest : List Token) (value : UnaryOp) :
      ((char d).map fun _ => value).Balks At ([c] :: rest) :=
    (balks_satisfying (startsIn_cons (p := (· = c)) (by simp) [] rest)
      (by simpa using hne)).andThen _
  refine Takes.spaced ?_
  cases op with
  | not => exact ((takes_char '!').map _).orElse _
  | negate =>
    exact .orElse_of_balks (fun rest _ => hother (by decide) rest _) (((takes_char '-').map _).orElse _)
  | plus =>
    exact .orElse_of_balks (fun rest _ => hother (by decide) rest _)
      (.orElse_of_balks (fun rest _ => hother (by decide) rest _) ((takes_char '+').map _))

/-! ## Atoms -/

/-- A run of characters of a class ends where the class does. -/
theorem run_append {p : Char → Bool} {run rest : List Char} (hrun : ∀ c ∈ run, p c)
    (hrest : ∀ c ∈ rest.head?, p c = false) :
    (run ++ rest).takeWhile p = run ∧ (run ++ rest).dropWhile p = rest := by
  have hend : rest.takeWhile p = [] ∧ rest.dropWhile p = rest := by
    cases rest with
    | nil => exact ⟨rfl, rfl⟩
    | cons c rest => simp [hrest c rfl]
  rw [List.takeWhile_append_of_pos hrun, List.dropWhile_append_of_pos hrun, hend.1, hend.2,
    List.append_nil]
  exact ⟨rfl, rfl⟩

/-- Digits are read up to the first character that is none. -/
theorem digits_append {ds rest : List Char} (hne : ds ≠ []) (hds : ∀ c ∈ ds, c.isDigit)
    (hrest : ∀ c ∈ rest.head?, c.isDigit = false) : digits (ds ++ rest) = .done ds rest := by
  obtain ⟨htake, hdrop⟩ := run_append hds hrest
  simp [digits, htake, hdrop, hne]

/-- What stands in front of an exponent is read up to it. -/
theorem mantissa_append {decimal : Decimal} (h : decimal.WellFormed) {rest : List Char}
    (hdigit : ∀ c ∈ rest.head?, c.isDigit = false) (hpoint : ∀ c ∈ rest.head?, c ≠ '.') :
    mantissa (decimal.whole ++ (decimal.fraction.elim [] ('.' :: ·) ++ rest)) =
      .done (decimal.whole ++ decimal.fraction.elim [] ('.' :: ·)) rest := by
  have hnopoint : ∃ after, char '.' rest = .stuck after := by
    cases rest with
    | nil => exact ⟨[], rfl⟩
    | cons c rest => exact ⟨c :: rest, by simp [char, Reader.satisfying, hpoint c rfl]⟩
  have hfront (text : List Char) : char '.' ('.' :: text) = .done '.' text := by
    simp [char, Reader.satisfying]
  obtain ⟨stuck, hstuck⟩ := hnopoint
  by_cases hwhole : decimal.whole = []
  · obtain ⟨ds, hds, hne⟩ : ∃ ds ∈ decimal.fraction, ds ≠ [] := by simpa [hwhole] using h.nonempty
    have hnodigits : digits ('.' :: (ds ++ rest)) = .stuck ('.' :: (ds ++ rest)) := by
      simp [digits, show Char.isDigit '.' = false from by decide]
    have hread := digits_append hne (h.fraction ds hds) hdigit
    simp [mantissa, oneOf, orElse, Reader.andThen, Reader.before, Reader.map, succeed, hwhole,
      Option.mem_def.mp hds, hnodigits, hfront, hread]
  · cases hfraction : decimal.fraction with
    | none =>
      have hread := digits_append hwhole h.whole hdigit
      simp [mantissa, oneOf, orElse, Reader.andThen, Reader.before, Reader.map, Reader.optional,
        succeed, hread, hstuck]
    | some ds =>
      have hread : digits (decimal.whole ++ '.' :: (ds ++ rest)) =
          .done decimal.whole ('.' :: (ds ++ rest)) := digits_append hwhole h.whole (by simp)
      obtain ⟨htake, hdrop⟩ := run_append (h.fraction ds hfraction) hdigit
      simp [mantissa, oneOf, orElse, Reader.andThen, Reader.before, Reader.map, Reader.optional,
        succeed, hread, hfront, htake, hdrop]

/-- An exponent is read up to the first character that is no digit. -/
theorem exponent_append {exponent : Exponent} (h : exponent.WellFormed) {rest : List Char}
    (hdigit : ∀ c ∈ rest.head?, c.isDigit = false) :
    Grammar.exponent (exponent.letters ++ rest) = .done exponent.letters rest := by
  have hread := digits_append h.nonempty h.digits hdigit
  obtain ⟨c, ds, hdigits⟩ := List.exists_cons_of_ne_nil h.nonempty
  have hc : c.isDigit := h.digits c (hdigits ▸ List.mem_cons_self)
  have hnosign : c ≠ '+' ∧ c ≠ '-' :=
    ⟨by rintro rfl; exact absurd hc (by decide), by rintro rfl; exact absurd hc (by decide)⟩
  rw [hdigits, List.cons_append] at hread
  cases hsign : exponent.sign with
  | none =>
    simp [Grammar.exponent, Exponent.letters, Reader.satisfying, h.mark, Reader.andThen,
      Reader.optional, Reader.map, succeed, hsign, hdigits, hnosign, hread]
  | some sign =>
    simp [Grammar.exponent, Exponent.letters, Reader.satisfying, h.mark, Reader.andThen,
      Reader.optional, Reader.map, succeed, hsign, hdigits, h.sign sign hsign, hread]

/-- A numeral is taken for its value. -/
theorem takes_number {decimal : Decimal} (h : decimal.WellFormed) (hvalue : decimal.value?.isSome) :
    number.Takes At (fun _ => True) [decimal.letters] (.literal (decimal.value?.getD .null)) := by
  rintro rest text - ⟨after, rfl, hdetached, hafter⟩
  refine ⟨after, ?_, hafter⟩
  have hgap : ∀ c ∈ after.head?, c.isDigit = false ∧ c ≠ '.' ∧ c ≠ 'e' ∧ c ≠ 'E' := fun c hc =>
    of_isTokenGap (p := fun c => c.isDigit = false ∧ c ≠ '.' ∧ c ≠ 'e' ∧ c ≠ 'E') (by decide) c
      (hdetached c hc)
  have hlexeme : (mantissa.andThen fun m => (optional Grammar.exponent).map fun e => m ++ e.getD [])
      (decimal.letters ++ after) = .done decimal.letters after := by
    rw [Decimal.letters, List.append_assoc, List.append_assoc]
    cases hexponent : decimal.exponent with
    | none =>
      have hread := mantissa_append h (fun c hc => (hgap c hc).1) fun c hc => (hgap c hc).2.1
      have hnone : ∃ stuck, Grammar.exponent after = .stuck stuck := by
        cases after with
        | nil => exact ⟨[], rfl⟩
        | cons c after =>
          exact ⟨c :: after, by
            simp [Grammar.exponent, Reader.andThen, Reader.satisfying, (hgap c rfl).2.2]⟩
      obtain ⟨stuck, hstuck⟩ := hnone
      simp [Reader.andThen, Reader.map, Reader.optional, succeed, hread, hstuck]
    | some exponent =>
      have hwell := h.exponent exponent hexponent
      have hmark : ∀ c ∈ (exponent.letters ++ after).head?, c.isDigit = false ∧ c ≠ '.' := by
        rintro c ⟨⟩
        rcases hwell.mark with hmark | hmark <;> rw [hmark] <;> decide
      have hread := mantissa_append h (fun c hc => (hmark c hc).1) fun c hc => (hmark c hc).2
      have hread' := exponent_append hwell fun c hc => (hgap c hc).1
      simp [Reader.andThen, Reader.map, Reader.optional, succeed, hread, hread']
  obtain ⟨value, hsome⟩ := Option.isSome_iff_exists.mp hvalue
  have hnumeral : (Binary64.ofNumeral? decimal.letters).bind Value.ofBinary64? = some value := hsome
  simp only [number, hlexeme, hnumeral, hsome, Option.getD_some]

/-- A string literal is taken for its content. -/
theorem takes_stringLiteral {quote : Char} {inside : List Char} {content : String}
    (h : (Atom.quoted quote inside content).WellSpelled) :
    stringLiteral.Takes At (fun _ => True) [(Atom.quoted quote inside content).letters] content := by
  obtain ⟨hquote, hcontent⟩ := h
  rintro rest text - ⟨after, rfl, -, hafter⟩
  obtain ⟨inside', hinside, hread⟩ := exists_of_quotedContent hcontent
  obtain rfl := List.append_cancel_right hinside
  exact ⟨after, by simp [Atom.letters, stringLiteral, hquote, hread], hafter⟩

/-- A name is taken as it is. -/
theorem takes_name {s : String} (h : isName s) : name.Takes At (fun _ => True) [s.toList] s := by
  rintro rest text - ⟨after, rfl, hdetached, hafter⟩
  obtain ⟨c, letters, hs, hstart, hparts⟩ := exists_of_isName h
  have hgap : ∀ c ∈ after.head?, isNamePart c = false := fun c hc =>
    of_isTokenGap (p := fun c => isNamePart c = false) (by decide) c (hdetached c hc)
  obtain ⟨htake, hdrop⟩ := run_append (fun d hd => hparts d (List.mem_cons_of_mem c hd)) hgap
  have hletters : String.ofList (c :: letters) = s := by rw [← hs, String.ofList_toList]
  refine ⟨after, ?_, hafter⟩
  simp only [hs, List.cons_append, name, Reader.andThen, Reader.satisfying, hstart, ↓reduceIte,
    htake, hdrop, hletters]

/-- A numeral is stuck at what is neither a digit nor a point. -/
theorem balks_number {q : Char → Bool} {tokens : List Token} (h : StartsIn q tokens)
    (hq : ∀ c, q c → c.isDigit = false ∧ c ≠ '.') : number.Balks At tokens := by
  intro text hplace
  have hmantissa : ∃ stuck, mantissa text = .stuck stuck := by
    have hhead := h.head hplace
    cases text with
    | nil => exact ⟨_, rfl⟩
    | cons c text =>
      have hc := hq c (hhead c rfl)
      exact ⟨c :: text, by
        simp [mantissa, oneOf, orElse, Reader.andThen, Reader.before, digits, char,
          Reader.satisfying, hc]⟩
  obtain ⟨stuck, hstuck⟩ := hmantissa
  exact ⟨stuck, by simp only [number, Reader.andThen, hstuck]⟩

/-- Digits are stuck at what is none. -/
theorem balks_digits {q : Char → Bool} {tokens : List Token} (h : StartsIn q tokens)
    (hq : ∀ c, q c → c.isDigit = false) : digits.Balks At tokens := by
  intro text hplace
  have hhead := h.head hplace
  cases text with
  | nil => exact ⟨[], rfl⟩
  | cons c text => exact ⟨c :: text, by simp [digits, hq c (hhead c rfl)]⟩

/-- A string literal is stuck at what is no quote. -/
theorem balks_stringLiteral {q : Char → Bool} {tokens : List Token} (h : StartsIn q tokens)
    (hq : ∀ c, q c → c ≠ '"' ∧ c ≠ '\'') : stringLiteral.Balks At tokens := by
  intro text hplace
  have hhead := h.head hplace
  cases text with
  | nil => exact ⟨[], rfl⟩
  | cons c text => exact ⟨c :: text, by simp [stringLiteral, hq c (hhead c rfl)]⟩

/-- A name is stuck at what does not start one. -/
theorem balks_name {q : Char → Bool} {tokens : List Token} (h : StartsIn q tokens)
    (hq : ∀ c, q c → isNameStart c = false) : name.Balks At tokens :=
  (balks_satisfying h hq).andThen _

/-- A numeral without a point and an exponent is taken for its digits. -/
theorem takes_digits {ds : List Char} (hne : ds ≠ []) (hds : ∀ c ∈ ds, c.isDigit) :
    digits.Takes At (fun _ => True) [ds] ds := by
  rintro rest text - ⟨after, rfl, hdetached, hafter⟩
  refine ⟨after, digits_append hne hds fun c hc => ?_, hafter⟩
  exact of_isTokenGap (p := fun c => c.isDigit = false) (by decide) c (hdetached c hc)

/-- No digit starts a name. -/
theorem not_isNameStart_of_isDigit {c : Char} (h : c.isDigit) : isNameStart c = false := by
  have hrange : 48 ≤ c.toNat ∧ c.toNat ≤ 57 := by
    simp only [Char.isDigit, Bool.and_eq_true, decide_eq_true_eq] at h
    exact h
  have hnone : ∀ n ∈ List.range 58, 48 ≤ n → isNameStart (Char.ofNat n) = false := by decide
  rw [← Char.ofNat_toNat c]
  exact hnone c.toNat (List.mem_range.mpr (by omega)) hrange.1

/-- The key of an entry is taken. -/
theorem takes_key {atom : Atom} (h : atom.IsKey) :
    (spaced (oneOf [stringLiteral, name, digits.map String.ofList])).Takes Stands (fun _ => True)
      [atom.letters] atom.key := by
  refine Takes.spaced ?_
  cases atom with
  | decimal d =>
    obtain ⟨hwell, hplain⟩ := h
    obtain ⟨hfraction, hexponent⟩ := hplain d rfl
    have hletters : d.letters = d.whole := by simp [Decimal.letters, hfraction, hexponent]
    have hne : d.whole ≠ [] := by simpa [hfraction] using hwell.nonempty
    obtain ⟨c, rest, hwhole⟩ := List.exists_cons_of_ne_nil hne
    have hstart (tokens : List Token) : StartsIn Char.isDigit ([d.whole] ++ tokens) := by
      rw [hwhole]
      exact startsIn_cons (hwell.whole c (hwhole ▸ List.mem_cons_self)) rest tokens
    rw [Atom.letters, Atom.key, hletters]
    refine .orElse_of_balks (fun tokens _ => balks_stringLiteral (hstart tokens) fun c hc => ?_)
      (.orElse_of_balks (fun tokens _ => balks_name (hstart tokens) fun c hc => ?_)
        ((takes_digits hne hwell.whole).map _))
    · exact ⟨by rintro rfl; exact absurd hc (by decide), by rintro rfl; exact absurd hc (by decide)⟩
    · exact not_isNameStart_of_isDigit hc
  | quoted quote inside content => exact (takes_stringLiteral h.1).orElse _
  | named s =>
    obtain ⟨c, rest, hs, hc, -⟩ := exists_of_isName h.1
    refine .orElse_of_balks (fun tokens _ => ?_) ((takes_name h.1).orElse _)
    have hstart : StartsIn isNameStart ([(Atom.named s).letters] ++ tokens) := by
      rw [Atom.letters, hs]
      exact startsIn_cons hc rest tokens
    refine balks_stringLiteral hstart fun c hc => ?_
    exact ⟨by rintro rfl; exact absurd hc (by decide), by rintro rfl; exact absurd hc (by decide)⟩

/-- An atom is read as an operand. -/
theorem takes_atom {atom : Atom} (h : atom.IsOperand) (steps : Nat) (nested : Reader Expr) :
    (primary steps nested).Takes Stands (Stops 9) [atom.letters] atom.expr := by
  have hall : (primary steps nested).Takes Stands (fun _ => True) [atom.letters] atom.expr := by
    refine Takes.spaced ?_
    cases atom with
    | decimal d => exact (takes_number h.1 (h.2 d rfl)).orElse _
    | quoted quote inside content =>
      refine .orElse_of_balks (fun rest _ => ?_) (((takes_stringLiteral h.1).map _).orElse _)
      have hstart : StartsIn (fun c => c = '"' || c = '\'')
          ([(Atom.quoted quote inside content).letters] ++ rest) :=
        startsIn_cons (by simpa using h.1.1) _ rest
      refine balks_number hstart fun c hc => ?_
      rw [Bool.or_eq_true, decide_eq_true_eq, decide_eq_true_eq] at hc
      rcases hc with rfl | rfl <;> decide
    | named s =>
      obtain ⟨c, letters, hs, hc, -⟩ := exists_of_isName h.1
      have hstart (rest : List Token) : StartsIn isNameStart ([(Atom.named s).letters] ++ rest) := by
        rw [Atom.letters, hs]
        exact startsIn_cons hc letters rest
      have hne {c d : Char} (hd : isNameStart d = false) (hc : isNameStart c) : c ≠ d := by
        rintro rfl
        rw [hd] at hc
        exact absurd hc (by decide)
      have hchar {d : Char} (hd : isNameStart d = false) (rest : List Token) :
          (char d).Balks At ([(Atom.named s).letters] ++ rest) :=
        balks_satisfying (hstart rest) fun c hc => by simpa using hne hd hc
      refine .orElse_of_balks (fun rest _ => balks_number (hstart rest) fun c hc => ⟨?_, ?_⟩) <|
        .orElse_of_balks (fun rest _ => (balks_stringLiteral (hstart rest) fun c hc =>
          ⟨hne (by decide) hc, hne (by decide) hc⟩).andThen _) <|
        .orElse_of_balks (fun rest _ => ((((hchar (by decide) rest).andThen _).andThen _).andThen _)) <|
        .orElse_of_balks (fun rest _ => ((((hchar (by decide) rest).andThen _).andThen _).andThen _)) <|
        .orElse_of_balks (fun rest _ => (((hchar (by decide) rest).andThen _).andThen _))
          ((takes_name h.1).map _)
      · by_contra hdigit
        rw [not_isNameStart_of_isDigit (by simpa using hdigit)] at hc
        exact absurd hc (by decide)
      · exact hne (by decide) hc
  exact hall.mono fun _ _ => trivial

/-- A name behind its point is taken. -/
theorem takes_member {s : String} (h : isName s) :
    ((spaced (char '.')).before name).Takes Stands (fun _ => True) [['.'], s.toList] s := by
  intro rest text _ hplace
  obtain ⟨middle, hpoint, hmiddle⟩ := takes_char '.' _ (skip text) trivial hplace
  obtain ⟨after, hname, hafter⟩ := takes_name h rest (skip middle) trivial hmiddle
  refine ⟨after, ?_, hafter⟩
  rw [skip] at hpoint hname
  simp only [Reader.before, Reader.andThen, Reader.spaced, hpoint, hname]

/-- A bracket is neither a numeral nor a string literal. -/
theorem balks_at_bracket {d : Char} (hd : d.isDigit = false ∧ d ≠ '.' ∧ d ≠ '"' ∧ d ≠ '\'')
    (rest : List Token) : number.Balks At ([d] :: rest) ∧ stringLiteral.Balks At ([d] :: rest) := by
  refine ⟨balks_number (startsIn_char _ rest) fun c hc => ?_,
    balks_stringLiteral (startsIn_char _ rest) fun c hc => ?_⟩
  · obtain rfl : c = d := of_decide_eq_true hc
    exact ⟨hd.1, hd.2.1⟩
  · obtain rfl : c = d := of_decide_eq_true hc
    exact hd.2.2

/-! ## Lists -/

/-- The next token ends a list. -/
def EndsList (tokens : List Token) : Prop :=
  ∃ c rest, tokens = [c] :: rest ∧ (c = ')' ∨ c = ']' ∨ c = '}')

/-- The next token ends an item of a list. -/
def EndsItem (tokens : List Token) : Prop :=
  EndsList tokens ∨ ∃ rest, tokens = [','] :: rest

/-- The next token ends a list, maybe behind a last comma. -/
def EndsItems (tokens : List Token) : Prop :=
  EndsList tokens ∨ ∃ rest, tokens = [','] :: rest ∧ EndsList rest

/-- A list is not shorter than one of its members, and has no more members than tokens. -/
theorem length_listTokens (members : List (List Token)) (comma : Bool) :
    (∀ member ∈ members, member.length ≤ (listTokens members comma).length) ∧
      ((∀ member ∈ members, member ≠ []) → members.length ≤ (listTokens members comma).length) := by
  have hrest (rest : List (List Token)) : rest.length ≤ (rest.flatMap ([','] :: ·)).length ∧
      ∀ member ∈ rest, member.length ≤ (rest.flatMap ([','] :: ·)).length := by
    induction rest with
    | nil => simp
    | cons member rest ih =>
      rw [List.flatMap_cons, List.length_append]
      refine ⟨by simp only [List.length_cons]; omega, List.forall_mem_cons.mpr ⟨by
        simp only [List.length_cons]; omega, fun other hother => ?_⟩⟩
      have hle := ih.2 other hother
      omega
  cases members with
  | nil => simp
  | cons first rest =>
    obtain ⟨hcount, hmember⟩ := hrest rest
    have hlength : (listTokens (first :: rest) comma).length =
        first.length + (rest.flatMap ([','] :: ·)).length + comma.toNat := by
      cases comma <;> simp [listTokens, Nat.add_assoc]
    rw [hlength]
    refine ⟨List.forall_mem_cons.mpr ⟨by omega, fun other hother => ?_⟩, fun hne => ?_⟩
    · have hle := hmember other hother
      omega
    · have hpos := List.length_pos_iff.mpr (hne first List.mem_cons_self)
      simp only [List.length_cons]
      omega

section Lists

variable {α ι : Type} {item : Reader α} {tokensOf : ι → List Token} {value : ι → α}

/-- What ends an item is a closing mark, but no colon. -/
theorem EndsItem.exists_cons {tokens : List Token} (h : EndsItem tokens) :
    ∃ c rest, tokens = [c] :: rest ∧ isCloser c ∧ c ≠ ':' := by
  obtain ⟨c, rest, rfl, hc⟩ | ⟨rest, rfl⟩ := h
  · exact ⟨c, rest, rfl, by rcases hc with rfl | rfl | rfl <;> decide⟩
  · exact ⟨',', rest, rfl, by decide⟩

/-- What ends an item binds nothing. -/
theorem EndsItem.stops {tokens : List Token} (h : EndsItem tokens) : Stops 0 tokens := by
  obtain ⟨c, rest, rfl, hc, -⟩ := h.exists_cons
  rintro _ ⟨⟩
  exact ⟨0, le_rfl, .closer hc⟩

/-- What ends all items ends one. -/
theorem EndsItems.endsItem {tokens : List Token} (h : EndsItems tokens) : EndsItem tokens :=
  h.imp_right fun ⟨rest, htokens, _⟩ => ⟨rest, htokens⟩

/-- An item ends before further items too. -/
theorem EndsItems.before_items {tokens : List Token} (h : EndsItems tokens) (members : List (List Token)) :
    EndsItem (members.flatMap ([','] :: ·) ++ tokens) := by
  cases members with
  | nil => exact h.endsItem
  | cons member members => exact .inr ⟨_, rfl⟩

/-- A comma is stuck at the end of a list. -/
theorem EndsList.balks_comma {tokens : List Token} (h : EndsList tokens) :
    (spaced (char ',')).Balks Stands tokens := by
  obtain ⟨c, rest, rfl, hc⟩ := h
  refine (balks_satisfying (startsIn_cons (p := (· = c)) (by simp) [] rest) fun d hd => ?_).spaced
  obtain rfl : d = c := by simpa using hd
  rcases hc with rfl | rfl | rfl <;> decide

/-- Items with a comma before each are taken in order. -/
theorem takes_items {xs : List ι} (hitem : ∀ x ∈ xs, item.Takes Stands EndsItem (tokensOf x) (value x))
    (hclosed : ∀ tokens, EndsList tokens → item.Balks Stands tokens) {steps : Nat}
    (hsteps : xs.length ≤ steps) (begun : List α) :
    (foldMany (fun items item => item :: items) ((spaced (char ',')).before item) steps begun).Takes
      Stands EndsItems ((xs.map tokensOf).flatMap ([','] :: ·)) ((xs.map value).reverse ++ begun) := by
  induction xs generalizing steps begun with
  | nil =>
    cases steps with
    | zero => exact takes_succeed begun
    | succ steps =>
      intro rest text hrest hplace
      have hbalks : ((spaced (char ',')).before item).Balks Stands rest := by
        -- The comma at the end of a list is tried as one in front of an item, and left alone.
        obtain hends | ⟨after, rfl, hends⟩ := hrest
        · exact hends.balks_comma.andThen _
        · intro text hplace
          obtain ⟨middle, hread, hmiddle⟩ := (takes_char ',').spaced after text trivial hplace
          obtain ⟨stuck, hread'⟩ := hclosed after hends middle hmiddle
          exact ⟨stuck, by simp only [Reader.before, Reader.andThen, hread, hread']⟩
      obtain ⟨stuck, hread⟩ := hbalks text hplace
      exact ⟨text, by simp only [Reader.foldMany, hread]; rfl, hplace⟩
  | cons x xs ih =>
    cases steps with
    | zero => exact absurd hsteps (Nat.not_succ_le_zero _)
    | succ steps =>
      intro rest text hrest hplace
      rw [List.map_cons, List.flatMap_cons, List.append_assoc] at hplace
      obtain ⟨middle, hread, hmiddle⟩ := ((takes_char ',').spaced.before
        (hitem x List.mem_cons_self) fun _ _ => trivial) _ text (hrest.before_items _) hplace
      obtain ⟨after, hread', hafter⟩ := ih (fun y hy => hitem y (List.mem_cons_of_mem x hy))
        (Nat.le_of_succ_le_succ hsteps) (value x :: begun) rest middle hrest hmiddle
      refine ⟨after, ?_, hafter⟩
      simp only [Reader.foldMany, hread, hread']
      simp

/-- A list with commas is taken. -/
theorem takes_commaList {xs : List ι}
    (hitem : ∀ x ∈ xs, item.Takes Stands EndsItem (tokensOf x) (value x))
    (hclosed : ∀ tokens, EndsItem tokens → item.Balks Stands tokens) {steps : Nat}
    (hsteps : xs.length ≤ steps) (comma : Bool) :
    (commaList steps item).Takes Stands EndsList (listTokens (xs.map tokensOf) comma)
      (xs.map value) := by
  have hends (tokens : List Token) (h : EndsList tokens) : item.Balks Stands tokens :=
    hclosed tokens (.inl h)
  have hcomma : (optional (spaced (char ','))).Takes Stands EndsList (if comma then [[',']] else [])
      (if comma then some ',' else none) := by
    cases comma with
    | false => exact Balks.optional fun rest hrest => hrest.balks_comma
    | true => exact (takes_char ',').spaced.optional.mono fun _ _ => trivial
  have hbefore (rest : List Token) (hrest : EndsList rest) :
      EndsItems ((if comma then [[',']] else []) ++ rest) := by
    cases comma with
    | false => exact .inl hrest
    | true => exact .inr ⟨rest, rfl, hrest⟩
  have hlist : listTokens (xs.map tokensOf) comma =
      listTokens (xs.map tokensOf) false ++ if comma then [[',']] else [] := by
    cases comma <;> simp [listTokens]
  rw [hlist]
  refine Takes.followedBy ?_ hcomma hbefore
  cases xs with
  | nil => exact (Balks.optional hclosed).andThen (takes_succeed []) fun _ h => h.endsItem
  | cons x xs =>
    have hcons : listTokens ((x :: xs).map tokensOf) false =
        tokensOf x ++ (xs.map tokensOf).flatMap ([','] :: ·) := by
      simp [listTokens]
    have hrest := (takes_items (fun y hy => hitem y (List.mem_cons_of_mem x hy)) hends
      (Nat.le_of_succ_le hsteps) [value x]).map List.reverse
    rw [hcons]
    refine (hitem x List.mem_cons_self).optional.andThen ?_ fun rest hrest => hrest.before_items _
    simpa using hrest

end Lists

/-! ## Loops -/

section Loops

variable {α β : Type} {first : Reader α} {combine : α → β → α} {item : Reader β} {steps : Nat}
  {allowed allowed' : List Token → Prop} {tokens tokens' : List Token} {a : α} {b : β}

/-- A loop has read some tokens and goes on behind them, with enough steps left. -/
def Advances (first : Reader α) (combine : α → β → α) (item : Reader β) (steps : Nat)
    (allowed : List Token → Prop) (tokens : List Token) (value : α) : Prop :=
  ∀ rest text, allowed rest → Stands (tokens ++ rest) text → ∃ left after,
    steps ≤ left + tokens.length ∧
      first.andThen (foldMany combine item steps) text = foldMany combine item left value after ∧
        Stands rest after

/-- A loop begins behind its first part. -/
theorem advances_of_takes (h : first.Takes Stands allowed tokens a) :
    Advances first combine item steps allowed tokens a := by
  intro rest text hrest hplace
  obtain ⟨after, hread, hafter⟩ := h rest text hrest hplace
  exact ⟨steps, after, Nat.le_add_right _ _, by simp only [Reader.andThen, hread], hafter⟩

/-- A loop goes on with one more part. -/
theorem Advances.next (h : Advances first combine item steps allowed tokens a)
    (hitem : item.Takes Stands allowed' tokens' b)
    (hallowed : ∀ rest, allowed' rest → allowed (tokens' ++ rest)) (hne : tokens' ≠ [])
    (hsteps : (tokens ++ tokens').length ≤ steps) :
    Advances first combine item steps allowed' (tokens ++ tokens') (combine a b) := by
  intro rest text hrest hplace
  rw [List.append_assoc] at hplace
  obtain ⟨left, middle, hleft, hread, hmiddle⟩ := h _ text (hallowed rest hrest) hplace
  obtain ⟨after, hread', hafter⟩ := hitem rest middle hrest hmiddle
  have hpos := List.length_pos_iff.mpr hne
  rw [List.length_append] at hsteps
  obtain ⟨left, rfl⟩ : ∃ less, left = less + 1 := ⟨left - 1, by omega⟩
  refine ⟨left, after, by rw [List.length_append]; omega, ?_, hafter⟩
  rw [hread]
  simp only [foldMany, hread']

/-- A loop ends before what is no part of it. -/
theorem Advances.takes (h : Advances first combine item steps allowed tokens a)
    (hitem : ∀ rest, allowed' rest → item.Balks Stands rest)
    (hallowed : ∀ rest, allowed' rest → allowed rest) :
    (first.andThen (foldMany combine item steps)).Takes Stands allowed' tokens a := by
  intro rest text hrest hplace
  obtain ⟨left, after, -, hread, hafter⟩ := h rest text (hallowed rest hrest) hplace
  refine ⟨after, ?_, hafter⟩
  rw [hread]
  cases left with
  | zero => rfl
  | succ left =>
    obtain ⟨stuck, hread'⟩ := hitem rest hrest after hafter
    simp only [foldMany, hread']

end Loops

end Grammar

end DirectiveMarkup.Expression
