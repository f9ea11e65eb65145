import DirectiveMarkup.Proofs.Taking
import Mathlib.Tactic.IntervalCases

/-!
# Reading phrases back

A text in which gaps stand between all tokens is read as the phrase that its tokens form. The
readers of the grammar are ordered by how tightly they bind, and a phrase that is read at its own
rank is read at all lower ones. Accesses and operators of one level are read in a loop, which is
followed from the innermost left operand outwards.

The number of steps that a reader is given is enough when there are no more tokens than steps.
-/

namespace DirectiveMarkup.Expression

namespace Grammar

open Reader

/-! ## Ranks -/

/-- The operators of a rank. -/
def level (rank : Nat) : List (String × BinaryOp) :=
  levels.getD (6 - rank) []

/-- The operators of each rank are a level. -/
theorem isLevel_level {rank : Nat} (hlow : 1 ≤ rank) (hhigh : rank ≤ 6) : IsLevel rank (level rank) := by
  refine ⟨?_, fun op hop => ?_, ?_⟩
  · interval_cases rank <;> decide
  · subst hop
    cases op <;> decide
  · interval_cases rank <;> decide

section Ranks

variable (steps : Nat) (nested : Reader Expr)

/-- The reader of the expressions that bind at least as tightly as a rank. -/
def readerAt : (rank : Nat) → Reader Expr
  | 0 => conditional steps nested
  | 8 => postfixed steps nested
  | 9 => primary steps nested
  | rank => (levels.take (7 - rank)).foldl (fun operand spellings =>
      leftGrouped steps (operatorAmong spellings) operand) (unary steps nested steps)

/-- An operator and the operand behind it. -/
def rightOperand (rank : Nat) : Reader (BinaryOp × Expr) :=
  (spaced (operatorAmong (level rank))).andThen fun op =>
    (readerAt steps nested (rank + 1)).map fun right => (op, right)

/-- A phrase is read from a rank on. -/
def ReadAt (phrase : Phrase) : (rank : Nat) → Prop
  | 0 => (conditional steps nested).Takes Stands (Stops 0) phrase.tokens phrase.expr
  | 7 => ∀ signs, phrase.tokens.length ≤ signs →
      (unary steps nested signs).Takes Stands (Stops 7) phrase.tokens phrase.expr
  | 8 => Advances (primary steps nested) (fun object access => access object) (access steps nested)
      steps (Stops 9) phrase.tokens phrase.expr
  | 9 => (primary steps nested).Takes Stands (Stops 9) phrase.tokens phrase.expr
  | rank => Advances (readerAt steps nested (rank + 1)) (fun left (op, right) => .binary op left right)
      (rightOperand steps nested rank) steps (Stops (rank + 1)) phrase.tokens phrase.expr

variable {steps nested} {phrase : Phrase} {rank : Nat}

/-- Operands of a rank are read in a loop. -/
theorem readerAt_eq (hlow : 1 ≤ rank) (hhigh : rank ≤ 6) : readerAt steps nested rank =
    (readerAt steps nested (rank + 1)).andThen (foldMany
      (fun left (op, right) => .binary op left right) (rightOperand steps nested rank) steps) := by
  interval_cases rank <;> rfl

/-- A phrase is read in a loop at the rank of an operator. -/
theorem readAt_eq (hlow : 1 ≤ rank) (hhigh : rank ≤ 6) : ReadAt steps nested phrase rank =
    Advances (readerAt steps nested (rank + 1)) (fun left (op, right) => .binary op left right)
      (rightOperand steps nested rank) steps (Stops (rank + 1)) phrase.tokens phrase.expr := by
  interval_cases rank <;> rfl

/-- An operator with its right operand is taken as one part of a loop. -/
theorem takes_rightOperand (hlow : 1 ≤ rank) (hhigh : rank ≤ 6) {op : BinaryOp} (hop : op.rank = rank)
    (h : (readerAt steps nested (rank + 1)).Takes Stands (Stops (rank + 1)) phrase.tokens
      phrase.expr) :
    (rightOperand steps nested rank).Takes Stands (Stops (rank + 1))
      (op.spelling.toList :: phrase.tokens) (op, phrase.expr) :=
  (takes_operatorAmong (isLevel_level hlow hhigh) hop).andThen (h.map _) fun _ _ => trivial

/-- An access does not fit what binds less tightly. -/
theorem balks_access {tokens : List Token} (h : Stops 8 tokens) :
    (access steps nested).Balks Stands tokens := by
  have hstart : StartsIn (fun c => c != '.' && c != '[' && c != '(') tokens := by
    intro token htoken
    obtain ⟨tightness, hle, hfollows⟩ := h token htoken
    cases hfollows with
    | @closer c hc =>
      exact ⟨c, [], rfl, of_isCloser (p := fun c => (c != '.' && c != '[' && c != '(') = true)
        (by decide) c hc⟩
    | question => exact ⟨'?', [], rfl, by decide⟩
    | operator op => cases op <;> exact ⟨_, _, rfl, by decide⟩
    | access => exact absurd hle (by decide)
  have hmark {c : Char} (hc : c = '.' ∨ c = '[' ∨ c = '(') : (spaced (char c)).Balks Stands tokens := by
    refine (balks_satisfying hstart fun d hd => ?_).spaced
    simp only [Bool.and_eq_true, bne_iff_ne] at hd
    rcases hc with rfl | rfl | rfl <;> simp [hd]
  refine balks_oneOf fun reader hreader => ?_
  simp only [List.mem_cons, List.not_mem_nil, or_false] at hreader
  rcases hreader with rfl | rfl | rfl
  · exact ((hmark (.inl rfl)).andThen _).andThen _
  · exact (((hmark (.inr (.inl rfl))).andThen _).andThen _).andThen _
  · exact (((hmark (.inr (.inr rfl))).andThen _).andThen _).andThen _

/-- A phrase that is read from a rank on is taken there. -/
theorem takes_of_readAt (hrank : rank ≤ 9) (hsteps : phrase.tokens.length ≤ steps)
    (h : ReadAt steps nested phrase rank) :
    (readerAt steps nested rank).Takes Stands (Stops rank) phrase.tokens phrase.expr := by
  rcases Nat.eq_zero_or_pos rank with rfl | hlow
  · exact h
  by_cases hhigh : rank ≤ 6
  · rw [readAt_eq hlow hhigh] at h
    rw [readerAt_eq hlow hhigh]
    exact h.takes (fun rest hrest => (balks_operatorAmong (isLevel_level hlow hhigh) hrest).andThen _)
      fun rest hrest => hrest.mono (Nat.le_succ rank)
  · obtain rfl | rfl | rfl : rank = 7 ∨ rank = 8 ∨ rank = 9 := by omega
    · exact h steps hsteps
    · exact h.takes (fun rest hrest => balks_access hrest) fun rest hrest => hrest.mono (by decide)
    · exact h

/-- The tokens of a phrase that binds more tightly than a sign start as an operand. -/
theorem startsIn_startsOperand (h : phrase.WellFormed) (hrank : 8 ≤ phrase.rank) (rest : List Token) :
    StartsIn startsOperand (phrase.tokens ++ rest) := by
  obtain ⟨c, token, tokens, hstart, hc⟩ := h.exists_cons
  rw [hstart]
  exact startsIn_cons (hc.resolve_right fun hc => by omega) token (tokens ++ rest)

/-- No operand starts with a sign. -/
theorem balks_unaryOperator {tokens : List Token} {q : Char → Bool} (h : StartsIn q tokens)
    (hq : ∀ c, q c → c ≠ '!' ∧ c ≠ '-' ∧ c ≠ '+') : (spaced unaryOperator).Balks Stands tokens := by
  refine (balks_oneOf fun reader hreader => ?_).spaced
  simp only [List.mem_cons, List.not_mem_nil, or_false] at hreader
  rcases hreader with rfl | rfl | rfl
  · exact (balks_satisfying h fun c hc => by simpa using (hq c hc).1).andThen _
  · exact (balks_satisfying h fun c hc => by simpa using (hq c hc).2.1).andThen _
  · exact (balks_satisfying h fun c hc => by simpa using (hq c hc).2.2).andThen _

/-- Where nothing binds an expression there is a closing mark or nothing. -/
theorem startsIn_isCloser {tokens : List Token} (h : Stops 0 tokens) : StartsIn isCloser tokens := by
  intro token htoken
  obtain ⟨tightness, hle, hfollows⟩ := h token htoken
  cases hfollows with
  | closer hc => exact ⟨_, [], rfl, hc⟩
  | question | operator | access => omega

/-- A phrase without a conditional at its top is read as an expression too. -/
theorem takes_conditional
    (h : (readerAt steps nested 1).Takes Stands (Stops 1) phrase.tokens phrase.expr) :
    (conditional steps nested).Takes Stands (Stops 0) phrase.tokens phrase.expr := by
  have hquestion {tokens : List Token} (htokens : Stops 0 tokens) :
      (spaced (char '?')).Balks Stands tokens :=
    (balks_satisfying (startsIn_isCloser htokens) (of_isCloser (by decide))).spaced
  rw [← List.append_nil phrase.tokens]
  unfold conditional
  refine Takes.andThen h (Takes.map (Balks.optional fun rest hrest => ?_) _) fun rest hrest => ?_
  · exact ((hquestion hrest).andThen _).andThen _
  · exact hrest.mono (Nat.zero_le 1)

/-- A phrase that is read from one rank on is read from the next looser one. -/
theorem ReadAt.looser (hwell : phrase.WellFormed) (hphrase : rank + 1 ≤ phrase.rank)
    (hsteps : phrase.tokens.length ≤ steps) (h : ReadAt steps nested phrase (rank + 1)) :
    ReadAt steps nested phrase rank := by
  have hrank := phrase.rank_le
  have htakes := takes_of_readAt (by omega) hsteps h
  rcases Nat.eq_zero_or_pos rank with rfl | hlow
  · exact takes_conditional htakes
  by_cases hhigh : rank ≤ 6
  · -- The phrase is the innermost left operand of a loop that has not begun.
    rw [readAt_eq hlow hhigh]
    exact advances_of_takes htakes
  · obtain rfl | rfl : rank = 7 ∨ rank = 8 := by omega
    · intro signs _
      have hpostfixed := htakes.mono fun rest (hrest : Stops 7 rest) => hrest.mono (Nat.le_succ 7)
      cases signs with
      | zero => exact hpostfixed
      | succ signs =>
        refine .orElse_of_balks (fun rest _ => ?_) hpostfixed
        refine (balks_unaryOperator (startsIn_startsOperand hwell hphrase rest) ?_).andThen _
        intro c hc
        refine ⟨?_, ?_, ?_⟩
        all_goals
          rintro rfl
          exact absurd hc (by decide)
    · exact advances_of_takes htakes

/-- A phrase that is read at its own rank is read at every looser one. -/
theorem ReadAt.of_le (hwell : phrase.WellFormed) (hsteps : phrase.tokens.length ≤ steps)
    (h : ReadAt steps nested phrase phrase.rank) (hrank : rank ≤ phrase.rank) :
    ReadAt steps nested phrase rank := by
  induction hrank using Nat.decreasingInduction with
  | self => exact h
  | of_succ rank hlt ih => exact ih.looser hwell hlt hsteps

end Ranks

/-! ## Closing marks -/

/-- An expression does not fit a closing mark. -/
theorem balks_expression (steps : Nat) {tokens : List Token} (h : StartsIn isCloser tokens) :
    (expression steps).Balks Stands tokens := by
  cases steps with
  | zero => exact fun text _ => ⟨text, rfl⟩
  | succ steps =>
    have hchar {d : Char} (hd : isCloser d = false) : (char d).Balks At tokens := by
      refine balks_satisfying h fun c hc => decide_eq_false ?_
      rintro rfl
      exact Bool.false_ne_true (hd.symm.trans hc)
    have hprimary : (primary steps (expression steps)).Balks Stands tokens := by
      refine (balks_oneOf fun reader hreader => ?_).spaced
      simp only [List.mem_cons, List.not_mem_nil, or_false] at hreader
      rcases hreader with rfl | rfl | rfl | rfl | rfl | rfl
      · exact balks_number h (of_isCloser (by decide))
      · exact (balks_stringLiteral h (of_isCloser (by decide))).andThen _
      · exact (((hchar (by decide)).andThen _).andThen _).andThen _
      · exact (((hchar (by decide)).andThen _).andThen _).andThen _
      · exact ((hchar (by decide)).andThen _).andThen _
      · exact (balks_name h (of_isCloser (by decide))).andThen _
    have hpostfixed : (postfixed steps (expression steps)).Balks Stands tokens := hprimary.andThen _
    have hunary : (unary steps (expression steps) steps).Balks Stands tokens := by
      cases steps with
      | zero => exact hpostfixed
      | succ steps =>
        exact ((balks_unaryOperator h (of_isCloser (by decide))).andThen _).orElse hpostfixed
    exact ((((((hunary.andThen _).andThen _).andThen _).andThen _).andThen _).andThen _).andThen _

/-- An entry of an object does not fit a closing mark. -/
theorem balks_entry (nested : Reader Expr) {tokens : List Token} (h : StartsIn isCloser tokens) :
    (entry nested).Balks Stands tokens := by
  refine Balks.andThen (Balks.spaced (balks_oneOf fun reader hreader => ?_)) _
  simp only [List.mem_cons, List.not_mem_nil, or_false] at hreader
  rcases hreader with rfl | rfl | rfl
  · exact balks_stringLiteral h (of_isCloser (by decide))
  · exact balks_name h (of_isCloser (by decide))
  · exact (balks_digits h (of_isCloser (by decide))).andThen _

/-! ## Phrases -/

/-- Given as many steps as it has tokens, a phrase is read at its rank. -/
def IsRead (phrase : Phrase) : Prop :=
  ∀ steps, phrase.tokens.length ≤ steps → ReadAt steps (expression steps) phrase phrase.rank

section Phrases

variable {steps : Nat} {phrase : Phrase}

/-- A phrase is taken as an expression when there are more steps than tokens. -/
theorem IsRead.takes (h : IsRead phrase) (hwell : phrase.WellFormed)
    (hsteps : phrase.tokens.length < steps) :
    (expression steps).Takes Stands (Stops 0) phrase.tokens phrase.expr := by
  obtain ⟨steps, rfl⟩ : ∃ fewer, steps = fewer + 1 := ⟨steps - 1, by omega⟩
  have hread := (h steps (by omega)).of_le hwell (by omega) (Nat.zero_le _)
  exact hread

/-- Items that are read are taken as a list. -/
theorem takes_list {items : List Phrase} (hread : ∀ item ∈ items, IsRead item)
    (hwell : ∀ item ∈ items, item.WellFormed) (comma : Bool)
    (hsteps : (listTokens (items.map Phrase.tokens) comma).length < steps) :
    (commaList steps (expression steps)).Takes Stands EndsList
      (listTokens (items.map Phrase.tokens) comma) (items.map Phrase.expr) := by
  obtain ⟨hmember, hcount⟩ := length_listTokens (items.map Phrase.tokens) comma
  refine takes_commaList (fun item hitem => ?_)
    (fun tokens htokens => balks_expression steps (startsIn_isCloser htokens.stops)) ?_ comma
  · have hlength := hmember _ (List.mem_map_of_mem hitem)
    exact ((hread item hitem).takes (hwell item hitem) (by omega)).mono fun rest hrest => hrest.stops
  · have hle := hcount fun tokens htokens => by
      obtain ⟨item, hitem, rfl⟩ := List.mem_map.mp htokens
      obtain ⟨c, token, tokens, hstart, -⟩ := (hwell item hitem).exists_cons
      rw [hstart]
      exact List.cons_ne_nil _ _
    rw [List.length_map] at hle
    omega

/-- An entry that is read is taken. -/
theorem takes_entry {item : Atom × Option Phrase} (hkey : item.1.IsKey)
    (hvalue : ∀ value ∈ item.2, (expression steps).Takes Stands (Stops 0) value.tokens value.expr) :
    (entry (expression steps)).Takes Stands EndsItem (entryTokens item) (entryField item) := by
  obtain ⟨key, value⟩ := item
  cases value with
  | none =>
    have hnone : (optional ((spaced (char ':')).before (expression steps))).Takes Stands EndsItem []
        none := by
      refine Balks.optional fun rest hrest => Balks.andThen ?_ _
      obtain ⟨c, rest, rfl, -, hc⟩ := hrest.exists_cons
      exact (balks_satisfying (startsIn_cons (p := (· = c)) (by simp) [] rest)
        (by simpa using hc)).spaced
    exact (takes_key hkey).andThen (hnone.map _) fun _ _ => trivial
  | some value =>
    have hsome := ((takes_char ':').spaced.before (hvalue value rfl) fun _ _ => trivial).optional
    exact ((takes_key hkey).andThen (hsome.map _) fun _ _ => trivial).mono fun rest hrest =>
      hrest.stops

/-- Entries that are read are taken as a list. -/
theorem takes_entries {entries : List (Atom × Option Phrase)}
    (hkeys : ∀ entry ∈ entries, entry.1.IsKey)
    (hread : ∀ entry ∈ entries, ∀ value ∈ entry.2, IsRead value)
    (hwell : ∀ entry ∈ entries, ∀ value ∈ entry.2, value.WellFormed) (comma : Bool)
    (hsteps : (listTokens (entries.map entryTokens) comma).length < steps) :
    (commaList steps (entry (expression steps))).Takes Stands EndsList
      (listTokens (entries.map entryTokens) comma) (entries.map entryField) := by
  obtain ⟨hmember, hcount⟩ := length_listTokens (entries.map entryTokens) comma
  refine takes_commaList (fun item hitem => ?_)
    (fun tokens htokens => balks_entry _ (startsIn_isCloser htokens.stops)) ?_ comma
  · refine takes_entry (hkeys item hitem) fun value hvalue => ?_
    have hlength := hmember _ (List.mem_map_of_mem hitem)
    have hshorter : value.tokens.length < (entryTokens item).length := by
      obtain ⟨key, _⟩ := item
      obtain rfl : _ = some value := hvalue
      simp only [entryTokens, List.length_cons]
      omega
    exact (hread item hitem value hvalue).takes (hwell item hitem value hvalue) (by omega)
  · have hle := hcount fun tokens htokens => by
      obtain ⟨⟨key, value⟩, -, rfl⟩ := List.mem_map.mp htokens
      cases value <;> exact List.cons_ne_nil _ _
    rw [List.length_map] at hle
    omega

/-- A closing bracket ends a list. -/
theorem endsList_closer {d : Char} (hd : d = ')' ∨ d = ']' ∨ d = '}') (rest : List Token) :
    EndsList ([d] :: rest) :=
  ⟨d, rest, rfl, hd⟩

/-- A closing mark ends every expression. -/
theorem stops_closer {d : Char} (hd : isCloser d) (rest : List Token) : Stops 0 ([d] :: rest) := by
  rintro _ ⟨⟩
  exact ⟨0, le_rfl, .closer hd⟩

/-- The first token of an access ends what is in front of its loop. -/
theorem stops_access {d : Char} (hd : d = '.' ∨ d = '[' ∨ d = '(') (rest : List Token) :
    Stops 9 ([d] :: rest) := by
  rintro _ ⟨⟩
  exact ⟨9, le_rfl, .access hd⟩

/-- What stands in parentheses is taken, and the gap in front of the closing one too. -/
theorem takes_group {nested : Reader Expr} {tokens : List Token} {expr : Expr}
    (h : nested.Takes Stands (Stops 0) tokens expr) :
    (((char '(').before (spaced nested)).followedBy (char ')')).Takes At (fun _ => True)
      (['('] :: (tokens ++ [[')']])) expr := by
  intro rest text _ hplace
  obtain ⟨inner, hopening, hinner⟩ := takes_char '(' (tokens ++ [[')']] ++ rest) text trivial hplace
  rw [List.append_assoc] at hinner
  obtain ⟨middle, hread, hmiddle⟩ := h _ (skip inner) (stops_closer (by decide) rest)
    (stands_skip.mpr hinner)
  obtain ⟨after, hclosing, hafter⟩ := takes_char ')' rest (skip middle) trivial hmiddle
  refine ⟨after, ?_, hafter⟩
  rw [skip] at hread hclosing
  simp only [Reader.followedBy, Reader.before, Reader.map, Reader.andThen, Reader.spaced, succeed,
    hopening, hread, hclosing]

/-- An access that is taken is one more part of its loop. -/
theorem readAt_access {receiver access' : Phrase} {tokens : List Token} {f : Expr → Expr}
    (hreceiver : receiver.WellFormed) (hrank : 8 ≤ receiver.rank) (hread : IsRead receiver)
    (haccess : (access steps (expression steps)).Takes Stands (fun _ => True) tokens f)
    (htokens : access'.tokens = receiver.tokens ++ tokens) (hexpr : access'.expr = f receiver.expr)
    (hstart : ∀ rest, Stops 9 (tokens ++ rest)) (hne : tokens ≠ [])
    (hsteps : access'.tokens.length ≤ steps) : ReadAt steps (expression steps) access' 8 := by
  rw [htokens, List.length_append] at hsteps
  have hloop : ReadAt steps (expression steps) receiver 8 :=
    (hread steps (by omega)).of_le hreceiver (by omega) hrank
  simp only [ReadAt, htokens, hexpr]
  exact Advances.next hloop (haccess.mono fun _ _ => trivial) (fun rest _ => hstart rest) hne
    (by rw [List.length_append]; exact hsteps)

/-- A phrase in parentheses is read. -/
theorem isRead_group {inner : Phrase} (hwell : inner.WellFormed) (hread : IsRead inner) :
    IsRead (.group inner) := by
  intro steps hsteps
  simp only [Phrase.tokens, List.length_cons, List.length_append, List.length_nil] at hsteps
  have hgroup := takes_group (hread.takes hwell (show _ < steps by omega))
  refine Takes.mono (Takes.spaced ?_) fun _ _ => trivial
  exact .orElse_of_balks (fun rest _ => (balks_at_bracket (by decide) _).1) <|
    .orElse_of_balks (fun rest _ => (balks_at_bracket (by decide) _).2.andThen _) <|
    .orElse_of_balks (fun rest _ => (((balks_char (by decide) _).andThen _).andThen _).andThen _) <|
    .orElse_of_balks (fun rest _ => (((balks_char (by decide) _).andThen _).andThen _).andThen _) <|
    hgroup.orElse _

/-- An array of phrases that are read is read. -/
theorem isRead_array {items : List Phrase} (hwell : ∀ item ∈ items, item.WellFormed)
    (hread : ∀ item ∈ items, IsRead item) (comma : Bool) : IsRead (.array items comma) := by
  intro steps hsteps
  rw [Phrase.tokens, itemsTokens_eq_map] at hsteps
  simp only [List.length_cons, List.length_append, List.length_nil] at hsteps
  have hlist := takes_list hread hwell comma (show _ < steps by omega)
  have hbetween := (takes_between (takes_char '[') hlist (takes_char ']').spaced
    (endsList_closer (by decide))).map Expr.array
  simp only [ReadAt, Phrase.rank, Phrase.tokens, itemsTokens_eq_map, Phrase.expr, itemsExprs_eq_map]
  refine Takes.mono (Takes.spaced ?_) fun _ _ => trivial
  exact .orElse_of_balks (fun rest _ => (balks_at_bracket (by decide) _).1) <|
    .orElse_of_balks (fun rest _ => (balks_at_bracket (by decide) _).2.andThen _) <|
    hbetween.orElse _

/-- An object with values that are read is read. -/
theorem isRead_object {entries : List (Atom × Option Phrase)}
    (hkeys : ∀ entry ∈ entries, entry.1.IsKey)
    (hwell : ∀ entry ∈ entries, ∀ value ∈ entry.2, value.WellFormed)
    (hread : ∀ entry ∈ entries, ∀ value ∈ entry.2, IsRead value) (comma : Bool) :
    IsRead (.object entries comma) := by
  intro steps hsteps
  rw [Phrase.tokens, entriesTokens_eq_map] at hsteps
  simp only [List.length_cons, List.length_append, List.length_nil] at hsteps
  have hlist := takes_entries hkeys hread hwell comma (show _ < steps by omega)
  have hbetween := (takes_between (takes_char '{') hlist (takes_char '}').spaced
    (endsList_closer (by decide))).map Expr.object
  simp only [ReadAt, Phrase.rank, Phrase.tokens, entriesTokens_eq_map, Phrase.expr,
    entriesFields_eq_map]
  refine Takes.mono (Takes.spaced ?_) fun _ _ => trivial
  exact .orElse_of_balks (fun rest _ => (balks_at_bracket (by decide) _).1) <|
    .orElse_of_balks (fun rest _ => (balks_at_bracket (by decide) _).2.andThen _) <|
    .orElse_of_balks (fun rest _ => (((balks_char (by decide) _).andThen _).andThen _).andThen _) <|
    hbetween.orElse _

/-- A sign in front of an operand that is read is read with it. -/
theorem isRead_sign (op : UnaryOp) {operand : Phrase} (hwell : operand.WellFormed)
    (hrank : 7 ≤ operand.rank) (hread : IsRead operand) : IsRead (.sign op operand) := by
  intro steps hsteps signs hsigns
  simp only [Phrase.tokens, List.length_cons] at hsteps hsigns
  obtain ⟨signs, rfl⟩ : ∃ fewer, signs = fewer + 1 := ⟨signs - 1, by omega⟩
  have hoperand := ((hread steps (by omega)).of_le hwell (by omega) hrank : ReadAt _ _ _ 7) signs
    (by omega)
  exact ((takes_unaryOperator op).andThen (hoperand.map (Expr.unary op)) fun _ _ => trivial).orElse _

/-- An operator between operands that are read is one more part of the loop of its level. -/
theorem isRead_operation {op : BinaryOp} {left right : Phrase} (hleft : left.WellFormed)
    (hright : right.WellFormed) (hleftRank : op.rank ≤ left.rank) (hrightRank : op.rank < right.rank)
    (hreadLeft : IsRead left) (hreadRight : IsRead right) : IsRead (.operation op left right) := by
  intro steps hsteps
  have hop := op.rank_bounds
  simp only [Phrase.tokens, List.length_cons, List.length_append] at hsteps
  have hloop := (hreadLeft steps (by omega)).of_le hleft (by omega) hleftRank
  have hoperand := takes_of_readAt (by have := right.rank_le; omega) (by omega)
    ((hreadRight steps (by omega)).of_le hright (by omega) hrightRank)
  rw [readAt_eq hop.1 hop.2] at hloop
  rw [Phrase.rank, readAt_eq hop.1 hop.2]
  refine hloop.next (takes_rightOperand hop.1 hop.2 rfl hoperand) (fun rest _ => ?_)
    (List.cons_ne_nil _ _) (by simp only [List.length_append, List.length_cons]; omega)
  rintro _ ⟨⟩
  exact ⟨op.rank + 1, le_rfl, .operator op⟩

/-- A conditional is read when its test and its branches are. -/
theorem isRead_conditional {test yes no : Phrase} (htest : test.WellFormed)
    (hyes : yes.WellFormed) (hno : no.WellFormed) (hrank : 1 ≤ test.rank)
    (hreadTest : IsRead test) (hreadYes : IsRead yes) (hreadNo : IsRead no) :
    IsRead (.conditional test yes no) := by
  intro steps hsteps
  simp only [Phrase.tokens, List.length_cons, List.length_append] at hsteps
  have hfirst := takes_of_readAt (by decide) (by omega)
    ((hreadTest steps (by omega)).of_le htest (by omega) hrank)
  have hsecond := (takes_char '?').spaced.before (hreadYes.takes hyes (show _ < steps by omega))
    fun _ _ => trivial
  have hthird := (takes_char ':').spaced.before (hreadNo.takes hno (show _ < steps by omega))
    fun _ _ => trivial
  have hbranches : (((spaced (char '?')).before (expression steps)).andThen fun yes =>
      ((spaced (char ':')).before (expression steps)).map fun no => (yes, no)).Takes Stands (Stops 0)
        ([['?']] ++ yes.tokens ++ ([[':']] ++ no.tokens)) (yes.expr, no.expr) :=
    hsecond.andThen (hthird.map _) fun rest _ => stops_closer (by decide) _
  refine Takes.andThen hfirst (hbranches.optional.map _) fun rest _ => ?_
  rintro _ ⟨⟩
  exact ⟨1, le_rfl, .question⟩

/-- An index behind a receiver that is read is read. -/
theorem isRead_index {receiver place : Phrase} (hreceiver : receiver.WellFormed)
    (hplace : place.WellFormed) (hrank : 8 ≤ receiver.rank) (hreadReceiver : IsRead receiver)
    (hreadPlace : IsRead place) : IsRead (.index receiver place) := by
  intro steps hsteps
  have hlength := hsteps
  simp only [Phrase.tokens, List.length_cons, List.length_append] at hlength
  have hinner := hreadPlace.takes hplace (show _ < steps by omega)
  have hbetween := (takes_between (takes_char '[').spaced hinner (takes_char ']').spaced
    (stops_closer (by decide))).map fun place object => Expr.index object place
  refine readAt_access hreceiver hrank hreadReceiver (.orElse_of_balks (fun rest _ => ?_)
    (hbetween.orElse _)) rfl rfl (fun rest => stops_access (by decide) _) (by simp) hsteps
  exact ((balks_char (by decide) _).spaced.andThen _).andThen _

/-- A call with a callee and arguments that are read is read. -/
theorem isRead_call {callee : Phrase} {arguments : List Phrase} (hcallee : callee.WellFormed)
    (harguments : ∀ argument ∈ arguments, argument.WellFormed) (hrank : 8 ≤ callee.rank)
    (hreadCallee : IsRead callee) (hreadArguments : ∀ argument ∈ arguments, IsRead argument)
    (comma : Bool) : IsRead (.call callee arguments comma) := by
  intro steps hsteps
  have hlength := hsteps
  rw [Phrase.tokens, itemsTokens_eq_map] at hlength
  simp only [List.length_cons, List.length_append] at hlength
  have hlist := takes_list hreadArguments harguments comma (show _ < steps by omega)
  have hbetween := (takes_between (takes_char '(').spaced hlist (takes_char ')').spaced
    (endsList_closer (by decide))).map fun arguments callee => Expr.call callee arguments
  refine readAt_access hcallee hrank hreadCallee (.orElse_of_balks (fun rest _ => ?_)
    (.orElse_of_balks (fun rest _ => ?_) hbetween)) (by rw [Phrase.tokens, itemsTokens_eq_map])
      (by rw [Phrase.expr, itemsExprs_eq_map]) (fun rest => stops_access (by decide) _) (by simp)
      hsteps
  · exact ((balks_char (by decide) _).spaced.andThen _).andThen _
  · exact (((balks_char (by decide) _).spaced.andThen _).andThen _).andThen _

/-- Every phrase is read at its rank. -/
theorem isRead {phrase : Phrase} (h : phrase.WellFormed) : IsRead phrase := by
  induction h with
  | atom hatom => exact fun steps _ => takes_atom hatom steps (expression steps)
  | group hwell ih => exact isRead_group hwell ih
  | @array items comma hwell ih => exact isRead_array hwell ih comma
  | @object entries comma hkeys hwell ih => exact isRead_object hkeys hwell ih comma
  | @sign op _ hwell hrank ih => exact isRead_sign op hwell hrank ih
  | operation hleft hright hleftRank hrightRank ihleft ihright =>
    exact isRead_operation hleft hright hleftRank hrightRank ihleft ihright
  | conditional htest hyes hno hrank ihtest ihyes ihno =>
    exact isRead_conditional htest hyes hno hrank ihtest ihyes ihno
  | @member receiver name hreceiver hrank hname ih =>
    exact fun steps hsteps => readAt_access hreceiver hrank ih
      (((takes_member hname).map fun name object => Expr.member object name).orElse _) rfl rfl
      (fun rest => stops_access (by decide) _) (by simp) hsteps
  | index hreceiver hplace hrank ihreceiver ihplace =>
    exact isRead_index hreceiver hplace hrank ihreceiver ihplace
  | @call callee arguments comma hcallee harguments hrank ihcallee iharguments =>
    exact isRead_call hcallee harguments hrank ihcallee iharguments comma

end Phrases

end Grammar

/-! ## Whole sources -/

/-- What starts as an operand is a token. -/
theorem isToken_of_startsOperand {c : Char} (hc : startsOperand c) (rest : List Char) :
    IsToken (c :: rest) := by
  refine ⟨c, rest, rfl, Bool.eq_false_iff.mpr fun hgap => ?_⟩
  exact of_isTokenGap (p := fun c => ¬startsOperand c) (by decide) c hgap hc

/-- A list consists of tokens when its members do. -/
theorem isToken_of_mem_listTokens {members : List (List Token)}
    (h : ∀ member ∈ members, ∀ token ∈ member, IsToken token) {comma : Bool} :
    ∀ token ∈ listTokens members comma, IsToken token := by
  have hcomma : IsToken [','] := ⟨',', [], rfl, by decide⟩
  intro token htoken
  rcases List.mem_append.mp htoken with htoken | htoken
  · cases members with
    | nil => exact absurd htoken List.not_mem_nil
    | cons first rest =>
      rcases List.mem_append.mp htoken with htoken | htoken
      · exact h first List.mem_cons_self token htoken
      · obtain ⟨member, hmember, htoken⟩ := List.mem_flatMap.mp htoken
        rcases List.mem_cons.mp htoken with rfl | htoken
        · exact hcomma
        · exact h member (List.mem_cons_of_mem first hmember) token htoken
  · cases comma with
    | false => exact absurd htoken List.not_mem_nil
    | true => exact List.mem_singleton.mp htoken ▸ hcomma

/-- Everything in a phrase is a token. -/
theorem Phrase.WellFormed.isToken {phrase : Phrase} (h : phrase.WellFormed) :
    ∀ token ∈ phrase.tokens, IsToken token := by
  have hchar {c : Char} (hc : Text.isTokenGap c = false) : IsToken [c] := ⟨c, [], rfl, hc⟩
  have hatom {atom : Atom} (h : atom.WellSpelled) : IsToken atom.letters := by
    obtain ⟨c, rest, hletters, hc⟩ := h.exists_cons
    exact hletters ▸ isToken_of_startsOperand hc rest
  have hop (op : BinaryOp) : IsToken op.spelling.toList := by
    cases op <;> exact ⟨_, _, rfl, by decide⟩
  induction h with
  | atom h => simpa [Phrase.tokens] using hatom h.1
  | group _ ih =>
    simp only [Phrase.tokens, List.forall_mem_cons, List.forall_mem_append]
    exact ⟨hchar (by decide), ih, hchar (by decide), by simp⟩
  | array _ ih =>
    simp only [Phrase.tokens, itemsTokens_eq_map, List.forall_mem_cons, List.forall_mem_append]
    refine ⟨hchar (by decide), isToken_of_mem_listTokens (by simpa using ih), hchar (by decide),
      by simp⟩
  | @object entries comma hkeys _ ih =>
    simp only [Phrase.tokens, entriesTokens_eq_map, List.forall_mem_cons, List.forall_mem_append]
    refine ⟨hchar (by decide), isToken_of_mem_listTokens ?_, hchar (by decide), by simp⟩
    simp only [List.forall_mem_map]
    rintro ⟨key, value⟩ hentry
    have hkey := hatom (hkeys _ hentry).1
    cases value with
    | none => simpa [entryTokens] using hkey
    | some value =>
      simp only [entryTokens, List.forall_mem_cons]
      exact ⟨hkey, hchar (by decide), ih _ hentry value rfl⟩
  | @sign op _ _ _ ih =>
    simp only [Phrase.tokens, List.forall_mem_cons]
    exact ⟨hchar (by cases op <;> decide), ih⟩
  | @operation op _ _ _ _ _ _ ihleft ihright =>
    simp only [Phrase.tokens, List.forall_mem_cons, List.forall_mem_append]
    exact ⟨ihleft, hop op, ihright⟩
  | conditional _ _ _ _ ihtest ihyes ihno =>
    simp only [Phrase.tokens, List.forall_mem_cons, List.forall_mem_append]
    exact ⟨ihtest, hchar (by decide), ihyes, hchar (by decide), ihno⟩
  | @member _ name _ _ hname ih =>
    have hletters : IsToken (Atom.named name).letters := hatom hname
    simp only [Phrase.tokens, List.forall_mem_cons, List.forall_mem_append]
    exact ⟨ih, hchar (by decide), hletters, by simp⟩
  | index _ _ _ ihreceiver ihplace =>
    simp only [Phrase.tokens, List.forall_mem_cons, List.forall_mem_append]
    exact ⟨ihreceiver, hchar (by decide), ihplace, hchar (by decide), by simp⟩
  | call _ _ _ ihcallee iharguments =>
    simp only [Phrase.tokens, itemsTokens_eq_map, List.forall_mem_cons, List.forall_mem_append]
    refine ⟨ihcallee, hchar (by decide), isToken_of_mem_listTokens (by simpa using iharguments),
      hchar (by decide), by simp⟩

/-- A source in which the tokens of a phrase are separated is read as the phrase. -/
theorem readWhole_of_separated {phrase : Phrase} (h : phrase.WellFormed) {source : List Char}
    (hsource : Separated phrase.tokens source) : readWhole source = .ok phrase.expr := by
  obtain ⟨hstands, hlength⟩ := hsource.stands h.isToken
  rw [← List.append_nil phrase.tokens, ← stands_skip] at hstands
  obtain ⟨after, hread, hafter⟩ := (Grammar.isRead h).takes h (Nat.lt_succ_of_le hlength) []
    (skip source) (by simp [Stops]) hstands
  have hspaced : Reader.spaced (Grammar.expression (source.length + 1)) source =
      .done phrase.expr [] := by
    rw [Reader.spaced, ← skip, hread]
    exact congrArg (Reading.done phrase.expr) hafter
  rw [readWhole, hspaced]

end DirectiveMarkup.Expression
