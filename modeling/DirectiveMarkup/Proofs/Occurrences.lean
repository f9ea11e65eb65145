import DirectiveMarkup.Text.Search
import Mathlib.Data.List.Basic

/-!
# Splitting and replacing, character by character

The functions that split and replace keep what they have passed in reverse. Here they get plain
equations: at the head of a text the separator either begins, and is consumed as a whole, or
does not, and one character is passed. The first occurrence of a pattern is characterised by
what stands before it.
-/

namespace DirectiveMarkup.Text

variable {separator : List Char}

/-! ## Splitting -/

/-- Finished parts stay in front. -/
theorem splitAfter_parts (parts : List (List Char)) (current : List Char) (skip : Nat)
    (text : List Char) :
    splitAfter separator parts current skip text =
      parts.reverse ++ splitAfter separator [] current skip text := by
  induction text generalizing parts current skip with
  | nil => simp [splitAfter]
  | cons c rest ih =>
    cases skip with
    | succ skip => simpa only [splitAfter] using ih parts current skip
    | zero =>
      simp only [splitAfter]
      split
      · rw [ih (current.reverse :: parts), ih [current.reverse]]
        simp
      · exact ih parts (c :: current) 0

/-- Characters that belong to an occurrence are passed over. -/
theorem splitAfter_skip (parts : List (List Char)) (current : List Char) (skip : Nat)
    (text : List Char) :
    splitAfter separator parts current skip text =
      splitAfter separator parts current 0 (text.drop skip) := by
  induction text generalizing skip with
  | nil => simp [splitAfter]
  | cons c rest ih =>
    cases skip with
    | zero => rfl
    | succ skip => simpa only [splitAfter, List.drop_succ_cons] using ih skip

/-- The current part is put in front of the first part of the rest. -/
theorem splitAfter_current (current text : List Char) :
    splitAfter separator [] current 0 text =
      (splitOn separator text).modifyHead (current.reverse ++ ·) := by
  unfold splitOn
  suffices h : ∀ first second, splitAfter separator [] (first ++ second) 0 text =
      (splitAfter separator [] first 0 text).modifyHead (second.reverse ++ ·) by
    simpa using h [] current
  induction text with
  | nil => simp [splitAfter]
  | cons c rest ih =>
    intro first second
    simp only [splitAfter]
    split
    · rw [splitAfter_parts, splitAfter_parts [first.reverse]]
      simp
    · exact ih (c :: first) second

/-- There is always a first part. -/
theorem splitOn_ne_nil (text : List Char) : splitOn separator text ≠ [] := by
  unfold splitOn
  suffices h : ∀ current skip, splitAfter separator [] current skip text ≠ [] from h [] 0
  induction text with
  | nil => simp [splitAfter]
  | cons c rest ih =>
    intro current skip
    cases skip with
    | succ skip => simpa only [splitAfter] using ih current skip
    | zero =>
      simp only [splitAfter]
      split
      · rw [splitAfter_parts]
        simp
      · exact ih (c :: current) 0

/-- An occurrence at the head ends an empty part. -/
theorem splitOn_append (h : separator ≠ []) (text : List Char) :
    splitOn separator (separator ++ text) = [] :: splitOn separator text := by
  obtain ⟨c, rest, rfl⟩ := List.exists_cons_of_ne_nil h
  have hbegins : (c :: rest).isPrefixOf (c :: (rest ++ text)) = true := by
    simp
  rw [List.cons_append, splitOn, splitAfter]
  simp only [hbegins, ↓reduceIte]
  rw [splitAfter_parts, splitAfter_skip]
  simp [splitOn]

/-- A character at which no occurrence begins belongs to the first part. -/
theorem splitOn_cons {c : Char} {rest : List Char} (h : ¬ separator <+: c :: rest) :
    splitOn separator (c :: rest) = (splitOn separator rest).modifyHead (c :: ·) := by
  have hbegins : separator.isPrefixOf (c :: rest) = false :=
    Bool.eq_false_iff.mpr (mt List.isPrefixOf_iff_prefix.mp h)
  rw [splitOn, splitAfter]
  simp only [hbegins, Bool.false_eq_true, ↓reduceIte]
  simpa using splitAfter_current [c] rest

/-! ## Replacing -/

variable {pattern : List Char} (replacement : List Char)

/-- In the empty text there is nothing to replace. -/
@[simp] theorem replaceAll_nil : replaceAll pattern replacement [] = [] := by
  simp [replaceAll, joinWith]

/-- An occurrence at the head is replaced. -/
theorem replaceAll_append (h : pattern ≠ []) (text : List Char) :
    replaceAll pattern replacement (pattern ++ text) =
      replacement ++ replaceAll pattern replacement text := by
  obtain ⟨part, parts, hparts⟩ := List.exists_cons_of_ne_nil (@splitOn_ne_nil pattern text)
  rw [replaceAll, splitOn_append h, replaceAll, hparts]
  simp [joinWith, List.intercalate]

/-- A character at which no occurrence begins stays. -/
theorem replaceAll_cons {c : Char} {rest : List Char} (h : ¬ pattern <+: c :: rest) :
    replaceAll pattern replacement (c :: rest) = c :: replaceAll pattern replacement rest := by
  obtain ⟨part, parts, hparts⟩ := List.exists_cons_of_ne_nil (@splitOn_ne_nil pattern rest)
  rw [replaceAll, splitOn_cons h, replaceAll, hparts]
  cases parts <;> simp [joinWith, List.intercalate]

/-- Characters at which no occurrence begins stay. -/
theorem replaceAll_append_of_forall {first rest : List Char}
    (h : ∀ before c after, first = before ++ c :: after → ¬ pattern <+: c :: (after ++ rest)) :
    replaceAll pattern replacement (first ++ rest) =
      first ++ replaceAll pattern replacement rest := by
  induction first with
  | nil => rfl
  | cons c first ih =>
    rw [List.cons_append, replaceAll_cons replacement (h [] c first rfl), ih]
    · rfl
    · intro before d after hfirst
      exact h (c :: before) d after (by rw [hfirst]; rfl)

/-! ## Finding -/

/-- Taking a pattern off a text leaves what follows the pattern. -/
theorem isPrefixOf?_eq_some_iff {text rest : List Char} :
    pattern.isPrefixOf? text = some rest ↔ text = pattern ++ rest := by
  induction pattern generalizing text with
  | nil => simp [List.isPrefixOf?, eq_comm]
  | cons c pattern ih =>
    cases text with
    | nil => simp [List.isPrefixOf?]
    | cons d text =>
      by_cases hc : c = d
      · simp [List.isPrefixOf?, hc, ih]
      · simp [List.isPrefixOf?, hc, Ne.symm hc]

/-- An occurrence at the head is found. -/
theorem breakAfter_append (h : pattern ≠ []) (passed text : List Char) :
    breakAfter pattern passed (pattern ++ text) = some (passed.reverse, text) := by
  obtain ⟨c, rest, rfl⟩ := List.exists_cons_of_ne_nil h
  have hbegins : (c :: rest).isPrefixOf? (c :: (rest ++ text)) = some text :=
    isPrefixOf?_eq_some_iff.mpr rfl
  rw [List.cons_append, breakAfter, hbegins]

/-- A character at which no occurrence begins is passed. -/
theorem breakAfter_cons {c : Char} {rest : List Char} (h : ¬ pattern <+: c :: rest)
    (passed : List Char) :
    breakAfter pattern passed (c :: rest) = breakAfter pattern (c :: passed) rest := by
  have hbegins : pattern.isPrefixOf? (c :: rest) = none := by
    refine Option.eq_none_iff_forall_ne_some.mpr fun after hafter => h ⟨after, ?_⟩
    exact (isPrefixOf?_eq_some_iff.mp hafter).symm
  rw [breakAfter, hbegins]

/-- What has been passed stands in front of what is found. -/
theorem breakAfter_eq_map (passed text : List Char) :
    breakAfter pattern passed text =
      (breakAt pattern text).map fun (before, after) => (passed.reverse ++ before, after) := by
  unfold breakAt
  suffices h : ∀ first second, breakAfter pattern (first ++ second) text =
      (breakAfter pattern first text).map fun (before, after) => (second.reverse ++ before, after) by
    exact h [] passed
  induction text with
  | nil =>
    intro first second
    rw [breakAfter, breakAfter]
    split_ifs <;> simp
  | cons c rest ih =>
    intro first second
    rw [breakAfter, breakAfter]
    cases pattern.isPrefixOf? (c :: rest) with
    | some after => simp
    | none => exact ih (c :: first) second

/-- The first occurrence is at the head of a text, or else behind its first character. -/
theorem breakAt_cons (c : Char) (rest : List Char) :
    breakAt pattern (c :: rest) =
      match pattern.isPrefixOf? (c :: rest) with
      | some after => some ([], after)
      | none => (breakAt pattern rest).map fun (before, after) => (c :: before, after) := by
  rw [breakAt, breakAfter]
  cases pattern.isPrefixOf? (c :: rest) with
  | some after => rfl
  | none => exact breakAfter_eq_map [c] rest

/-- A text is cut at the first occurrence of the pattern, before which there is none. -/
theorem of_breakAt_eq_some (hpattern : pattern ≠ []) {text before after : List Char}
    (h : breakAt pattern text = some (before, after)) :
    text = before ++ (pattern ++ after) ∧ ¬ pattern <:+: before := by
  induction text generalizing before with
  | nil => simp [breakAt, breakAfter, hpattern] at h
  | cons c rest ih =>
    rw [breakAt_cons] at h
    cases hbegins : pattern.isPrefixOf? (c :: rest) with
    | some behind =>
      rw [hbegins] at h
      obtain ⟨hbefore, rfl⟩ := Prod.mk.inj (Option.some.inj h)
      rw [← hbefore]
      refine ⟨?_, fun hin => hpattern (List.infix_nil.mp hin)⟩
      rw [List.nil_append, isPrefixOf?_eq_some_iff.mp hbegins]
    | none =>
      rw [hbegins] at h
      obtain ⟨⟨first, behind⟩, hfound, heq⟩ := Option.map_eq_some_iff.mp h
      obtain ⟨rfl, rfl⟩ := Prod.mk.inj heq
      obtain ⟨rfl, hfirst⟩ := ih hfound
      refine ⟨rfl, fun hin => ?_⟩
      rcases List.infix_cons_iff.mp hin with ⟨inside, hinside⟩ | hinside
      · have hhead := isPrefixOf?_eq_some_iff.mpr
          (show c :: (first ++ (pattern ++ behind)) = pattern ++ (inside ++ (pattern ++ behind)) by
            rw [← List.append_assoc pattern inside, hinside, List.cons_append])
        exact nomatch hbegins.symm.trans hhead
      · exact hfirst hinside

/-- A text that is not cut has no occurrence of the pattern. -/
theorem of_breakAt_eq_none (hpattern : pattern ≠ []) {text : List Char}
    (h : breakAt pattern text = none) : ¬ pattern <:+: text := by
  induction text with
  | nil => exact fun hin => hpattern (List.infix_nil.mp hin)
  | cons c rest ih =>
    rw [breakAt_cons] at h
    cases hbegins : pattern.isPrefixOf? (c :: rest) with
    | some behind =>
      rw [hbegins] at h
      exact nomatch h
    | none =>
      rw [hbegins] at h
      intro hin
      rcases List.infix_cons_iff.mp hin with ⟨behind, hbehind⟩ | hinside
      · exact nomatch hbegins.symm.trans (isPrefixOf?_eq_some_iff.mpr hbehind.symm)
      · exact ih (Option.map_eq_none_iff.mp h) hinside

/-- What follows an occurrence is no longer than the text. -/
theorem length_of_breakAt {text before after : List Char}
    (h : breakAt pattern text = some (before, after)) : after.length ≤ text.length := by
  rw [breakAt] at h
  generalize [] = passed at h
  induction text generalizing passed with
  | nil =>
    simp only [breakAfter] at h
    split_ifs at h
    simp_all
  | cons c rest ih =>
    rw [breakAfter] at h
    cases hbegins : pattern.isPrefixOf? (c :: rest) with
    | some behind =>
      simp only [hbegins, Option.some.injEq, Prod.mk.injEq] at h
      obtain ⟨-, rfl⟩ := h
      rw [isPrefixOf?_eq_some_iff.mp hbegins, List.length_append]
      exact Nat.le_add_left _ _
    | none =>
      simp only [hbegins] at h
      exact Nat.le_succ_of_le (ih (c :: passed) h)

/-- The first occurrence is found behind characters at which none begins. -/
theorem breakAt_append (hpattern : pattern ≠ []) {first : List Char} (rest : List Char)
    (h : ∀ before c after, first = before ++ c :: after →
      ¬ pattern <+: c :: (after ++ (pattern ++ rest))) :
    breakAt pattern (first ++ (pattern ++ rest)) = some (first, rest) := by
  suffices hpassed : ∀ passed, breakAfter pattern passed (first ++ (pattern ++ rest)) =
      some (passed.reverse ++ first, rest) from hpassed []
  induction first with
  | nil => simpa using fun passed => breakAfter_append hpattern passed rest
  | cons c first ih =>
    intro passed
    rw [List.cons_append, breakAfter_cons (h [] c first rfl), ih]
    · simp
    · intro before d after hfirst
      exact h (c :: before) d after (by rw [hfirst]; rfl)

/-- True of a pattern that cannot overlap itself: none of its proper ends begins it. -/
def Unbordered (pattern : List Char) : Prop :=
  ∀ back, back <:+ pattern → back <+: pattern → back ≠ [] → back = pattern

/-- A pattern whose first character does not come again cannot overlap itself. -/
theorem unbordered_cons {c : Char} {rest : List Char} (h : c ∉ rest) : Unbordered (c :: rest) := by
  intro back hsuffix hbegins hne
  rcases List.suffix_cons_iff.mp hsuffix with hback | hback
  · exact hback
  · obtain ⟨d, back, rfl⟩ := List.exists_cons_of_ne_nil hne
    obtain ⟨rfl, -⟩ := List.cons_prefix_cons.mp hbegins
    exact absurd (hback.subset List.mem_cons_self) h

/-- The first occurrence of a pattern that cannot overlap itself is found behind a text in which
it does not occur. -/
theorem breakAt_of_absent (hborder : Unbordered pattern) (hpattern : pattern ≠ [])
    {first : List Char} (h : ¬ pattern <:+: first) (rest : List Char) :
    breakAt pattern (first ++ (pattern ++ rest)) = some (first, rest) := by
  refine breakAt_append hpattern rest fun before c after hfirst hoccurs => h ?_
  have hafter : c :: after <:+ first := ⟨before, hfirst.symm⟩
  obtain ⟨behind, hbehind⟩ := hoccurs
  rw [← List.cons_append] at hbehind
  rcases List.append_eq_append_iff.mp hbehind with ⟨middle, hmiddle, -⟩ | ⟨middle, hmiddle, hend⟩
  · exact ((List.prefix_append pattern middle).trans (hmiddle ▸ List.prefix_rfl)).isInfix.trans
      hafter.isInfix
  · by_cases hempty : middle = []
    · rw [hmiddle, hempty, List.append_nil]
      exact hafter.isInfix
    · have hsuffix : middle <:+ pattern := ⟨c :: after, hmiddle.symm⟩
      have hbegins : middle <+: pattern :=
        List.prefix_of_prefix_length_le ⟨behind, hend.symm⟩ (List.prefix_append pattern rest)
          hsuffix.length_le
      have hlength := congrArg List.length (hborder middle hsuffix hbegins hempty)
      have hmiddleLength := congrArg List.length hmiddle
      simp only [List.length_append, List.length_cons] at hmiddleLength
      omega

end DirectiveMarkup.Text
