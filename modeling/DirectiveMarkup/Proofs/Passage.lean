import DirectiveMarkup.Proofs.Marking
import Mathlib.Algebra.GroupWithZero.Nat

/-!
# What the pass counts along a row of marks

The pass bounds the work of reading and evaluating an expression before it is read. Its two counts
are followed along a row of marks: the last number of operators, and the deepest nesting on the
way. Both limits hold of a source exactly when they hold of these two. Rows of marks are then put
together as texts are from tokens: operands, operators, brackets around something, and lists.
-/

namespace DirectiveMarkup.Expression

namespace Load

/-- The counts after a row of marks. -/
def run (load : Load) (marks : List Mark) : Load :=
  marks.foldl step load

/-- The deepest nesting on the way through a row of marks. -/
def peak (load : Load) : List Mark → Nat
  | [] => load.nesting
  | mark :: rest => max load.nesting ((load.step mark).peak rest)

/-- A row of marks leads from one load to another, and `top` is the deepest nesting on the way. -/
structure Passes (load : Load) (marks : List Mark) (top : Nat) (final : Load) : Prop where
  run_eq : load.run marks = final
  peak_eq : load.peak marks = top

section Rows

variable {load middle final : Load} {mark : Mark} {marks marks' : List Mark} {top top' : Nat}

/-- The way starts where it starts. -/
theorem nesting_le_peak (load : Load) (marks : List Mark) : load.nesting ≤ load.peak marks := by
  cases marks with
  | nil => exact le_rfl
  | cons => exact le_max_left _ _

/-- The way ends where it ends. -/
theorem nesting_run_le_peak (load : Load) (marks : List Mark) :
    (load.run marks).nesting ≤ load.peak marks := by
  induction marks generalizing load with
  | nil => exact le_rfl
  | cons mark marks ih => exact (ih (load.step mark)).trans (le_max_right _ _)

/-- The deepest nesting of two rows is that of one of them. -/
theorem peak_append (load : Load) (marks marks' : List Mark) :
    load.peak (marks ++ marks') = max (load.peak marks) ((load.run marks).peak marks') := by
  induction marks generalizing load with
  | nil => exact (max_eq_right (nesting_le_peak load marks')).symm
  | cons mark marks ih => rw [List.cons_append, peak, peak, ih, max_assoc]; rfl

/-- Two ways in a row are a way. -/
theorem Passes.append (h : Passes load marks top middle) (h' : Passes middle marks' top' final) :
    Passes load (marks ++ marks') (max top top') final := by
  obtain ⟨rfl, rfl⟩ := h
  obtain ⟨rfl, rfl⟩ := h'
  exact ⟨List.foldl_append, peak_append load marks marks'⟩

/-- A way ends within its deepest nesting. -/
theorem Passes.nesting_le (h : Passes load marks top final) : final.nesting ≤ top := by
  obtain ⟨rfl, rfl⟩ := h
  exact nesting_run_le_peak load marks

/-- A way starts within its deepest nesting. -/
theorem Passes.nesting_start (h : Passes load marks top final) : load.nesting ≤ top := by
  obtain ⟨rfl, rfl⟩ := h
  exact nesting_le_peak load marks

/-- Without marks nothing changes. -/
theorem Passes.nil (load : Load) : Passes load [] load.nesting load :=
  ⟨rfl, rfl⟩

/-- One mark is a step. -/
theorem Passes.single (load : Load) (mark : Mark) :
    Passes load [mark] (max load.nesting (load.step mark).nesting) (load.step mark) :=
  ⟨rfl, rfl⟩

end Rows

/-! ## Limits -/

/-- The operators that were counted stay counted. -/
theorem operators_le_step (load : Load) (mark : Mark) :
    load.operators ≤ (load.step mark).operators := by
  have hcount : load.operators ≤ load.countOperator.operators := by
    simp only [countOperator]
    split
    · exact Nat.le_succ _
    · exact le_rfl
  cases mark with
  | literal | operand | separator | blank | question => exact le_rfl
  | opening | operator => exact hcount
  | coalesce => exact Nat.le_succ _
  | sign =>
    simp only [step]
    split
    · exact hcount
    · exact le_rfl
  | closing =>
    simp only [step]
    split <;> exact le_rfl

/-- The operators that were counted stay counted to the end. -/
theorem operators_le_run (load : Load) (marks : List Mark) :
    load.operators ≤ (load.run marks).operators := by
  induction marks generalizing load with
  | nil => exact le_rfl
  | cons mark marks ih => exact (operators_le_step load mark).trans (ih (load.step mark))

/-- A load is within the limits when both counts are. -/
theorem fault?_eq_none_iff (load : Load) :
    load.fault? = none ↔ load.nesting ≤ maxNesting ∧ load.operators ≤ maxOperators := by
  unfold fault?
  split_ifs <;> simp <;> omega

/-- Blanks do not change the counts. -/
theorem run_filter (load : Load) (marks : List Mark) :
    load.run (marks.filter (· ≠ .blank)) = load.run marks := by
  induction marks generalizing load with
  | nil => rfl
  | cons mark marks ih =>
    by_cases hblank : mark = .blank
    · rw [List.filter_cons_of_neg (by simpa using hblank), ih, hblank]
      rfl
    · rw [List.filter_cons_of_pos (by simpa using hblank)]
      exact ih (load.step mark)

/-- Blanks do not add to the nesting. -/
theorem peak_filter (load : Load) (marks : List Mark) :
    load.peak (marks.filter (· ≠ .blank)) = load.peak marks := by
  induction marks generalizing load with
  | nil => rfl
  | cons mark marks ih =>
    by_cases hblank : mark = .blank
    · rw [List.filter_cons_of_neg (by simpa using hblank), ih, hblank]
      exact (max_eq_right (nesting_le_peak load marks)).symm
    · rw [List.filter_cons_of_pos (by simpa using hblank), peak, peak, ih]

end Load

/-- No limit is exceeded exactly when neither the deepest nesting nor the last count of operators
exceeds one. -/
theorem firstExcess_eq_none_iff {load : Load} (hload : load.operators ≤ maxOperators)
    (hnesting : load.nesting ≤ maxNesting) (marks : List (Nat × Mark)) :
    firstExcess load marks = none ↔ load.peak (marks.map Prod.snd) ≤ maxNesting ∧
      (load.run (marks.map Prod.snd)).operators ≤ maxOperators := by
  induction marks generalizing load with
  | nil => simp [firstExcess, Load.peak, Load.run, hload, hnesting]
  | cons entry marks ih =>
    obtain ⟨offset, mark⟩ := entry
    have hpeak := (load.step mark).nesting_le_peak (marks.map Prod.snd)
    have hrun := (load.step mark).operators_le_run (marks.map Prod.snd)
    have hcons : load.run (mark :: marks.map Prod.snd) = (load.step mark).run (marks.map Prod.snd) :=
      rfl
    rw [firstExcess, List.map_cons, Load.peak, hcons, Nat.max_le]
    cases hfault : (load.step mark).fault? with
    | none =>
      obtain ⟨hnesting', hload'⟩ := (Load.fault?_eq_none_iff _).mp hfault
      simp only [ih hload' hnesting', hnesting, true_and]
    | some fault =>
      have hexcess : ¬((load.step mark).nesting ≤ maxNesting ∧
          (load.step mark).operators ≤ maxOperators) := by
        rw [← Load.fault?_eq_none_iff, hfault]
        exact Option.some_ne_none fault
      simp only [reduceCtorEq, false_iff]
      omega

/-- A source is within the limits exactly when its counted marks are. -/
theorem excess?_eq_none_iff (source : List Char) :
    excess? source = none ↔ Load.start.peak (counted source) ≤ maxNesting ∧
      (Load.start.run (counted source)).operators ≤ maxOperators := by
  rw [excess?, firstExcess_eq_none_iff (by decide) (by decide), counted, countedFrom,
    Load.peak_filter, Load.run_filter, marks]

/-! ## Single marks -/

namespace Load

variable {current signs operators height marked : Nat} {enclosing : List Nat} {after : Bool}

/-- What a way measures may be told in another form. -/
theorem Passes.congr {load final final' : Load} {marks : List Mark} {top top' : Nat}
    (h : Passes load marks top final) (htop : top = top') (hfinal : final = final') :
    Passes load marks top' final' :=
  htop ▸ hfinal ▸ h

/-- The brackets around add up. -/
theorem nesting_mk : (Load.mk current enclosing signs operators after).nesting =
    current + enclosing.sum + signs :=
  rfl

/-- An operand takes the signs in front of it back. -/
theorem passes_operand {mark : Mark} (hmark : mark = .operand ∨ mark = .literal) :
    Passes ⟨current, enclosing, signs, operators, after⟩ [mark] (current + enclosing.sum + signs)
      ⟨current, enclosing, 0, operators, true⟩ := by
  have hstep : step ⟨current, enclosing, signs, operators, after⟩ mark =
      ⟨current, enclosing, 0, operators, true⟩ := by
    rcases hmark with rfl | rfl <;> rfl
  refine (Passes.single _ mark).congr ?_ hstep
  rw [hstep, nesting_mk, nesting_mk]
  omega

/-- Several operands are as one. -/
theorem passes_operands {marks : List Mark} (hne : marks ≠ [])
    (hmarks : ∀ mark ∈ marks, mark = .operand) :
    Passes ⟨current, enclosing, signs, operators, after⟩ marks (current + enclosing.sum + signs)
      ⟨current, enclosing, 0, operators, true⟩ := by
  induction marks generalizing signs after with
  | nil => exact absurd rfl hne
  | cons mark marks ih =>
    have hfirst : Passes ⟨current, enclosing, signs, operators, after⟩ [mark]
        (current + enclosing.sum + signs) ⟨current, enclosing, 0, operators, true⟩ :=
      passes_operand (.inl (hmarks mark List.mem_cons_self))
    cases marks with
    | nil => exact hfirst
    | cons next marks =>
      refine (hfirst.append (ih (List.cons_ne_nil _ _) fun mark hm =>
        hmarks mark (List.mem_cons_of_mem _ hm))).congr ?_ rfl
      omega

/-- Characters of names and digits are as one operand, if there are any. -/
theorem passes_run {token : Token} (h : ∀ c ∈ token, isNamePart c) :
    Passes ⟨current, enclosing, signs, operators, after⟩ (counted token)
      (current + enclosing.sum + signs)
      ⟨current, enclosing, if token = [] then signs else 0, operators, after || token ≠ []⟩ := by
  rw [counted_of_isNamePart h]
  cases token with
  | nil => exact (Passes.nil _).congr rfl (by simp)
  | cons c token =>
    refine (passes_operands (by simp) fun mark hm => List.eq_of_mem_replicate hm).congr rfl ?_
    simp

/-- A separator is not counted. -/
theorem passes_separator : Passes ⟨current, enclosing, signs, operators, after⟩ [.separator]
    (current + enclosing.sum + signs) ⟨current, enclosing, signs, operators, false⟩ :=
  (Passes.single _ _).congr (max_self _) rfl

/-- An operator is counted behind an operand. -/
theorem passes_operator : Passes ⟨current, enclosing, signs, operators, after⟩ [.operator]
    (current + enclosing.sum + signs)
      ⟨current, enclosing, signs, operators + (if after then 1 else 0), false⟩ :=
  (Passes.single _ _).congr (max_self _) (by cases after <;> rfl)

/-- A sign that stands behind no operand is one more in front of the next one. -/
theorem passes_sign : Passes ⟨current, enclosing, signs, operators, false⟩ [.sign]
    (current + enclosing.sum + (signs + 1)) ⟨current, enclosing, signs + 1, operators, false⟩ :=
  (Passes.single _ _).congr (max_eq_right (Nat.le_succ _)) rfl

/-- A sign behind an operand is an operator. -/
theorem passes_sign_behind : Passes ⟨current, enclosing, signs, operators, true⟩ [.sign]
    (current + enclosing.sum + signs) ⟨current, enclosing, signs, operators + 1, false⟩ :=
  (Passes.single _ _).congr (max_self _) rfl

/-- A conditional is opened in its bracket. -/
theorem passes_question : Passes ⟨current, enclosing, signs, operators, after⟩ [.question]
    (current + 1 + enclosing.sum + signs) ⟨current + 1, enclosing, signs, operators, false⟩ :=
  (Passes.single _ _).congr (max_eq_right (by simp only [nesting_mk, step]; omega)) rfl

/-! ## Brackets and lists -/

/-- Tokens between brackets have a deepest nesting and a number of operators, wherever the
brackets stand. -/
def Holds (tokens : List Token) (height marked : Nat) : Prop :=
  ∀ current enclosing operators, ∃ open' after, Passes ⟨current, enclosing, 0, operators, false⟩
    (tokens.flatMap counted) (current + enclosing.sum + height)
      ⟨open', enclosing, 0, operators + marked, after⟩

/-- Brackets take the signs in front of them into what is between them. -/
theorem passes_brackets {opening closing : Token} {tokens : List Token}
    (hopening : counted opening = [.opening]) (hclosing : counted closing = [.closing])
    (h : Holds tokens height marked) :
    Passes ⟨current, enclosing, signs, operators, after⟩
      ((opening :: (tokens ++ [closing])).flatMap counted)
      (current + enclosing.sum + (signs + 1 + height))
      ⟨current, enclosing, 0, operators + (if after then 1 else 0) + marked, true⟩ := by
  have hopen : Passes ⟨current, enclosing, signs, operators, after⟩ [.opening]
      (signs + 1 + (current :: enclosing).sum)
      ⟨signs + 1, current :: enclosing, 0, operators + (if after then 1 else 0), false⟩ := by
    refine (Passes.single _ _).congr ?_ (by cases after <;> rfl)
    simp only [nesting_mk, step, List.sum_cons]
    omega
  obtain ⟨open', after', hinner⟩ := h (signs + 1) (current :: enclosing)
    (operators + if after then 1 else 0)
  have hclose : Passes ⟨open', current :: enclosing, 0,
      operators + (if after then 1 else 0) + marked, after'⟩ [.closing] _
      ⟨current, enclosing, 0, operators + (if after then 1 else 0) + marked, true⟩ :=
    .single _ _
  have hlast := hinner.nesting_le
  have hmarks : (opening :: (tokens ++ [closing])).flatMap counted =
      [Mark.opening] ++ (tokens.flatMap counted ++ [Mark.closing]) := by
    simp [hopening, hclosing]
  rw [hmarks]
  refine (hopen.append (hinner.append hclose)).congr ?_ rfl
  simp only [nesting_mk, step, List.sum_cons] at hlast ⊢
  omega

/-- A member of a list leaves conditionals open for the members behind it. -/
def Measures (tokens : List Token) (questions height marked : Nat) : Prop :=
  ∀ current enclosing operators, ∃ after, Passes ⟨current, enclosing, 0, operators, false⟩
    (tokens.flatMap counted) (current + enclosing.sum + height)
      ⟨current + questions, enclosing, 0, operators + marked, after⟩

/-- The deepest nesting and the operators of the members of a list. -/
inductive Listed : List (List Token) → (height marked : Nat) → Prop where
  | nil : Listed [] 0 0
  | cons {member : List Token} {members : List (List Token)}
      {questions height marked height' marked' : Nat} :
      Measures member questions height marked → Listed members height' marked' →
      Listed (member :: members) (max height (questions + height')) (marked + marked')

/-- Members with a comma before each are measured in order. -/
theorem Listed.passes {members : List (List Token)} (h : Listed members height marked)
    (current : Nat) (enclosing : List Nat) (operators : Nat) (after : Bool) :
    ∃ open' after', Passes ⟨current, enclosing, 0, operators, after⟩
      ((members.flatMap ([','] :: ·)).flatMap counted) (current + enclosing.sum + height)
        ⟨open', enclosing, 0, operators + marked, after'⟩ := by
  induction h generalizing current operators after with
  | nil => exact ⟨current, after, .nil _⟩
  | @cons member members questions height marked height' marked' hmember _ ih =>
    obtain ⟨middle, hmember⟩ := hmember current enclosing operators
    obtain ⟨open', after', hrest⟩ := ih (current + questions) (operators + marked) middle
    refine ⟨open', after', ?_⟩
    have hmarks : ((member :: members).flatMap ([','] :: ·)).flatMap counted =
        [Mark.separator] ++ (member.flatMap counted ++
          (members.flatMap ([','] :: ·)).flatMap counted) := by
      simp only [List.flatMap_cons, List.flatMap_append, List.cons_append]
      rfl
    rw [hmarks]
    refine (passes_separator.append (hmember.append hrest)).congr ?_ (by rw [Nat.add_assoc])
    omega

/-- A list is measured as its members are. -/
theorem Listed.holds {members : List (List Token)} (h : Listed members height marked) (comma : Bool) :
    Holds (listTokens members comma) height marked := by
  intro current enclosing operators
  have hmembers : ∃ open' after, Passes ⟨current, enclosing, 0, operators, false⟩
      ((listTokens members false).flatMap counted) (current + enclosing.sum + height)
        ⟨open', enclosing, 0, operators + marked, after⟩ := by
    cases h with
    | nil => exact ⟨current, false, .nil _⟩
    | @cons member members questions height marked height' marked' hmember hrest =>
      obtain ⟨middle, hmember⟩ := hmember current enclosing operators
      obtain ⟨open', after, hrest⟩ := hrest.passes (current + questions) enclosing
        (operators + marked) middle
      refine ⟨open', after, ?_⟩
      have hmarks : (listTokens (member :: members) false).flatMap counted =
          member.flatMap counted ++ (members.flatMap ([','] :: ·)).flatMap counted := by
        simp [listTokens]
      rw [hmarks]
      refine (hmember.append hrest).congr ?_ (by rw [Nat.add_assoc])
      omega
  obtain ⟨open', after, hmembers⟩ := hmembers
  cases comma with
  | false => exact ⟨open', after, hmembers⟩
  | true =>
    refine ⟨open', false, ?_⟩
    have hlast := hmembers.nesting_le
    rw [nesting_mk] at hlast
    have hmarks : (listTokens members true).flatMap counted =
        (listTokens members false).flatMap counted ++ [Mark.separator] := by
      rw [Reader.listTokens_comma, List.flatMap_append]
      rfl
    rw [hmarks]
    refine (hmembers.append passes_separator).congr ?_ rfl
    omega

end Load

end DirectiveMarkup.Expression
