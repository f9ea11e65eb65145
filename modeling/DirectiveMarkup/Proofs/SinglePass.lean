import DirectiveMarkup.Proofs.Quotation

/-!
# Interpolation as one pass

A search from the left finds the spans of a text one after the other, each the leftmost one
behind the last. Interpolation asks the evaluator for the sources that are found, for every
different one once and in the order in which they are first found, up to the first that fails.

It replaces spans wherever they occur in a text that has been changed already. With the standard
evaluator the outcome is still that of one pass over the spans that were found, if no value
brings an opening brace, and then nothing is left to interpolate.
-/

namespace DirectiveMarkup.Interpolation

open Expression (Scope Value evaluateSource)

/-! ## Searching for spans -/

/-- A text begins with a span. -/
def BeginsSpan (text : List Char) : Prop :=
  ∃ source rest, '}' ∉ source ∧ text = span source ++ rest

/-- No span begins anywhere in a text. -/
def Spanless (text : List Char) : Prop :=
  ∀ before after, text = before ++ after → ¬ BeginsSpan after

/-- A span that a search finds, by its source, with the text passed since the last one. -/
structure Found where
  gap : List Char
  source : List Char

/-- What a search from the left finds in a text: its spans, each the leftmost one behind the one
before, and the text behind the last. -/
inductive Searched : List Char → List Found → List Char → Prop where
  | done {tail : List Char} : Spanless tail → Searched tail [] tail
  | found {gap source rest tail : List Char} {more : List Found} : '}' ∉ source →
      (∀ before c after, gap = before ++ c :: after →
        ¬ BeginsSpan (c :: (after ++ (span source ++ rest)))) →
      Searched rest more tail →
      Searched (gap ++ (span source ++ rest)) (⟨gap, source⟩ :: more) tail

/-- The different sources among the spans that were found, in the order in which they occur
first. -/
def asked (found : List Found) : List (List Char) :=
  (found.map Found.source).eraseDups

/-- The text that was searched, with every span that was found replaced. -/
def replaced (value : List Char → List Char) (found : List Found) (tail : List Char) : List Char :=
  found.flatMap (fun one => one.gap ++ value one.source) ++ tail

/-- A span begins at an opening brace that has a closing brace behind it. -/
theorem beginsSpan_cons {c : Char} {rest : List Char} :
    BeginsSpan (c :: rest) ↔ c = '{' ∧ '}' ∈ rest := by
  constructor
  · rintro ⟨source, after, -, htext⟩
    simp only [span, List.cons_append, List.cons.injEq] at htext
    exact ⟨htext.1, by simp [htext.2]⟩
  · rintro ⟨rfl, hclosed⟩
    obtain ⟨source, after, rfl, hsource⟩ := List.eq_append_cons_of_mem hclosed
    exact ⟨source, after, hsource, by simp [span]⟩

/-- No span begins at the end of a text. -/
theorem not_beginsSpan_nil : ¬ BeginsSpan [] := by
  rintro ⟨source, rest, -, htext⟩
  simp [span] at htext

/-- A text has no span when none begins at its first character and the rest has none. -/
theorem spanless_cons {c : Char} {rest : List Char} :
    Spanless (c :: rest) ↔ ¬ BeginsSpan (c :: rest) ∧ Spanless rest := by
  constructor
  · intro h
    exact ⟨h [] _ rfl, fun before after hrest => h (c :: before) after (by rw [hrest]; rfl)⟩
  · rintro ⟨hfirst, hrest⟩ before after htext
    cases before with
    | nil => exact (show c :: rest = after from htext) ▸ hfirst
    | cons d before => exact hrest before after (List.cons.inj htext).2

/-- Nothing has no span. -/
theorem spanless_nil : Spanless [] := by
  intro before after htext
  rw [(List.append_eq_nil_iff.mp htext.symm).2]
  exact not_beginsSpan_nil

/-- Text without an opening brace brings no span to what follows. -/
theorem Spanless.append {first second : List Char} (hfirst : '{' ∉ first) (h : Spanless second) :
    Spanless (first ++ second) := by
  induction first with
  | nil => exact h
  | cons c first ih =>
    rw [List.mem_cons, not_or] at hfirst
    refine spanless_cons.mpr ⟨fun hbegins => ?_, ih hfirst.2⟩
    exact hfirst.1 (beginsSpan_cons.mp hbegins).1.symm

/-- A text without a closing brace has no span. -/
theorem spanless_of_notMem {text : List Char} (h : '}' ∉ text) : Spanless text := by
  rintro before after rfl ⟨source, rest, -, rfl⟩
  simp [span] at h

/-- The text that a search passes in front of a span has no opening brace, since the closing
brace of the span would close it. -/
theorem notMem_gap {gap source rest : List Char}
    (h : ∀ before c after, gap = before ++ c :: after →
      ¬ BeginsSpan (c :: (after ++ (span source ++ rest)))) : '{' ∉ gap := by
  intro hmem
  obtain ⟨before, after, hgap⟩ := List.append_of_mem hmem
  exact h before '{' after hgap (beginsSpan_cons.mpr ⟨rfl, by simp [span]⟩)

/-- A search passes text without an opening brace up to a span. -/
theorem Searched.of_notMem {gap source rest tail : List Char} {more : List Found}
    (hgap : '{' ∉ gap) (hsource : '}' ∉ source) (h : Searched rest more tail) :
    Searched (gap ++ (span source ++ rest)) (⟨gap, source⟩ :: more) tail := by
  refine .found hsource (fun before c after hsplit hbegins => hgap ?_) h
  rw [hsplit, (beginsSpan_cons.mp hbegins).1]
  exact List.mem_append_right _ List.mem_cons_self

/-- Every text can be searched. -/
theorem exists_searched (text : List Char) : ∃ found tail, Searched text found tail := by
  induction spanned text with
  | nil => exact ⟨[], [], .done spanless_nil⟩
  | @plain c rest hc _ ih =>
    obtain ⟨found, tail, hsearched⟩ := ih
    cases hsearched with
    | done htail =>
      have hfirst : ¬ BeginsSpan (c :: rest) := fun hbegins => hc (beginsSpan_cons.mp hbegins).1
      exact ⟨[], c :: rest, .done (spanless_cons.mpr ⟨hfirst, htail⟩)⟩
    | @found gap source _ _ more hsource hgap hrest =>
      have hplain : '{' ∉ c :: gap := by simp [Ne.symm hc, notMem_gap hgap]
      exact ⟨⟨c :: gap, source⟩ :: more, tail, .of_notMem hplain hsource hrest⟩
  | @span source _ hsource _ ih =>
    obtain ⟨found, tail, hsearched⟩ := ih
    exact ⟨⟨[], source⟩ :: found, tail, .of_notMem List.not_mem_nil hsource hsearched⟩
  | @unclosed tail htail =>
    have hopen : '}' ∉ '{' :: tail := by simpa using htail
    exact ⟨[], '{' :: tail, .done (spanless_of_notMem hopen)⟩

/-- A text has no sources exactly when it has no spans. -/
theorem sources_eq_nil_iff {text : List Char} : sources text = [] ↔ Spanless text := by
  induction spanned text with
  | nil => exact iff_of_true rfl spanless_nil
  | @plain c rest hc _ ih =>
    rw [sources_cons hc, ih, spanless_cons, beginsSpan_cons]
    simp [hc]
  | @span source rest hsource _ _ =>
    rw [sources_span hsource]
    exact iff_of_false nofun fun h => h [] _ rfl ⟨source, rest, hsource, rfl⟩
  | @unclosed tail htail =>
    exact iff_of_true (sources_unclosed htail) (spanless_of_notMem (by simpa using htail))

namespace Searched

variable {text tail : List Char} {found : List Found}

/-- The sources of a text are those that a search finds. -/
theorem sources_eq (h : Searched text found tail) : sources text = found.map Found.source := by
  induction h with
  | done htail => exact sources_eq_nil_iff.mpr htail
  | found hsource hgap _ ih =>
    have hplain := notMem_gap hgap
    rw [sources_append (closed_of_notMem hplain), sources_eq_nil hplain, sources_span hsource, ih]
    rfl

/-- Filling a text replaces the spans that a search finds. -/
theorem fill_eq (h : Searched text found tail) (value : List Char → List Char) :
    fill value text = replaced value found tail := by
  induction h with
  | done htail =>
    have hnone := sources_eq_nil_iff.mpr htail
    exact (fill_congr (by simp [hnone])).trans (fill_self _)
  | found hsource hgap _ ih =>
    have hplain := notMem_gap hgap
    rw [fill_append value (closed_of_notMem hplain), fill_of_notMem value hplain,
      fill_span value hsource, ih]
    simp [replaced]

/-- What a source is replaced by leaves no span if it brings no opening brace. -/
theorem spanless_replaced (h : Searched text found tail) {value : List Char → List Char}
    (hclean : ∀ source ∈ found.map Found.source, '{' ∉ value source) :
    Spanless (replaced value found tail) := by
  induction h with
  | done htail => exact htail
  | @found gap source rest tail more _ hgap _ ih =>
    rw [List.map_cons, List.forall_mem_cons] at hclean
    have hfirst : '{' ∉ gap ++ value source :=
      fun hm => (List.mem_append.mp hm).elim (notMem_gap hgap) hclean.1
    simpa [replaced] using (ih hclean.2).append hfirst

end Searched

/-! ## What the evaluator is asked -/

section InTurn

variable {m : Type → Type} [Monad m]

/-- Evaluate sources in turn, and replace the span of each before the next. -/
def replaceInTurn (evaluate : String → m Value) (todo : List (List Char)) (text : List Char) :
    m (List Char) :=
  todo.foldlM (fun text source => do
    let value ← evaluate (.ofList source)
    return substitute source value text) text

/-- Interpolation replaces the different sources in turn. -/
theorem interpolate_eq_replaceInTurn (evaluate : String → m Value) (markup : String) :
    interpolate evaluate markup =
      (do
        let text ← replaceInTurn evaluate (sources markup.toList).eraseDups markup.toList
        return .ofList text) := rfl

/-- One source is replaced before the others. -/
theorem replaceInTurn_cons [LawfulMonad m] (evaluate : String → m Value) (source : List Char)
    (todo : List (List Char)) (text : List Char) :
    replaceInTurn evaluate (source :: todo) text =
      (do
        let value ← evaluate (.ofList source)
        replaceInTurn evaluate todo (substitute source value text)) := by
  simp only [replaceInTurn, List.foldlM_cons, bind_assoc, pure_bind]

/-- A text without spans is not changed. -/
theorem interpolate_of_spanless [LawfulMonad m] {text : List Char} (h : Spanless text)
    (evaluate : String → m Value) : interpolate evaluate (.ofList text) = pure (.ofList text) := by
  simp [interpolate, sources_eq_nil_iff.mpr h]

end InTurn

section Answers

variable {σ ε : Type}

/-- An evaluator that also keeps a record of the sources it was asked for and of its answers. -/
def recorded (evaluate : String → Scope → ExceptT ε (StateM σ) Value) (source : String)
    (scope : Scope) : ExceptT ε (StateM (σ × List (String × Except ε Value))) Value :=
  ExceptT.mk fun (state, record) =>
    let (answer, state') := (evaluate source scope).run.run state
    (answer, state', record ++ [(source, answer)])

/-- An evaluator has been asked for sources in turn, each once, and not again after it has failed.
The outcome is the failure, if there is one. -/
inductive Answered : List (List Char) → List (String × Except ε Value) → Except ε Unit → Prop where
  | all : Answered [] [] (.ok ())
  | value {source : List Char} {sources : List (List Char)} {value : Value}
      {record : List (String × Except ε Value)} {outcome : Except ε Unit} :
      Answered sources record outcome →
      Answered (source :: sources) ((.ofList source, .ok value) :: record) outcome
  | failure {source : List Char} {sources : List (List Char)} {error : ε} :
      Answered (source :: sources) [(.ofList source, .error error)] (.error error)

/-- A computation goes on behind a value. -/
theorem run_bind_of_ok {α β : Type} {first : ExceptT ε (StateM σ) α} {state state' : σ} {a : α}
    (h : first.run.run state = (.ok a, state')) (next : α → ExceptT ε (StateM σ) β) :
    (first >>= next).run.run state = (next a).run.run state' := by
  rw [ExceptT.run_bind, StateT.run_bind, h]
  rfl

/-- A computation ends at a failure. -/
theorem run_bind_of_error {α β : Type} {first : ExceptT ε (StateM σ) α} {state state' : σ}
    {error : ε} (h : first.run.run state = (.error error, state'))
    (next : α → ExceptT ε (StateM σ) β) :
    (first >>= next).run.run state = (.error error, state') := by
  rw [ExceptT.run_bind, StateT.run_bind, h]
  rfl

/-- The recorded evaluator answers as the evaluator does and adds the answer to its record. -/
theorem run_recorded {evaluate : String → Scope → ExceptT ε (StateM σ) Value} {scope : Scope}
    {source : String} {state state' : σ} {answer : Except ε Value}
    (h : (evaluate source scope).run.run state = (answer, state'))
    (record : List (String × Except ε Value)) :
    (recorded evaluate source scope).run.run (state, record) =
      (answer, state', record ++ [(source, answer)]) := by
  change (let (answer, state') := (evaluate source scope).run.run state
    (answer, state', record ++ [(source, answer)])) = _
  rw [h]

/-- Replacing sources in turn asks for each of them up to the first failure. -/
theorem replaceInTurn_recorded (evaluate : String → Scope → ExceptT ε (StateM σ) Value) (scope : Scope)
    (todo : List (List Char)) (text : List Char) (state : σ)
    (record : List (String × Except ε Value)) :
    ∃ result state' more,
      (replaceInTurn (evaluate · scope) todo text).run.run state = (result, state') ∧
      (replaceInTurn (recorded evaluate · scope) todo text).run.run (state, record) =
        (result, state', record ++ more) ∧
      Answered todo more (result.map fun _ => ()) := by
  induction todo generalizing text state record with
  | nil => exact ⟨.ok text, state, [], rfl, by rw [List.append_nil]; rfl, .all⟩
  | cons source todo ih =>
    cases hanswer : (evaluate (.ofList source) scope).run.run state with
    | mk answer state' =>
      have hrecord := run_recorded hanswer record
      rw [replaceInTurn_cons, replaceInTurn_cons]
      cases answer with
      | error error =>
        exact ⟨.error error, state', _, run_bind_of_error hanswer _, run_bind_of_error hrecord _,
          .failure⟩
      | ok value =>
        obtain ⟨result, state'', more, hplain, hmore, hanswered⟩ :=
          ih (substitute source value text) state' (record ++ [(.ofList source, .ok value)])
        refine ⟨result, state'', (.ofList source, .ok value) :: more, ?_, ?_, .value hanswered⟩
        · rw [run_bind_of_ok hanswer, hplain]
        · rw [run_bind_of_ok hrecord, hmore, List.append_assoc]
          rfl

end Answers

/-- The first failure of an evaluator among sources. -/
def firstFailure? {ε : Type} (evaluate : List Char → Except ε Value) (sources : List (List Char)) :
    Option ε :=
  sources.findSome? fun source =>
    match evaluate source with
    | .ok _ => none
    | .error error => some error

/-- Only what is computed first can fail if a pure function follows. -/
theorem bind_pure_eq_error_iff {ε α β : Type} {first : Except ε α} {next : α → β} {error : ε} :
    (first >>= fun a => pure (next a)) = .error error ↔ first = .error error := by
  cases first with
  | ok a => exact iff_of_false nofun nofun
  | error failure => simp [bind, Except.bind]

/-- Replacing sources in turn fails exactly when one of them fails, and as the first of these. -/
theorem replaceInTurn_eq_error_iff {ε : Type} (evaluate : String → Except ε Value) {error : ε}
    (todo : List (List Char)) (text : List Char) :
    replaceInTurn evaluate todo text = .error error ↔
      firstFailure? (fun source => evaluate (.ofList source)) todo = some error := by
  induction todo generalizing text with
  | nil => exact iff_of_false nofun nofun
  | cons source todo ih =>
    rw [replaceInTurn_cons, firstFailure?, List.findSome?_cons]
    cases hanswer : evaluate (.ofList source) with
    | error failure => simp [bind, Except.bind]
    | ok value => exact ih (substitute source value text)

/-! ## Substitution at once -/

/-- What interpolation does with a text in which a search finds some spans, in a scope. -/
structure SubstitutesAtOnce (markup : String) (scope : Scope) (found : List Found)
    (tail : List Char) : Prop where
  /-- Any evaluator, whatever it remembers, is asked for the different sources in turn until one
  of them fails, and for nothing else. The outcome is that failure, if there is one. -/
  asks : ∀ {σ ε : Type} (evaluate : String → Scope → ExceptT ε (StateM σ) Value) (state : σ),
    ∃ result state' record,
      (interpolate (evaluate · scope) markup).run.run state = (result, state') ∧
      (interpolate (recorded evaluate · scope) markup).run.run (state, []) =
        (result, state', record) ∧
      Answered (asked found) record (result.map fun _ => ())
  /-- With an evaluator that remembers nothing, interpolation fails exactly as the first of the
  sources that fails. -/
  fails : ∀ {ε : Type} (evaluate : String → Scope → Except ε Value) (error : ε),
    interpolate (evaluate · scope) markup = .error error ↔
      firstFailure? (fun source => evaluate (.ofList source) scope) (asked found) = some error
  /-- When the standard evaluator has values without opening braces for all sources, every span
  is replaced by the text of its own value, and there is nothing left to interpolate. -/
  replaces : ∀ value : List Char → Value,
    (∀ source ∈ asked found, evaluateSource (.ofList source) scope = .ok (value source)) →
    (∀ source ∈ asked found, '{' ∉ (value source).display.toList) →
    let output := replaced (fun source => (value source).display.toList) found tail
    interpolate (evaluateSource · scope) markup = .ok (.ofList output) ∧ Spanless output ∧
      ∀ {m : Type → Type} [Monad m] [LawfulMonad m] (evaluate : String → Scope → m Value)
        (scope : Scope), interpolate (evaluate · scope) (.ofList output) = pure (.ofList output)

/-- Interpolation asks for the different spans that a search from the left finds, replaces them at
once, and leaves nothing to interpolate. -/
theorem interpolate_substitutesAtOnce (markup : String) (scope : Scope) :
    (∃ found tail, Searched markup.toList found tail) ∧
      ∀ found tail, Searched markup.toList found tail →
        SubstitutesAtOnce markup scope found tail := by
  refine ⟨exists_searched markup.toList, fun found tail hsearched => ?_⟩
  have hasked : (sources markup.toList).eraseDups = asked found := by
    rw [hsearched.sources_eq, asked]
  refine ⟨?_, ?_, ?_⟩
  · intro σ ε evaluate state
    obtain ⟨result, state', record, hplain, hrecorded, hanswered⟩ :=
      replaceInTurn_recorded evaluate scope (asked found) markup.toList state []
    rw [interpolate_eq_replaceInTurn, interpolate_eq_replaceInTurn, hasked]
    cases result with
    | ok text =>
      exact ⟨.ok (.ofList text), state', record, run_bind_of_ok hplain _,
        run_bind_of_ok hrecorded _, hanswered⟩
    | error error =>
      exact ⟨.error error, state', record, run_bind_of_error hplain _,
        run_bind_of_error hrecorded _, hanswered⟩
  · intro ε evaluate error
    rw [interpolate_eq_replaceInTurn, hasked, bind_pure_eq_error_iff]
    exact replaceInTurn_eq_error_iff (evaluate · scope) (asked found) markup.toList
  · intro value heval hclean output
    have hsource {source : List Char} (hm : source ∈ sources markup.toList) :
        source ∈ asked found := hasked ▸ List.mem_eraseDups.mpr hm
    have hspanless : Spanless output := by
      refine hsearched.spanless_replaced fun source hm => hclean source ?_
      exact hsource (hsearched.sources_eq ▸ hm)
    refine ⟨?_, hspanless, fun evaluate scope => interpolate_of_spanless hspanless _⟩
    rw [interpolate_evaluateSource (fun source hm => heval source (hsource hm))
      (fun source hm => hclean source (hsource hm)), hsearched.fill_eq]

/-- A brace in a string literal, a span that occurs twice and a brace that is never closed. -/
theorem interpolate_substitutesAtOnce_literal :
    let markup := "\x7ba == '\x7ba'\x7d-\x7ba\x7d-\x7ba\x7d\x7b"
    let scope : Scope := .ofBindings [("a", .string "x")]
    let found : List Found := [⟨[], "a == '\x7ba'".toList⟩, ⟨['-'], ['a']⟩, ⟨['-'], ['a']⟩]
    Searched markup.toList found ['{'] ∧
      interpolate (evaluateSource · scope) markup = .ok "false-x-x\x7b" := by
  intro markup scope found
  have hend : Searched ['{'] [] ['{'] := .done (spanless_of_notMem (by decide))
  have hpieces : Searched ([] ++ (span "a == '\x7ba'".toList ++
      (['-'] ++ (span ['a'] ++ (['-'] ++ (span ['a'] ++ ['{'])))))) found ['{'] :=
    .of_notMem (by decide) (by decide) (.of_notMem (by decide) (by decide)
      (.of_notMem (by decide) (by decide) hend))
  have hsearched : Searched markup.toList found ['{'] := by
    have hmarkup : markup.toList = [] ++ (span "a == '\x7ba'".toList ++
        (['-'] ++ (span ['a'] ++ (['-'] ++ (span ['a'] ++ ['{']))))) := by decide
    rwa [hmarkup]
  let value (source : List Char) : Value :=
    (evaluateSource (.ofList source) scope).toOption.getD .null
  have hok : ∀ source ∈ asked found, (evaluateSource (.ofList source) scope).isOk := by
    decide +kernel
  have hvalues : ∀ source ∈ asked found,
      evaluateSource (.ofList source) scope = .ok (value source) := by
    intro source hsource
    have hanswer := hok source hsource
    cases hvalue : evaluateSource (.ofList source) scope with
    | ok answer => simp [value, hvalue, Except.toOption]
    | error error => exact absurd (hvalue ▸ hanswer) nofun
  have hclean : ∀ source ∈ asked found, '{' ∉ (value source).display.toList := by decide +kernel
  have houtput : String.ofList (replaced (fun source => (value source).display.toList) found
      ['{']) = "false-x-x\x7b" := by decide +kernel
  have hat := (interpolate_substitutesAtOnce markup scope).2 found ['{'] hsearched
  exact ⟨hsearched, houtput ▸ (hat.replaces value hvalues hclean).1⟩

end DirectiveMarkup.Interpolation
