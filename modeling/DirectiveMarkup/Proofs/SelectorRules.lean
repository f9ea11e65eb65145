import DirectiveMarkup.Proofs.Occurrences
import DirectiveMarkup.Stylesheet
import Mathlib.Data.List.Infix

/-!
# Selectors rule by rule

Resolving the selectors of a stylesheet knows nothing but its fragments between closing braces: each
is resolved for itself. The pairs are applied one after the other, and each sees what the earlier ones
have put in. What is shown is that this does no harm where a fragment has a single name in it: the
selector that takes its place holds no later name, and no later name is made of a part of the
selector and of what stands beside it. On the left the selector starts with a character that is in no
later name, and on the right no small letter follows.
-/

namespace DirectiveMarkup

open Text (splitOn joinWith replaceFirst breakAt)

namespace Text

variable {c : Char}

/-! ## Fragments -/

/-- A text is split at a separating character between two parts, and each part for itself. -/
theorem splitOn_append_cons (first second : List Char) :
    splitOn [c] (first ++ c :: second) = splitOn [c] first ++ splitOn [c] second := by
  induction first with
  | nil => exact splitOn_append (List.cons_ne_nil c []) second
  | cons d first ih =>
    by_cases hd : d = c
    · have hcons (text : List Char) : splitOn [c] (d :: text) = [] :: splitOn [c] text := by
        rw [hd]
        exact splitOn_append (List.cons_ne_nil c []) text
      rw [List.cons_append, hcons, hcons, ih, List.cons_append]
    · have hstart (text : List Char) : ¬ [c] <+: d :: text := by simp [Ne.symm hd]
      obtain ⟨part, parts, hparts⟩ := List.exists_cons_of_ne_nil (@splitOn_ne_nil [c] first)
      rw [List.cons_append, splitOn_cons (hstart _), splitOn_cons (hstart _), ih, hparts]
      rfl

/-- A text without the separating character is one part. -/
theorem splitOn_of_notMem {text : List Char} (h : c ∉ text) : splitOn [c] text = [text] := by
  induction text with
  | nil => rfl
  | cons d text ih =>
    rw [List.mem_cons, not_or] at h
    rw [splitOn_cons (by simp [h.1]), ih h.2]
    rfl

/-- Two rows of parts are joined with the separator between them. -/
theorem joinWith_append {separator : List Char} {first second : List (List Char)} (hfirst : first ≠ [])
    (hsecond : second ≠ []) :
    joinWith separator (first ++ second) =
      joinWith separator first ++ (separator ++ joinWith separator second) := by
  obtain ⟨start, parts, rfl⟩ := List.exists_cons_of_ne_nil hsecond
  induction first with
  | nil => exact absurd rfl hfirst
  | cons part first ih =>
    cases first with
    | nil => simp [joinWith, List.intercalate]
    | cons next first =>
      have hrest := ih (List.cons_ne_nil _ _)
      simp only [joinWith, List.cons_append] at hrest ⊢
      rw [List.intercalate_cons_cons, hrest, List.intercalate_cons_cons]
      simp only [List.append_assoc]

/-! ## The first occurrence -/

variable {pattern : List Char} (replacement : List Char)

/-- Where a pattern does not occur, nothing is replaced. -/
theorem replaceFirst_of_not_infix (hpattern : pattern ≠ []) {text : List Char}
    (h : ¬ pattern <:+: text) : replaceFirst pattern replacement text = text := by
  unfold replaceFirst
  cases hbreak : breakAt pattern text with
  | none => rfl
  | some parts =>
    obtain ⟨htext, -⟩ := of_breakAt_eq_some hpattern hbreak
    exact absurd ⟨parts.1, parts.2, by rw [htext, List.append_assoc]⟩ h

/-- The only occurrence of a pattern is replaced. -/
theorem replaceFirst_of_unique (hpattern : pattern ≠ []) {before after : List Char}
    (h : ∀ first rest, before ++ (pattern ++ after) = first ++ (pattern ++ rest) → first = before) :
    replaceFirst pattern replacement (before ++ (pattern ++ after)) =
      before ++ (replacement ++ after) := by
  unfold replaceFirst
  cases hbreak : breakAt pattern (before ++ (pattern ++ after)) with
  | none => exact absurd ⟨before, after, by simp⟩ (of_breakAt_eq_none hpattern hbreak)
  | some parts =>
    obtain ⟨first, rest⟩ := parts
    obtain ⟨htext, -⟩ := of_breakAt_eq_some hpattern hbreak
    obtain rfl := h first rest htext
    obtain rfl : after = rest :=
      List.append_cancel_left (List.append_cancel_left htext)
    exact List.append_assoc _ _ _

/-- Only nothing stands in front of a character that it does not have. -/
theorem eq_nil_of_prefix_cons {front text : List Char} (hc : c ∉ front) (h : front <+: c :: text) :
    front = [] := by
  cases front with
  | nil => rfl
  | cons d front =>
    obtain ⟨rfl, -⟩ := List.cons_prefix_cons.mp h
    exact absurd List.mem_cons_self hc

/-- A pattern without some character occurs on one side of that character. -/
theorem infix_append_cons_iff (hc : c ∉ pattern) {first second : List Char} :
    pattern <:+: first ++ c :: second ↔ pattern <:+: first ∨ pattern <:+: second := by
  constructor
  · intro h
    rcases List.infix_append_iff.mp h with hfirst | hbehind | ⟨front, back, rfl, hfront, hback⟩
    · exact .inl hfirst
    · rcases List.infix_cons_iff.mp hbehind with hstart | hsecond
      · rw [eq_nil_of_prefix_cons hc hstart]
        exact .inl (List.nil_infix)
      · exact .inr hsecond
    · have hnone : c ∉ back := fun hmem => hc (List.mem_append_right front hmem)
      rw [eq_nil_of_prefix_cons hnone hback, List.append_nil]
      exact .inl hfront.isInfix
  · rintro (hfirst | hsecond)
    · exact hfirst.trans (List.prefix_append first _).isInfix
    · exact hsecond.trans ((List.suffix_cons c second).trans (List.suffix_append first _)).isInfix

end Text

namespace Stylesheet

open Directive (selectors)

/-! ## One fragment at a time -/

/-- One name is looked for in each fragment for itself. -/
theorem replaceSelector_append (name replacement first second : String) :
    replaceSelector name replacement (first ++ "\x7d" ++ second) =
      replaceSelector name replacement first ++ "\x7d" ++ replaceSelector name replacement second := by
  have hsplit := @Text.splitOn_append_cons '}' first.toList second.toList
  have hparts (text : String) :
      (splitOn ['}'] text.toList).map (replaceFirst name.toList replacement.toList) ≠ [] :=
    fun h => Text.splitOn_ne_nil text.toList (List.map_eq_nil_iff.mp h)
  apply String.toList_inj.mp
  simp only [replaceSelector, String.toList_append, String.toList_ofList, List.append_assoc]
  change joinWith ['}'] ((splitOn ['}'] (first.toList ++ '}' :: second.toList)).map _) = _
  rw [hsplit, List.map_append, Text.joinWith_append (hparts first) (hparts second)]
  rfl

/-- Names are looked for in each fragment for itself, one after the other. -/
theorem foldl_replaceSelector_append (pairs : List (String × String)) (first second : String) :
    pairs.foldl (fun css pair => replaceSelector pair.1 pair.2 css) (first ++ "\x7d" ++ second) =
      pairs.foldl (fun css pair => replaceSelector pair.1 pair.2 css) first ++ "\x7d" ++
        pairs.foldl (fun css pair => replaceSelector pair.1 pair.2 css) second := by
  induction pairs generalizing first second with
  | nil => rfl
  | cons pair pairs ih => rw [List.foldl_cons, replaceSelector_append, ih, List.foldl_cons, List.foldl_cons]

/-- In a single fragment the first occurrence of a name is replaced. -/
theorem replaceSelector_of_notMem {fragment : String} (h : '}' ∉ fragment.toList)
    (name replacement : String) :
    replaceSelector name replacement fragment =
      .ofList (replaceFirst name.toList replacement.toList fragment.toList) := by
  rw [replaceSelector, Text.splitOn_of_notMem h]
  simp [joinWith]

/-- Names that do not occur in a fragment leave it as it is. -/
theorem foldl_replaceSelector_of_not_infix {pairs : List (String × String)} {fragment : String}
    (hfragment : '}' ∉ fragment.toList) (hnames : ∀ pair ∈ pairs, pair.1.toList ≠ [])
    (h : ∀ pair ∈ pairs, ¬ pair.1.toList <:+: fragment.toList) :
    pairs.foldl (fun css pair => replaceSelector pair.1 pair.2 css) fragment = fragment := by
  induction pairs with
  | nil => rfl
  | cons pair pairs ih =>
    obtain ⟨hpair, hpairs⟩ := List.forall_mem_cons.mp h
    obtain ⟨hname, hothers⟩ := List.forall_mem_cons.mp hnames
    rw [List.foldl_cons, replaceSelector_of_notMem hfragment,
      Text.replaceFirst_of_not_infix _ hname hpair, String.ofList_toList, ih hothers hpairs]

/-! ## The table -/

/-- The names are made of small letters. -/
theorem isLower_of_mem_name : ∀ pair ∈ selectors, ∀ c ∈ pair.1.toList, c.isLower := by
  have hall : ∀ pair ∈ selectors, pair.1.toList.all Char.isLower := by decide
  exact fun pair hpair => List.all_eq_true.mp (hall pair hpair)

/-- No name is empty. -/
theorem name_ne_nil : ∀ pair ∈ selectors, pair.1.toList ≠ [] := by
  decide

/-- No name comes twice. -/
theorem nodup_names : (selectors.map Prod.fst).Nodup := by
  decide

/-- A selector is not empty and has no closing brace. -/
theorem selector_ne_nil : ∀ pair ∈ selectors, pair.2.toList ≠ [] ∧ '}' ∉ pair.2.toList := by
  decide

/-- A selector holds no later name, unless its own name does, and it starts with a character that is
in no later name. -/
theorem selectors_pairwise :
    selectors.Pairwise fun earlier later =>
      (¬ later.1.toList <:+: earlier.1.toList → ¬ later.1.toList <:+: earlier.2.toList) ∧
        earlier.2.toList.head?.all (· ∉ later.1.toList) := by
  decide

/-! ## A single name -/

/-- A name is not made of a selector and what stands beside it, if it starts with a character that
the name does not have and no small letter follows it. -/
theorem not_infix_around {name before selector after : List Char} (hlower : ∀ c ∈ name, c.isLower)
    (hselector : selector ≠ []) (hstart : ∀ c ∈ selector.head?, c ∉ name)
    (hend : ∀ c ∈ after.head?, c.isLower = false) (hbefore : ¬ name <:+: before)
    (hinside : ¬ name <:+: selector) (hafter : ¬ name <:+: after) :
    ¬ name <:+: before ++ (selector ++ after) := by
  obtain ⟨c, selector, rfl⟩ := List.exists_cons_of_ne_nil hselector
  have hrest : ¬ name <:+: selector := fun h => hinside (h.trans (List.suffix_cons c selector).isInfix)
  rw [List.cons_append, Text.infix_append_cons_iff (hstart c rfl), not_or]
  refine ⟨hbefore, ?_⟩
  cases after with
  | nil => rwa [List.append_nil]
  | cons d after =>
    have hd : d ∉ name := fun hmem => nomatch (hend d rfl).symm.trans (hlower d hmem)
    rw [Text.infix_append_cons_iff hd, not_or]
    exact ⟨hrest, fun h => hafter (h.trans (List.suffix_cons d after).isInfix)⟩

/-- A name stands in a fragment at one place, and no name of the table stands anywhere else. -/
def OnlyName (before name after : String) : Prop :=
  ∀ pair ∈ selectors, ∀ first rest : String,
    before ++ name ++ after = first ++ pair.1 ++ rest → pair.1 = name ∧ first = before

namespace OnlyName

variable {before name after : String}

/-- Another name does not occur in the fragment. -/
theorem not_infix (h : OnlyName before name after) {pair : String × String} (hpair : pair ∈ selectors)
    (hother : pair.1 ≠ name) : ¬ pair.1.toList <:+: (before ++ name ++ after).toList := by
  rintro ⟨first, rest, hfragment⟩
  have hplace := h pair hpair (.ofList first) (.ofList rest) (by
    apply String.toList_inj.mp
    simp [← hfragment])
  exact hother hplace.1

/-- The only occurrence of the name is the one that is shown. -/
theorem eq_before (h : OnlyName before name after) {selector : String}
    (hpair : (name, selector) ∈ selectors) {first rest : List Char}
    (hfragment : before.toList ++ (name.toList ++ after.toList) = first ++ (name.toList ++ rest)) :
    first = before.toList := by
  have hplace := h (name, selector) hpair (.ofList first) (.ofList rest) (by
    apply String.toList_inj.mp
    simpa using hfragment)
  rw [← hplace.2, String.toList_ofList]

end OnlyName

/-- Where a fragment has one name in it and no small letter follows, its selector takes the place of
the name. -/
theorem foldl_replaceSelector_of_onlyName {before name selector after : String}
    (hpair : (name, selector) ∈ selectors) (hfragment : '}' ∉ (before ++ name ++ after).toList)
    (honly : OnlyName before name after) (hend : ∀ c ∈ after.toList.head?, c.isLower = false) :
    selectors.foldl (fun css pair => replaceSelector pair.1 pair.2 css) (before ++ name ++ after) =
      before ++ selector ++ after := by
  obtain ⟨earlier, later, hsplit⟩ := List.append_of_mem hpair
  have hmem : ∀ pair ∈ earlier ++ (name, selector) :: later, pair ∈ selectors :=
    fun pair hm => hsplit ▸ hm
  have hnodup := nodup_names
  rw [hsplit, List.map_append, List.map_cons, List.nodup_append] at hnodup
  obtain ⟨-, hnodupLater, hdisjoint⟩ := hnodup
  have hpairwise := selectors_pairwise
  rw [hsplit, List.pairwise_append, List.pairwise_cons] at hpairwise
  obtain ⟨-, ⟨hapart, -⟩, -⟩ := hpairwise
  -- The earlier names are not in the fragment.
  have hearlier : ∀ pair ∈ earlier, ¬ pair.1.toList <:+: (before ++ name ++ after).toList := by
    intro pair hm
    apply honly.not_infix (hmem pair (List.mem_append_left _ hm))
    exact hdisjoint pair.1 (List.mem_map_of_mem hm) name List.mem_cons_self
  -- The name itself is replaced at its only place.
  have hreplaced : replaceSelector name selector (before ++ name ++ after) =
      before ++ selector ++ after := by
    rw [replaceSelector_of_notMem hfragment, String.toList_append, String.toList_append,
      List.append_assoc, Text.replaceFirst_of_unique _ (name_ne_nil _ hpair)
        fun first rest h => honly.eq_before hpair h]
    apply String.toList_inj.mp
    simp
  -- The later names are neither in the selector nor made of it and what stands beside it.
  have hlater : ∀ pair ∈ later, ¬ pair.1.toList <:+: (before ++ selector ++ after).toList := by
    intro pair hm
    have hselectors := hmem pair (List.mem_append_right _ (List.mem_cons_of_mem _ hm))
    have hnamed : pair.1 ∈ later.map Prod.fst := List.mem_map_of_mem hm
    have hother : pair.1 ≠ name := fun hname => (List.nodup_cons.mp hnodupLater).1 (hname ▸ hnamed)
    have habsent := honly.not_infix hselectors hother
    simp only [String.toList_append, List.append_assoc] at habsent ⊢
    have hpart {part : List Char} (h : part <:+: before.toList ++ (name.toList ++ after.toList)) :
        ¬ pair.1.toList <:+: part := fun hinside => habsent (hinside.trans h)
    obtain ⟨hinside, hhead⟩ := hapart pair hm
    have hstart : ∀ c ∈ selector.toList.head?, c ∉ pair.1.toList := by
      simpa only [Option.all_eq_true, decide_eq_true_eq, Option.mem_def] using hhead
    apply not_infix_around (isLower_of_mem_name pair hselectors) (selector_ne_nil _ hpair).1 hstart hend
    · exact hpart (List.prefix_append _ _).isInfix
    · exact hinside (hpart (List.infix_append' _ _ _))
    · exact hpart (((List.suffix_append _ _).trans (List.suffix_append _ _)).isInfix)
  have hclosed : '}' ∉ (before ++ selector ++ after).toList := by
    simp only [String.toList_append, List.mem_append, not_or] at hfragment ⊢
    exact ⟨⟨hfragment.1.1, (selector_ne_nil _ hpair).2⟩, hfragment.2⟩
  rw [hsplit, List.foldl_append, List.foldl_cons,
    foldl_replaceSelector_of_not_infix hfragment
      (fun pair hm => name_ne_nil pair (hmem pair (List.mem_append_left _ hm))) hearlier,
    hreplaced]
  exact foldl_replaceSelector_of_not_infix hclosed
    (fun pair hm => name_ne_nil pair (hmem pair (List.mem_append_right _ (List.mem_cons_of_mem _ hm))))
    hlater

/-- Selectors are resolved fragment by fragment. A fragment without any of the names stays as it is,
and where it has a single one that no small letter follows, the selector that belongs to the name
takes its place and all else stays. -/
theorem resolveSelectors_fragments :
    (∀ first second : String,
      resolveSelectors (first ++ "\x7d" ++ second) =
        resolveSelectors first ++ "\x7d" ++ resolveSelectors second) ∧
      (∀ fragment : String, '}' ∉ fragment.toList →
        (∀ pair ∈ selectors, ¬ pair.1.toList <:+: fragment.toList) →
        resolveSelectors fragment = fragment) ∧
      ∀ before name selector after : String, (name, selector) ∈ selectors →
        '}' ∉ (before ++ name ++ after).toList → OnlyName before name after →
        (∀ c ∈ after.toList.head?, c.isLower = false) →
        resolveSelectors (before ++ name ++ after) = before ++ selector ++ after := by
  refine ⟨?_, ?_, ?_⟩
  · exact fun first second => foldl_replaceSelector_append selectors first second
  · exact fun fragment hfragment h =>
      foldl_replaceSelector_of_not_infix hfragment name_ne_nil h
  · exact fun before name selector after hpair hfragment honly hend =>
      foldl_replaceSelector_of_onlyName hpair hfragment honly hend

/-- A name is the only one when none is found at any other place. -/
theorem onlyName_of_forall_place {before name after : String}
    (h : ∀ pair ∈ selectors, ∀ place ≤ (before ++ name ++ after).toList.length,
      pair.1.toList <+: (before ++ name ++ after).toList.drop place →
        pair.1 = name ∧ (before ++ name ++ after).toList.take place = before.toList) :
    OnlyName before name after := by
  intro pair hpair first rest hfragment
  have htext : (before ++ name ++ after).toList = first.toList ++ (pair.1.toList ++ rest.toList) := by
    rw [hfragment]
    simp
  obtain ⟨hname, hbefore⟩ := h pair hpair first.toList.length (by simp [htext]) (by simp [htext])
  rw [htext, List.take_left] at hbefore
  exact ⟨hname, String.toList_inj.mp hbefore⟩

/-- A rule with a directive as a selector, behind one that has none. -/
theorem resolveSelectors_fragments_sheet :
    let plain := "b \x7b margin: 0 "
    let before := " p > "
    let after := ":hover \x7b color: red "
    OnlyName before "each" after ∧ resolveSelectors plain = plain ∧
      resolveSelectors (before ++ "each" ++ after) = before ++ "div.fy-each" ++ after ∧
      resolveSelectors (plain ++ "\x7d" ++ (before ++ "each" ++ after)) =
        plain ++ "\x7d" ++ (before ++ "div.fy-each" ++ after) := by
  intro plain before after
  have honly : OnlyName before "each" after := onlyName_of_forall_place (by decide)
  obtain ⟨happend, hnone, hone⟩ := resolveSelectors_fragments
  have hplain := hnone plain (by decide) (by decide)
  have hend : ∀ c ∈ after.toList.head?, c.isLower = false := by
    have hhead : after.toList.head? = some ':' := by decide
    rw [hhead]
    rintro c ⟨⟩
    rfl
  have hrule := hone before "each" "div.fy-each" after (by decide) (by decide) honly hend
  exact ⟨honly, hplain, hrule, by rw [happend, hplain, hrule]⟩

end Stylesheet

end DirectiveMarkup
