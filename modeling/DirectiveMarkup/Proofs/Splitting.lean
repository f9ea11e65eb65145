import DirectiveMarkup.Expression.Evaluate
import DirectiveMarkup.Proofs.Occurrences
import Mathlib.Data.List.Infix

/-!
# Splitting and joining

A string is split between the occurrences of a separator, taken from the left and without overlap.
Joining the parts with the separator gives the string back, no part has the separator in it, and there
is one part more than there are such occurrences. An empty separator splits a string into its code
points. An array has one text, whether its items are joined, it is turned to a string or it is added to
a string.
-/

namespace DirectiveMarkup

namespace Text

variable {separator : List Char}

/-! ## Occurrences from the left -/

/-- How often a pattern occurs in a text, when its occurrences are taken from the left and each behind
the one before. -/
inductive Occurrences (pattern : List Char) : List Char → Nat → Prop
  | absent {text : List Char} : ¬ pattern <:+: text → Occurrences pattern text 0
  | leftmost {before after : List Char} {count : Nat} :
      (∀ first rest, before ++ (pattern ++ after) = first ++ (pattern ++ rest) →
        before.length ≤ first.length) →
      Occurrences pattern after count → Occurrences pattern (before ++ (pattern ++ after)) (count + 1)

/-- A pattern that does not occur is absent. -/
theorem occurrences_zero_iff {pattern text : List Char} :
    Occurrences pattern text 0 ↔ ¬ pattern <:+: text := by
  constructor
  · intro h
    cases h with
    | absent habsent => exact habsent
  · exact .absent

/-- There is one number of occurrences. -/
theorem Occurrences.unique {pattern text : List Char} {m n : Nat} (hm : Occurrences pattern text m)
    (hn : Occurrences pattern text n) : m = n := by
  induction hm generalizing n with
  | absent habsent =>
    cases hn with
    | absent => rfl
    | leftmost => exact absurd (List.infix_append' _ _ _) habsent
  | @leftmost before after count hfirst _ ih =>
    generalize htext : before ++ (pattern ++ after) = text at hn
    cases hn with
    | absent habsent => exact absurd (htext ▸ List.infix_append' _ _ _) habsent
    | @leftmost before' after' _ hfirst' hafter' =>
      -- Each occurrence is the leftmost, so they begin at the same place.
      have hlength : before.length = before'.length :=
        Nat.le_antisymm (hfirst _ _ htext) (hfirst' _ _ htext.symm)
      obtain ⟨-, hrest⟩ := List.append_inj htext hlength
      obtain rfl := List.append_cancel_left hrest
      rw [ih hafter']

/-- A text is passed from the left: an occurrence of the separator as a whole, and else a character. -/
theorem passing (hseparator : separator ≠ []) {motive : List Char → Prop} (nil : motive [])
    (occurs : ∀ rest, motive rest → motive (separator ++ rest))
    (passes : ∀ c rest, ¬ separator <+: c :: rest → motive rest → motive (c :: rest))
    (text : List Char) : motive text := by
  induction hlength : text.length using Nat.strong_induction_on generalizing text with
  | _ length ih =>
    subst hlength
    by_cases hbegins : separator <+: text
    · obtain ⟨rest, rfl⟩ := hbegins
      have hpos := List.length_pos_of_ne_nil hseparator
      refine occurs rest (ih rest.length ?_ rest rfl)
      rw [List.length_append]
      omega
    · cases text with
      | nil => exact nil
      | cons c rest => exact passes c rest hbegins (ih rest.length (Nat.lt_succ_self _) rest rfl)

/-- There is one part more than there are occurrences of the separator. -/
theorem exists_occurrences (hseparator : separator ≠ []) (text : List Char) :
    ∃ count, Occurrences separator text count ∧ (splitOn separator text).length = count + 1 := by
  induction text using passing hseparator with
  | nil => exact ⟨0, .absent fun h => hseparator (List.infix_nil.mp h), rfl⟩
  | occurs rest ih =>
    obtain ⟨count, hcount, hlength⟩ := ih
    have hfirst : Occurrences separator ([] ++ (separator ++ rest)) (count + 1) :=
      .leftmost (fun _ _ _ => Nat.zero_le _) hcount
    refine ⟨count + 1, hfirst, ?_⟩
    rw [splitOn_append hseparator, List.length_cons, hlength]
  | passes c rest hbegins ih =>
    obtain ⟨count, hcount, hlength⟩ := ih
    refine ⟨count, ?_, ?_⟩
    · cases hcount with
      | absent habsent =>
        refine .absent fun h => ?_
        rcases List.infix_cons_iff.mp h with hstart | hrest
        · exact hbegins hstart
        · exact habsent hrest
      | @leftmost before after count hfirst hafter =>
        -- No occurrence begins at `c`, so the leftmost of the rest is the leftmost.
        refine @Occurrences.leftmost _ (c :: before) _ _ (fun first behind heq => ?_) hafter
        cases first with
        | nil => exact absurd ⟨behind, heq.symm⟩ hbegins
        | cons d first =>
          exact Nat.succ_le_succ (hfirst first behind (List.cons.inj heq).2)
    · rw [splitOn_cons hbegins, List.length_modifyHead, hlength]

/-- The parts are counted by the occurrences of the separator. -/
theorem occurrences_iff (hseparator : separator ≠ []) {text : List Char} {count : Nat} :
    Occurrences separator text count ↔ (splitOn separator text).length = count + 1 := by
  obtain ⟨found, hfound, hlength⟩ := exists_occurrences hseparator text
  constructor
  · intro hcount
    rw [hlength, hfound.unique hcount]
  · intro hcount
    obtain rfl : found = count := Nat.succ.inj (hlength.symm.trans hcount)
    exact hfound

/-! ## Parts -/

/-- Joining the parts with the separator gives the text back. -/
theorem joinWith_splitOn (hseparator : separator ≠ []) (text : List Char) :
    joinWith separator (splitOn separator text) = text := by
  change replaceAll separator separator text = text
  induction text using passing hseparator with
  | nil => exact replaceAll_nil separator
  | occurs rest ih => rw [replaceAll_append separator hseparator, ih]
  | passes c rest hbegins ih => rw [replaceAll_cons separator hbegins, ih]

/-- The characters of a text, joined with nothing between them, are the text. -/
theorem joinWith_singletons (text : List Char) : joinWith [] (text.map ([·])) = text := by
  induction text with
  | nil => rfl
  | cons c text ih =>
    cases text with
    | nil => rfl
    | cons d text =>
      simp only [joinWith, List.map_cons] at ih ⊢
      rw [List.intercalate_cons_cons, ih]
      rfl

/-- The first part stands at the start of the text. -/
theorem prefix_of_splitOn_eq_cons (hseparator : separator ≠ []) {text part : List Char}
    {parts : List (List Char)} (h : splitOn separator text = part :: parts) : part <+: text := by
  have hjoin := joinWith_splitOn hseparator text
  rw [h, joinWith] at hjoin
  cases parts with
  | nil =>
    have hpart : part = text := by simpa [List.intercalate] using hjoin
    exact hpart ▸ List.prefix_rfl
  | cons next parts =>
    rw [List.intercalate_cons_cons, List.append_assoc] at hjoin
    exact ⟨_, hjoin⟩

/-- No part has the separator in it. -/
theorem not_infix_of_mem_splitOn (hseparator : separator ≠ []) (text : List Char) :
    ∀ part ∈ splitOn separator text, ¬ separator <:+: part := by
  have hnil : ¬ separator <:+: [] := fun h => hseparator (List.infix_nil.mp h)
  induction text using passing hseparator with
  | nil => simpa using hnil
  | occurs rest ih =>
    rw [splitOn_append hseparator, List.forall_mem_cons]
    exact ⟨hnil, ih⟩
  | passes c rest hbegins ih =>
    obtain ⟨part, parts, hparts⟩ := List.exists_cons_of_ne_nil (@splitOn_ne_nil separator rest)
    have hprefix := prefix_of_splitOn_eq_cons hseparator hparts
    rw [hparts, List.forall_mem_cons] at ih
    rw [splitOn_cons hbegins, hparts, List.modifyHead_cons, List.forall_mem_cons]
    -- The first part is a prefix of the rest, so a separator that begins at `c` would begin the text.
    refine ⟨fun h => ?_, ih.2⟩
    rcases List.infix_cons_iff.mp h with hstart | hinside
    · exact hbegins (hstart.trans (List.cons_prefix_cons.mpr ⟨rfl, hprefix⟩))
    · exact ih.1 hinside

/-- A pattern is found when it occurs. -/
theorem occursIn_iff {pattern : List Char} (hpattern : pattern ≠ []) {text : List Char} :
    occursIn pattern text ↔ pattern <:+: text := by
  unfold occursIn
  cases hbreak : breakAt pattern text with
  | none => simpa using of_breakAt_eq_none hpattern hbreak
  | some parts =>
    obtain ⟨before, after⟩ := parts
    obtain ⟨htext, -⟩ := of_breakAt_eq_some hpattern hbreak
    simp [htext]

end Text

namespace Expression

/-! ## Methods -/

/-- A method of a receiver, called with arguments. -/
def Expr.method (receiver : Expr) (name : String) (arguments : List Expr) : Expr :=
  .call (.member receiver name) arguments

section Evaluation

variable {scope : Scope} {receiver argument : Expr} {value first : Value}

/-- A method without arguments is called on the value of its receiver. -/
theorem evaluate_method_nil (hreceiver : evaluate scope receiver = .ok value) (name : String) :
    evaluate scope (receiver.method name []) = callMethod value name [] := by
  rw [Expr.method, evaluate, hreceiver]
  rfl

/-- A method with one argument is called on the values of its receiver and its argument. -/
theorem evaluate_method_singleton (hreceiver : evaluate scope receiver = .ok value)
    (hargument : evaluate scope argument = .ok first) (name : String) :
    evaluate scope (receiver.method name [argument]) = callMethod value name [first] := by
  rw [Expr.method, evaluate, hreceiver, evaluateAll, hargument]
  rfl

end Evaluation

/-! ## Strings -/

/-- The parts of a string as strings. -/
def stringParts (s separator : String) : List String :=
  if separator = "" then s.toList.map Char.toString
  else (Text.splitOn separator.toList s.toList).map String.ofList

/-- A separator with characters has some in its text. -/
theorem toList_ne_nil {separator : String} (h : separator ≠ "") : separator.toList ≠ [] :=
  mt String.toList_eq_nil_iff.mp h

/-- `split` gives the parts. -/
theorem callMethod_split (s separator : String) :
    callMethod (.string s) "split" [.string separator] =
      .ok (.array ((stringParts s separator).map .string)) := by
  change Except.ok (Value.array (split s separator)) = _
  unfold split stringParts
  by_cases hempty : separator = ""
  · subst hempty
    simp [charValue]
  · simp [hempty]

/-- `join` puts the separator between strings. -/
theorem callMethod_join_strings (parts : List String) (separator : String) :
    callMethod (.array (parts.map .string)) "join" [.string separator] =
      .ok (.string (separator.intercalate parts)) := by
  have htexts : (parts.map Value.string).map joinedText = parts := by
    rw [List.map_map]
    exact List.map_id parts
  change Except.ok (Value.string (separator.intercalate _)) = _
  rw [htexts]

/-- The parts of a string, joined with the separator, are the string. -/
theorem intercalate_stringParts (s separator : String) :
    separator.intercalate (stringParts s separator) = s := by
  apply String.toList_inj.mp
  rw [String.toList_intercalate]
  unfold stringParts
  split_ifs with hempty
  · have hparts : (s.toList.map Char.toString).map String.toList = s.toList.map ([·]) := by simp
    rw [hempty, hparts]
    exact Text.joinWith_singletons s.toList
  · have hparts (parts : List (List Char)) : (parts.map String.ofList).map String.toList = parts := by
      simp
    rw [hparts]
    exact Text.joinWith_splitOn (toList_ne_nil hempty) s.toList

section Parts

variable {s separator : String}

/-- An empty separator makes parts of the code points. -/
theorem stringParts_empty (h : separator = "") :
    stringParts s separator = s.toList.map Char.toString :=
  if_pos h

/-- No part of a string has the separator in it. -/
theorem not_infix_of_mem_stringParts (h : separator ≠ "") :
    ∀ part ∈ stringParts s separator, ¬ separator.toList <:+: part.toList := by
  intro part hpart
  rw [stringParts, if_neg h] at hpart
  obtain ⟨text, htext, rfl⟩ := List.mem_map.mp hpart
  rw [String.toList_ofList]
  exact Text.not_infix_of_mem_splitOn (toList_ne_nil h) s.toList text htext

/-- The parts of a string are counted by the occurrences of the separator. -/
theorem occurrences_iff_length_stringParts (h : separator ≠ "") {count : Nat} :
    Text.Occurrences separator.toList s.toList count ↔
      (stringParts s separator).length = count + 1 := by
  rw [stringParts, if_neg h, List.length_map]
  exact Text.occurrences_iff (toList_ne_nil h)

/-- `includes` finds a separator that splits a string into more than one part. -/
theorem callMethod_includes_string (h : separator ≠ "") :
    callMethod (.string s) "includes" [.string separator] =
      .ok (.bool (decide (1 < (stringParts s separator).length))) := by
  have hnone := @occurrences_iff_length_stringParts s separator h 0
  rw [Text.occurrences_zero_iff] at hnone
  have hpos : 0 < (stringParts s separator).length := by
    rw [stringParts, if_neg h, List.length_map]
    exact List.length_pos_of_ne_nil (Text.splitOn_ne_nil s.toList)
  have hfound : Text.occursIn separator.toList s.toList =
      decide (1 < (stringParts s separator).length) := by
    rw [Bool.eq_iff_iff, Text.occursIn_iff (toList_ne_nil h), decide_eq_true_iff, ← not_iff_not,
      hnone]
    omega
  change Except.ok (Value.bool (Text.occursIn separator.toList s.toList)) = _
  rw [hfound]

end Parts

/-! ## Arrays -/

/-- The texts of items are their texts one by one. -/
theorem itemTexts_eq_map (items : List Value) : Value.itemTexts items = items.map joinedText := by
  induction items with
  | nil => rfl
  | cons item rest ih =>
    cases item with
    | null => rw [Value.itemTexts, ih]; rfl
    | bool | number | string | array | object =>
      rw [Value.itemTexts, ih]
      · rfl
      · exact nofun

/-- Without a separator `join` gives the text of the array. -/
theorem callMethod_join_nil (items : List Value) :
    callMethod (.array items) "join" [] = .ok (.string (Value.array items).display) := by
  rw [Value.display, itemTexts_eq_map]
  rfl

/-- Joining undoes splitting, and an array has one text. A string is split between the occurrences of a
separator from the left, which the parts do not have in them, or into its code points when the separator
is empty. -/
theorem evaluate_join_split (scope : Scope) :
    (∀ (text separator : Expr) (s sep : String),
      evaluate scope text = .ok (.string s) → evaluate scope separator = .ok (.string sep) →
      evaluate scope ((text.method "split" [separator]).method "join" [separator]) = .ok (.string s) ∧
      ∃ parts : List String,
        evaluate scope (text.method "split" [separator]) = .ok (.array (parts.map .string)) ∧
        (sep ≠ "" →
          (∀ part ∈ parts, ¬ sep.toList <:+: part.toList) ∧
          (∀ count, Text.Occurrences sep.toList s.toList count ↔ parts.length = count + 1) ∧
          evaluate scope (text.method "includes" [separator]) =
            .ok (.bool (decide (1 < parts.length)))) ∧
        (sep = "" → parts = s.toList.map Char.toString)) ∧
    ∀ (array : Expr) (items : List Value), evaluate scope array = .ok (.array items) →
      ∃ text : String,
        evaluate scope (array.method "join" []) = .ok (.string text) ∧
        evaluate scope (array.method "toString" []) = .ok (.string text) ∧
        evaluate scope (.binary .add (.literal (.string "")) array) = .ok (.string text) := by
  refine ⟨fun text separator s sep htext hsep => ?_, fun array items harray => ?_⟩
  · have hsplit : evaluate scope (text.method "split" [separator]) =
        .ok (.array ((stringParts s sep).map .string)) := by
      rw [evaluate_method_singleton htext hsep, callMethod_split]
    refine ⟨?_, stringParts s sep, hsplit, fun hne => ⟨?_, ?_, ?_⟩, ?_⟩
    · rw [evaluate_method_singleton hsplit hsep, callMethod_join_strings, intercalate_stringParts]
    · exact not_infix_of_mem_stringParts hne
    · exact fun count => occurrences_iff_length_stringParts hne
    · rw [evaluate_method_singleton htext hsep, callMethod_includes_string hne]
    · exact stringParts_empty
  · refine ⟨(Value.array items).display, ?_, ?_, ?_⟩
    · rw [evaluate_method_nil harray, callMethod_join_nil]
    · rw [evaluate_method_nil harray]
      rfl
    · rw [evaluate, evaluate, harray]
      change Except.ok (Value.string ("" ++ (Value.array items).display)) = _
      rw [String.empty_append]

/-- A separator that overlaps itself in the string, and an array in an array with nulls in both. -/
theorem evaluate_join_split_overlap :
    let items : List Value := [.array [.null, .string "a"], .null]
    let scope : Scope :=
      .ofBindings [("items", .array items), ("s", .string "caaat"), ("sep", .string "aa")]
    (evaluate scope (.ident "s") = .ok (.string "caaat") ∧
      evaluate scope (.ident "sep") = .ok (.string "aa") ∧
      evaluate scope (.ident "items") = .ok (.array items)) ∧
      evaluate scope ((Expr.method (.ident "s") "split" [.ident "sep"]).method "join" [.ident "sep"]) =
        .ok (.string "caaat") ∧
      ∃ text : String, evaluate scope (Expr.method (.ident "items") "join" []) = .ok (.string text) ∧
        evaluate scope (.binary .add (.literal (.string "")) (.ident "items")) = .ok (.string text) := by
  intro items scope
  have hs : evaluate scope (.ident "s") = .ok (.string "caaat") := by
    simp [evaluate, scope, Scope.ofBindings]
  have hsep : evaluate scope (.ident "sep") = .ok (.string "aa") := by
    simp [evaluate, scope, Scope.ofBindings]
  have hitems : evaluate scope (.ident "items") = .ok (.array items) := by
    simp [evaluate, scope, Scope.ofBindings]
  obtain ⟨hstrings, harrays⟩ := evaluate_join_split scope
  obtain ⟨text, hjoin, -, hadd⟩ := harrays _ _ hitems
  exact ⟨⟨hs, hsep, hitems⟩, (hstrings _ _ _ _ hs hsep).1, text, hjoin, hadd⟩

end Expression

end DirectiveMarkup
