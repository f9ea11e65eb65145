import DirectiveMarkup.Proofs.Clean

/-!
# Compiling compiled documents

The html of a document has no directives left, and compiling it again changes nothing. This holds
when every forest that the parser returns during the run is clean: it can be written and read
back, and none of its elements puts markup into the output that is not compiled.

The invariant is one of texts. On any level, what a node compiles to is written for a plain forest
that is read back and that is no higher than the levels that were left. So the levels suffice for
the second run as well.
-/

namespace DirectiveMarkup

open Expression (EvalError Scope Value)
open Markup (Node Tag isRawText isVoid outerMarkup plainForest legibleForest height)

/-! ## What the parser returns -/

section Returned

variable (compiler : Compiler) (scope : Scope)

/-- The lists of siblings that are compiled inside of an element, with that many levels left. -/
inductive Compiler.Enters (levels : Nat) (tag : Tag) (children : List Node) : List Node → Prop where
  | wrapped {output : Tag} {leading : List Node} :
      treatment tag children = .wrapped output leading → isVoid output.name = false →
      Enters levels tag children (leading ++ children)
  | consequent {holds : Bool} :
      treatment tag children = .chosen → compiler.condition scope tag = .ok holds →
      Enters levels tag children children
  | alternative {consequent : String} :
      treatment tag children = .chosen → compiler.condition scope tag = .ok false →
      compiler.siblings scope levels children = .ok consequent →
      Enters levels tag children (Compiler.alternativeOf children)
  | interpolated {forest : List Node} :
      treatment tag children = .interpolated →
      compiler.interpolatedForest scope tag children = .ok forest →
      Enters levels tag children forest
  | body {items : List Value} :
      treatment tag children = .iterated → (compiler.eachItems scope tag).outcome = .ok items →
      Enters levels tag children children
  | iterated {items : List Value} {forest : List Node} :
      treatment tag children = .iterated →
      compiler.iteratedForest scope (compiler.siblings scope levels) tag children =
        .ok (items, forest) →
      Enters levels tag children forest

/-- The forests that the parser returns while a node is compiled with that many levels: those of
`inter` and of `each`, and those of the nodes inside up to the first that does not compile to
markup. -/
inductive Compiler.Returns : (levels : Nat) → Node → List Node → Prop where
  | interpolated {levels : Nat} {tag : Tag} {children forest : List Node} :
      treatment tag children = .interpolated →
      compiler.interpolatedForest scope tag children = .ok forest →
      Returns (levels + 1) (.element tag children) forest
  | iterated {levels : Nat} {tag : Tag} {children forest : List Node} {items : List Value} :
      treatment tag children = .iterated →
      compiler.iteratedForest scope (compiler.siblings scope levels) tag children =
        .ok (items, forest) →
      Returns (levels + 1) (.element tag children) forest
  | inside {levels : Nat} {tag : Tag} {children before after forest : List Node} {node : Node} :
      compiler.Enters scope levels tag children (before ++ node :: after) →
      (∀ other ∈ before,
        ∃ text, (compiler.compileWithin scope levels other).outcome = .ok (.markup text)) →
      Returns levels node forest → Returns (levels + 1) (.element tag children) forest

/-- The forests that the parser returns while a document is compiled: that of the document, and
those of its nodes in front of the first halt. -/
inductive Compiler.ReturnsFor (markup : String) : List Node → Prop where
  | document {nodes : List Node} :
      compiler.parse (Text.trim markup) = .ok nodes → ReturnsFor markup nodes
  | node {nodes forest : List Node} {node : Node} :
      compiler.parse (Text.trim markup) = .ok nodes → node ∈ nodes.take (haltIndex nodes) →
      compiler.Returns scope (compiler.maxDepth + 1) node forest → ReturnsFor markup forest

end Returned

/-! ## Texts that stay as they are -/

/-- A text that is written for a plain forest which is read back and has at most that height. -/
def Stable (levels : Nat) (text : String) : Prop :=
  ∃ forest, outerMarkup forest = text ∧ plainForest forest ∧ legibleForest forest ∧
    height forest ≤ levels

namespace Stable

variable {levels : Nat}

/-- No text is stable. -/
theorem empty : Stable levels "" :=
  ⟨[], rfl, rfl, rfl, Nat.zero_le _⟩

/-- Stable texts in a row are stable. -/
theorem append {first second : String} (hfirst : Stable levels first)
    (hsecond : Stable levels second) : Stable levels (first ++ second) := by
  obtain ⟨before, rfl, hplain, hlegible, hheight⟩ := hfirst
  obtain ⟨after, rfl, hplain', hlegible', hheight'⟩ := hsecond
  refine ⟨before ++ after, Markup.outerMarkup_append before after, ?_, ?_, ?_⟩
  · rw [Markup.plainForest_iff] at *
    exact List.forall_mem_append.mpr ⟨hplain, hplain'⟩
  · rw [Markup.legibleForest_iff] at *
    exact List.forall_mem_append.mpr ⟨hlegible, hlegible'⟩
  · rw [Markup.height_le_iff] at *
    exact List.forall_mem_append.mpr ⟨hheight, hheight'⟩

/-- Any number of stable texts in a row is stable. -/
theorem join {texts : List String} (h : ∀ text ∈ texts, Stable levels text) :
    Stable levels (String.join texts) := by
  induction texts with
  | nil => exact empty
  | cons text texts ih =>
    rw [List.forall_mem_cons] at h
    rw [String.join_cons]
    exact h.1.append (ih h.2)

/-- A text without angle brackets is stable. -/
theorem text {content : String} (h : (Node.text content).legible) : Stable (levels + 1) content := by
  refine ⟨[.text content], ?_, rfl, ?_, Nat.succ_le_succ (Nat.zero_le _)⟩
  · simp [Node.outer]
  · rw [legibleForest, h]
    rfl

/-- An element with a plain tag that is read back is stable around children of its kind. -/
theorem element {tag : Tag} {children : List Node} (htag : tag.legible) (hplain : tag.plain)
    (hchildren : plainForest children ∧ legibleForest children ∧ height children ≤ levels)
    (hvoid : !isVoid tag.name || children.isEmpty)
    (hraw : !isRawText tag.name || children.all Node.isText) :
    Stable (levels + 1) (Node.element tag children).outer := by
  obtain ⟨hplainChildren, hlegible, hheight⟩ := hchildren
  refine ⟨[.element tag children], by simp, ?_, ?_, ?_⟩
  · change (tag.plain && plainForest children && true) = true
    rw [hplain, hplainChildren]
    rfl
  · rw [legibleForest, Node.legible, htag, hlegible, hvoid, hraw]
    rfl
  · exact Nat.max_le.mpr ⟨Nat.succ_le_succ hheight, Nat.zero_le _⟩

/-- An element with a plain tag that is read back is stable without children. -/
theorem leaf {tag : Tag} (htag : tag.legible) (hplain : tag.plain) :
    Stable (levels + 1) (Node.element tag []).outer :=
  element htag hplain ⟨rfl, rfl, Nat.zero_le _⟩ (Bool.or_true _) (Bool.or_true _)

end Stable

/-! ## Elements -/

namespace Compiler

variable {compiler : Compiler} {scope : Scope} {levels : Nat}

/-- Raw content compiles to itself, on a level that there is. -/
theorem siblings_of_isTextOrEmpty {nodes : List Node} {inside : String}
    (h : Markup.isTextOrEmpty nodes)
    (hinside : compiler.siblings scope levels nodes = .ok inside) :
    inside = outerMarkup nodes ∧ plainForest nodes ∧ height nodes ≤ levels ∧
      nodes.all Node.isText := by
  match nodes with
  | [] => exact ⟨(Except.ok.inj hinside).symm, rfl, Nat.zero_le _, rfl⟩
  | [.text body] =>
    rw [siblings_cons] at hinside
    cases levels with
    | zero => exact nomatch hinside
    | succ levels =>
      have hbody : body ++ "" = inside := Except.ok.inj hinside
      refine ⟨?_, rfl, Nat.succ_le_succ (Nat.zero_le _), rfl⟩
      rw [← hbody, Markup.outerMarkup_cons, Markup.outerMarkup_nil, Node.outer]

/-- A tag that is put out around clean nodes gives a stable text, if what the nodes compile to is
stable. -/
theorem stable_wrapElement {output : Tag} {nodes : List Node} {text : String}
    (houtput : Markup.WrapsClean output nodes)
    (hinner : isVoid output.name = false → ∀ inside,
      compiler.siblings scope levels nodes = .ok inside → Stable levels inside)
    (h : wrapElement (compiler.siblings scope levels) output nodes = .ok (.markup text)) :
    Stable (levels + 1) text := by
  rcases wrapElement_eq_ok h with ⟨hvoid, hfragment⟩ | ⟨inside, hvoid, hinside, hfragment⟩
  · obtain rfl := Fragment.markup.inj hfragment
    have hleaf : Stable (levels + 1) (Node.element output []).outer :=
      .leaf houtput.legible houtput.plain
    rwa [Node.outer_element, if_pos hvoid] at hleaf
  · obtain rfl := Fragment.markup.inj hfragment
    -- Raw text is not found in the stable text but is the text that stands in the element.
    obtain ⟨forest, rfl, hforest, htexts⟩ : ∃ forest, outerMarkup forest = inside ∧
        (plainForest forest ∧ legibleForest forest ∧ height forest ≤ levels) ∧
        (!isRawText output.name || forest.all Node.isText) := by
      by_cases hraw : isRawText output.name
      · have hcontent := houtput.raw hraw
        have hlegible := Markup.legibleForest_of_clean hcontent houtput.clean
        obtain ⟨rfl, hplain, hheight, htexts⟩ := siblings_of_isTextOrEmpty hcontent hinside
        exact ⟨nodes, rfl, ⟨hplain, hlegible, hheight⟩, by simp [htexts]⟩
      · obtain ⟨forest, hwritten, hforest⟩ := hinner hvoid inside hinside
        exact ⟨forest, hwritten, hforest, by simp [hraw]⟩
    have helement : Stable (levels + 1) (Node.element output forest).outer :=
      .element houtput.legible houtput.plain hforest (by simp [hvoid]) htexts
    rwa [Node.outer_element, if_neg (by simp [hvoid])] at helement

/-- What a clean element compiles to is stable, if the siblings that are compiled inside of it
compile to stable texts when they are clean. -/
theorem stable_carryOut {tag : Tag} {children : List Node} {text : String}
    (hclean : (Node.element tag children).clean)
    (hreturned : ∀ forest, compiler.Returns scope (levels + 1) (.element tag children) forest →
      Markup.cleanForest forest)
    (hinner : ∀ nodes, compiler.Enters scope levels tag children nodes → Markup.cleanForest nodes →
      ∀ inside, compiler.siblings scope levels nodes = .ok inside → Stable levels inside)
    (h : compiler.carryOut scope (compiler.siblings scope levels) tag children
      (treatment tag children) = .ok (.markup text)) :
    Stable (levels + 1) text := by
  have helement := hclean
  simp only [Node.clean, Bool.and_eq_true] at helement
  obtain ⟨⟨htag, -⟩, hchildren⟩ := helement
  have hdiv (token : String) (htoken : '"' ∉ token.toList) :
      Markup.IsWrapper (.withClass "div" token) :=
    Markup.isWrapper_div (Markup.legible_class htoken)
  generalize htreatment : treatment tag children = kind at h
  cases kind with
  | cut => cases h
  | replaced output =>
    obtain rfl := Fragment.markup.inj (Except.ok.inj h)
    rcases replaced_of_clean htag htreatment with rfl | ⟨wrapper, hwrapper, rfl⟩
    · exact .empty
    · have hleaf : Stable (levels + 1) (Node.element wrapper []).outer :=
        .leaf hwrapper.legible hwrapper.plain
      rwa [Markup.outerMarkup_cons, Markup.outerMarkup_nil, String.append_empty]
  | wrapped output leading =>
    have houtput := wrapsClean_of_clean hclean htreatment
    exact stable_wrapElement houtput
      (fun hvoid => hinner _ (.wrapped htreatment hvoid) houtput.clean) h
  | chosen =>
    obtain ⟨holds, hcondition, h⟩ := bind_eq_ok h
    obtain ⟨consequent, hconsequent, h⟩ := bind_eq_ok h
    cases holds with
    | true =>
      obtain rfl := Fragment.markup.inj (Except.ok.inj h)
      obtain ⟨forest, rfl, hforest⟩ :=
        hinner children (.consequent htreatment hcondition) hchildren consequent hconsequent
      have hwrapper := hdiv "fy-if" (by decide)
      have helement : Stable (levels + 1) (Node.element (.withClass "div" "fy-if") forest).outer :=
        .element hwrapper.legible hwrapper.plain hforest rfl (by simp [hwrapper.notRaw])
      rwa [wrap_outerMarkup, Markup.outerMarkup_cons, Markup.outerMarkup_nil, String.append_empty]
    | false =>
      rw [if_neg Bool.false_ne_true] at h
      have halternative := Markup.cleanForest_alternativeOf hchildren
      exact stable_wrapElement ((hdiv "fy-else" (by decide)).wrapsClean halternative)
        (fun _ => hinner _ (.alternative htreatment hcondition hconsequent) halternative) h
  | interpolated =>
    obtain ⟨forest, hread, h⟩ := bind_eq_ok h
    have hforest := hreturned forest (.interpolated htreatment hread)
    exact stable_wrapElement ((hdiv "fy-inter" (by decide)).wrapsClean hforest)
      (fun _ => hinner _ (.interpolated htreatment hread) hforest) h
  | iterated =>
    obtain ⟨⟨items, forest⟩, hread, h⟩ := bind_eq_ok h
    have hforest := hreturned forest (.iterated htreatment hread)
    exact stable_wrapElement ((Markup.isWrapper_eachTag items.length).wrapsClean hforest)
      (fun _ => hinner _ (.iterated htreatment hread) hforest) h

/-- What clean siblings compile to is stable, if what each of them compiles to is. -/
theorem stable_siblings {nodes : List Node} (hclean : Markup.cleanForest nodes)
    (hreturned : ∀ before node after, nodes = before ++ node :: after →
      (∀ other ∈ before,
        ∃ text, (compiler.compileWithin scope levels other).outcome = .ok (.markup text)) →
      ∀ forest, compiler.Returns scope levels node forest → Markup.cleanForest forest)
    (hnode : ∀ node : Node, node.clean →
      (∀ forest, compiler.Returns scope levels node forest → Markup.cleanForest forest) →
      ∀ text, (compiler.compileWithin scope levels node).outcome = .ok (.markup text) →
      Stable levels text)
    {inside : String} (h : compiler.siblings scope levels nodes = .ok inside) :
    Stable levels inside := by
  induction nodes generalizing inside with
  | nil =>
    obtain rfl := Except.ok.inj h
    exact .empty
  | cons node rest ih =>
    rw [Markup.cleanForest, Bool.and_eq_true] at hclean
    rw [siblings_cons] at h
    obtain ⟨fragment, hfragment, h⟩ := bind_eq_ok h
    cases fragment with
    | halt =>
      obtain rfl := Except.ok.inj h
      exact .empty
    | markup text =>
      obtain ⟨following, hfollowing, h⟩ := bind_eq_ok h
      obtain rfl := Except.ok.inj h
      have hfirst := hnode node hclean.1 (hreturned [] node rest rfl (List.forall_mem_nil _)) text
        hfragment
      refine hfirst.append (ih hclean.2 ?_ hfollowing)
      intro before other after hrest hbefore
      exact hreturned (node :: before) other after (by rw [hrest]; rfl)
        (List.forall_mem_cons.mpr ⟨⟨text, hfragment⟩, hbefore⟩)

/-- What a clean node compiles to is stable, if the parser returns clean forests for it. -/
theorem stable_compileWithin (levels : Nat) (node : Node) (hclean : node.clean)
    (hreturned : ∀ forest, compiler.Returns scope levels node forest → Markup.cleanForest forest)
    {text : String} (h : (compiler.compileWithin scope levels node).outcome = .ok (.markup text)) :
    Stable levels text := by
  -- Inside of an element there is one level less, also where a forest was read from text.
  induction levels generalizing node text with
  | zero => exact nomatch h
  | succ levels ih =>
    cases node with
    | text content =>
      obtain rfl := Fragment.markup.inj (Except.ok.inj h)
      exact .text hclean
    | comment body =>
      obtain rfl := Fragment.markup.inj (Except.ok.inj h)
      exact .empty
    | element tag children =>
      rw [outcome_compileWithin_element] at h
      refine stable_carryOut hclean hreturned (fun nodes henters hnodes inside hinside => ?_) h
      refine stable_siblings hnodes ?_ (fun node hnode hforests text => ih node hnode hforests)
        hinside
      rintro before node after rfl hbefore forest hforest
      exact hreturned forest (.inside henters hbefore hforest)

variable (compiler scope)

/-- The html of a document is a trimmed stable text, if the parser returns clean forests. -/
theorem exists_stable_compile {markup : String}
    (h : ∀ forest, compiler.ReturnsFor scope markup forest → Markup.cleanForest forest) :
    ∃ text, Stable (compiler.maxDepth + 1) text ∧
      (compiler.compile scope false markup).html = Text.trim text := by
  cases hparse : compiler.parse (Text.trim markup) with
  | error error =>
    refine ⟨"", .empty, ?_⟩
    rw [compile, hparse]
    rfl
  | ok nodes =>
    obtain ⟨-, -, hhtml⟩ := compiler.compile_of_collected scope false hparse
    refine ⟨_, .join fun text hmem => ?_, hhtml⟩
    obtain ⟨node, hnode, htext⟩ := List.mem_filterMap.mp hmem
    have hclean := Markup.cleanForest_iff.mp (h nodes (.document hparse)) node
      (List.mem_of_mem_take hnode)
    refine stable_compileWithin _ node hclean (fun forest hforest => ?_) (outcome_of_markup? htext)
    exact h forest (.node hparse hnode hforest)

/-- The html of a document for which the parser returns clean forests is read as a plain forest, and
compiling it again, in any scope and with any evaluator, changes nothing and fails nowhere. -/
theorem compile_compile {markup : String}
    (h : ∀ forest, compiler.ReturnsFor scope markup forest → Markup.cleanForest forest) :
    let html := (compiler.compile scope false markup).html
    plainForest (Markup.parse html) ∧
      ∀ (evaluate : String → Scope → Except EvalError Value) (scope' : Scope),
        let again : Compiler := ⟨fun text => .ok (Markup.parse text), evaluate, compiler.maxDepth⟩
        (again.compile scope' false html).failures = [] ∧
          (again.compile scope' false html).html = html := by
  intro html
  obtain ⟨text, ⟨forest, rfl, hplain, hlegible, hheight⟩, hhtml⟩ :
      ∃ text, Stable (compiler.maxDepth + 1) text ∧ html = Text.trim text :=
    compiler.exists_stable_compile scope h
  have hcanonical := Markup.canonicalForest_settle forest hlegible
  have hread := Markup.parse_trim hcanonical
  rw [Markup.outerMarkup_settleForest, ← hhtml] at hread
  have hreadPlain : plainForest (Markup.parse html) := by
    rw [hread, Markup.plainForest_iff]
    exact Markup.forall_mem_trimForest (fun _ _ _ => rfl)
      (Markup.plainForest_iff.mp (Markup.plainForest_settle forest hplain))
  have hreadHeight : height (Markup.parse html) ≤ compiler.maxDepth + 1 := by
    rw [hread, Markup.height_le_iff]
    exact Markup.forall_mem_trimForest (fun _ _ hle => hle)
      (Markup.height_le_iff.mp (Nat.le_trans (Markup.height_settleForest_le forest) hheight))
  have htrim : Text.trim html = html := by
    rw [hhtml, Markup.trim_trim]
  have hwritten : outerMarkup (Markup.parse html) = html := by
    rw [hread, Markup.outerMarkup_trimForest, Markup.outerMarkup_settleForest, ← hhtml]
  obtain ⟨hordinary, hrename⟩ := Markup.ordinaryForest_of_plain _ hreadPlain
  refine ⟨hreadPlain, ?_⟩
  intro evaluate scope' again
  have hparse : again.parse (Text.trim html) = .ok (Markup.parse html) := by
    rw [htrim]
  obtain ⟨hagain, hfailures⟩ :=
    again.compile_of_ordinary scope' false hparse hordinary hreadHeight
  refine ⟨hfailures, ?_⟩
  rw [hagain, hrename, hwritten, htrim]
  rfl

/-- An `inter` compiles to markup that compiles to itself. -/
theorem compile_compile_greeting :
    let greeting := "<inter>Hi \x7b'Ada'\x7d</inter>"
    let html := ((standard 2).compile .empty false greeting).html
    html = "<div class=\"fy-inter\">Hi Ada</div>" ∧
      ((standard 2).compile .empty false html).failures = [] ∧
      ((standard 2).compile .empty false html).html = html := by
  intro greeting html
  let children : List Node := [.text "Hi \x7b'Ada'\x7d"]
  have hparse : Markup.parse (Text.trim greeting) = [.element ⟨"inter", []⟩ children] := by
    have hwritten : Text.trim greeting = outerMarkup [.element ⟨"inter", []⟩ children] := by
      decide +kernel
    rw [hwritten, Markup.parse_outerMarkup (by decide)]
  have htreatment : treatment ⟨"inter", []⟩ children = .interpolated := rfl
  have hfilled : (standard 2).interpolatedForest .empty ⟨"inter", []⟩ children =
      .ok [.text "Hi Ada"] := by
    have htext : ((standard 2).interpolateFor .interpolation .empty (outerMarkup children)).outcome =
        .ok "Hi Ada" := by
      have hsome : ((standard 2).interpolateFor .interpolation .empty
          (outerMarkup children)).outcome.toOption = some "Hi Ada" := by decide +kernel
      revert hsome
      cases ((standard 2).interpolateFor .interpolation .empty (outerMarkup children)).outcome with
      | error error => exact fun hsome => nomatch hsome
      | ok text => exact fun hsome => congrArg Except.ok (Option.some.inj hsome)
    have hread : Markup.parse "Hi Ada" = [.text "Hi Ada"] := by
      have hwritten : "Hi Ada" = outerMarkup [.text "Hi Ada"] := by decide
      exact (congrArg Markup.parse hwritten).trans (Markup.parse_outerMarkup (by decide))
    have hbindings : ((standard 2).interpolationBindings .empty ⟨"inter", []⟩).outcome = .ok .empty := rfl
    rw [interpolatedForest, hbindings]
    change (((standard 2).interpolateFor .interpolation .empty (outerMarkup children)).outcome >>= _) = _
    rw [htext]
    exact congrArg Except.ok hread
  have hclean : ∀ forest, (standard 2).ReturnsFor .empty greeting forest → Markup.cleanForest forest := by
    intro forest hreturned
    cases hreturned with
    | document hnodes =>
      obtain rfl := Except.ok.inj hnodes
      rw [hparse]
      decide
    | node hnodes hmem hreturned =>
      obtain rfl := Except.ok.inj hnodes
      rw [hparse] at hmem
      obtain rfl := List.mem_singleton.mp (List.mem_of_mem_take hmem)
      cases hreturned with
      | interpolated _ hforest =>
        obtain rfl := Except.ok.inj (hfilled.symm.trans hforest)
        decide
      | iterated hother _ => exact nomatch htreatment.symm.trans hother
      | @inside _ _ _ before after _ node henters hbefore hreturned =>
        generalize hnodes : before ++ node :: after = nodes at henters
        cases henters with
        | interpolated _ hforest =>
          obtain rfl := Except.ok.inj (hfilled.symm.trans hforest)
          have hmem : node ∈ [.text "Hi Ada"] := by simp [← hnodes]
          obtain rfl := List.mem_singleton.mp hmem
          exact nomatch hreturned
        | wrapped hother _ => exact nomatch htreatment.symm.trans hother
        | consequent hother _ => exact nomatch htreatment.symm.trans hother
        | alternative hother _ _ => exact nomatch htreatment.symm.trans hother
        | body hother _ => exact nomatch htreatment.symm.trans hother
        | iterated hother _ => exact nomatch htreatment.symm.trans hother
  obtain ⟨-, hagain⟩ := (standard 2).compile_compile .empty hclean
  exact ⟨by decide +kernel, hagain _ _⟩

end Compiler

end DirectiveMarkup
