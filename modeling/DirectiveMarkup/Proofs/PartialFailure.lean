import DirectiveMarkup.Compile.Report
import DirectiveMarkup.Proofs.Treatment
import Mathlib.Data.List.Basic

/-!
# What becomes of a document when nodes fail

A document is compiled node by node at the top level. What a node compiles to depends on the node
alone, so the report has a description without the loop: the nodes in front of the first halt
count, those of them that fail are listed by their positions, and the html is the markup of the
others. From it follows what a change of the document can change in the report.

A halt ends the collection of its own siblings only. An element with any other tag compiles to
markup or fails, however many halts there are in it, and whatever the parser and the evaluator
answer.
-/

namespace DirectiveMarkup

open Expression (Scope)
open Markup (Node Tag isVoid)

/-- True of an element whose tag is `halt` in lower case. -/
def isHalt : Node → Bool
  | .element tag _ => Text.toLower tag.name == "halt"
  | _ => false

/-- The position of the first halt among nodes, or the number of nodes if there is none. -/
def haltIndex (nodes : List Node) : Nat :=
  nodes.findIdx isHalt

/-- The markup that a node compiles to, if it compiles to markup. -/
def markup? (compile : Node → Reported Fragment) (node : Node) : Option String :=
  match (compile node).outcome with
  | .ok (.markup text) => some text
  | _ => none

/-- The failure of a node at a position, if it fails. -/
def failure? (compile : Node → Reported Fragment) (placed : Node × Nat) : Option Failure :=
  match (compile placed.1).outcome with
  | .error error => some ⟨placed.2, error⟩
  | .ok _ => none

/-- A node with markup compiles to it. -/
theorem outcome_of_markup? {compile : Node → Reported Fragment} {node : Node} {text : String}
    (h : markup? compile node = some text) : (compile node).outcome = .ok (.markup text) := by
  unfold markup? at h
  split at h
  next content houtcome =>
    obtain rfl := Option.some.inj h
    exact houtcome
  · exact nomatch h

/-! ## Halts -/

/-- A directive is found under one of its tags. -/
theorem mem_tags_of_ofTag? {name : String} {directive : Directive}
    (h : Directive.ofTag? name = some directive) : (name, directive) ∈ Directive.tags := by
  obtain ⟨before, after, htags, -⟩ := List.lookup_eq_some_iff.mp h
  rw [htags]
  exact List.mem_append_right _ List.mem_cons_self

/-- Only `halt` stands for a halt. -/
theorem ofTag?_eq_halt_iff {name : String} :
    Directive.ofTag? name = some .halt ↔ name = "halt" := by
  constructor
  · intro h
    simpa [Directive.tags] using mem_tags_of_ofTag? h
  · rintro rfl
    rfl

/-- An element is cut off exactly when its tag is `halt`. -/
theorem treatment_eq_cut_iff {tag : Tag} {children : List Node} :
    treatment tag children = .cut ↔ isHalt (.element tag children) := by
  rw [isHalt, beq_iff_eq, ← ofTag?_eq_halt_iff, treatment]
  cases Directive.ofTag? (Text.toLower tag.name) with
  | none => simp
  | some directive =>
    cases directive with
    | group => by_cases h : tag.hasClass "group" <;> simp [h]
    | each => by_cases h : tag.hasAttribute "of" <;> simp [h]
    | _ => simp

namespace Compiler

variable (compiler : Compiler) (scope : Scope)

/-- A wrapper is markup, if what is inside it compiles. -/
theorem wrapElement_eq_ok {inner : List Node → Except CompileError String} {output : Tag}
    {nodes : List Node} {fragment : Fragment} (h : wrapElement inner output nodes = .ok fragment) :
    (isVoid output.name ∧ fragment = .markup output.opening) ∨
      ∃ text, isVoid output.name = false ∧ inner nodes = .ok text ∧
        fragment = .markup (output.opening ++ text ++ output.closing) := by
  unfold wrapElement at h
  split_ifs at h with hvoid
  · exact .inl ⟨hvoid, (Except.ok.inj h).symm⟩
  · cases hinner : inner nodes with
    | error error =>
      rw [hinner] at h
      exact nomatch h
    | ok text =>
      rw [hinner] at h
      exact .inr ⟨text, by simpa using hvoid, rfl, (Except.ok.inj h).symm⟩

/-- A wrapper is no halt. -/
theorem wrapElement_ne_halt (inner : List Node → Except CompileError String) (output : Tag)
    (nodes : List Node) : wrapElement inner output nodes ≠ .ok .halt := by
  intro h
  rcases wrapElement_eq_ok h with ⟨-, hfragment⟩ | ⟨text, -, -, hfragment⟩
  · exact nomatch hfragment
  · exact nomatch hfragment

/-- Two steps in a row have a value when both have one. -/
theorem bind_eq_ok {α β : Type} {first : Except CompileError α}
    {next : α → Except CompileError β} {result : β} (h : first >>= next = .ok result) :
    ∃ value, first = .ok value ∧ next value = .ok result := by
  cases first with
  | error error => exact nomatch h
  | ok value => exact ⟨value, rfl, h⟩

/-- What halts after a step halts with the value of that step. -/
theorem bind_ne_halt {α : Type} (first : Except CompileError α)
    {next : α → Except CompileError Fragment} (h : ∀ value, next value ≠ .ok .halt) :
    first >>= next ≠ .ok .halt := by
  intro hbind
  obtain ⟨value, -, hnext⟩ := bind_eq_ok hbind
  exact h value hnext

/-- Of all treatments, only cutting off halts. -/
theorem carryOut_eq_halt_iff (inner : List Node → Except CompileError String) (tag : Tag)
    (children : List Node) (kind : Treatment) :
    compiler.carryOut scope inner tag children kind = .ok .halt ↔ kind = .cut := by
  refine ⟨fun h => ?_, fun h => h ▸ rfl⟩
  cases kind with
  | cut => rfl
  | replaced output => exact nomatch h
  | wrapped output leading => exact absurd h (wrapElement_ne_halt _ _ _)
  | chosen =>
    refine absurd h (bind_ne_halt _ fun holds => bind_ne_halt _ fun consequent => ?_)
    cases holds with
    | true => exact fun hmarkup => nomatch hmarkup
    | false => simpa only [Bool.false_eq_true, ↓reduceIte] using wrapElement_ne_halt inner _ _
  | interpolated => exact absurd h (bind_ne_halt _ fun forest => wrapElement_ne_halt _ _ _)
  | iterated => exact absurd h (bind_ne_halt _ fun read => wrapElement_ne_halt _ _ _)

/-- A node halts exactly when it is a `halt` and not nested too deep. -/
theorem outcome_eq_halt_iff (levels : Nat) (node : Node) :
    (compiler.compileWithin scope levels node).outcome = .ok .halt ↔
      0 < levels ∧ isHalt node := by
  cases levels with
  | zero => simp
  | succ levels =>
    cases node with
    | text content => simp [isHalt]
    | comment body => simp [isHalt]
    | element tag children =>
      rw [outcome_compileWithin_element, carryOut_eq_halt_iff, treatment_eq_cut_iff]
      simp

end Compiler

/-! ## The pass over the top level -/

section Pass

variable {compile : Node → Reported Fragment}
  (hhalt : ∀ node, (compile node).outcome = .ok .halt ↔ isHalt node)

/-- In front of a first node that is no halt, the first halt is one position further. -/
theorem haltIndex_cons (node : Node) (rest : List Node) :
    haltIndex (node :: rest) = if isHalt node then 0 else haltIndex rest + 1 := by
  rw [haltIndex, List.findIdx_cons]
  cases isHalt node <;> rfl

include hhalt

/-- Nothing is collected from a halt on. -/
theorem compileTop_of_isHalt {node : Node} (h : isHalt node) (index : Nat) (rest : List Node) :
    compileTop compile index (node :: rest) =
      ⟨[], [], true, (compile node).notices ++ [.halted index]⟩ := by
  rw [compileTop]
  simp only [(hhalt node).mpr h]

/-- The pieces are the markup of the nodes in front of the first halt. -/
theorem pieces_compileTop (index : Nat) (nodes : List Node) :
    (compileTop compile index nodes).pieces =
      (nodes.take (haltIndex nodes)).filterMap (markup? compile) := by
  induction nodes generalizing index with
  | nil => rfl
  | cons node rest ih =>
    rw [haltIndex_cons]
    split_ifs with hnode
    · rw [compileTop_of_isHalt hhalt hnode]
      rfl
    · rw [List.take_succ_cons, List.filterMap_cons, compileTop, markup?]
      cases h : (compile node).outcome with
      | error error => exact ih (index + 1)
      | ok fragment =>
        cases fragment with
        | halt => exact absurd ((hhalt node).mp h) hnode
        | markup text => exact congrArg (text :: ·) (ih (index + 1))

/-- The pass is halted when there is a halt. -/
theorem halted_compileTop (index : Nat) (nodes : List Node) :
    (compileTop compile index nodes).halted = true ↔ haltIndex nodes < nodes.length := by
  induction nodes generalizing index with
  | nil => simp [compileTop, haltIndex]
  | cons node rest ih =>
    rw [haltIndex_cons]
    split_ifs with hnode
    · simp [compileTop_of_isHalt hhalt hnode]
    · rw [List.length_cons, Nat.add_lt_add_iff_right, ← ih (index + 1), compileTop]
      cases h : (compile node).outcome with
      | error error => rfl
      | ok fragment =>
        cases fragment with
        | halt => exact absurd ((hhalt node).mp h) hnode
        | markup text => rfl

/-- The failures are those of the nodes in front of the first halt, with their positions. -/
theorem failures_compileTop (index : Nat) (nodes : List Node) :
    (compileTop compile index nodes).failures =
      ((nodes.take (haltIndex nodes)).zipIdx index).filterMap (failure? compile) := by
  induction nodes generalizing index with
  | nil => rfl
  | cons node rest ih =>
    rw [haltIndex_cons]
    split_ifs with hnode
    · rw [compileTop_of_isHalt hhalt hnode]
      rfl
    · rw [List.take_succ_cons, List.zipIdx_cons, List.filterMap_cons, compileTop, failure?]
      cases h : (compile node).outcome with
      | error error => exact congrArg (⟨index, error⟩ :: ·) (ih (index + 1))
      | ok fragment =>
        cases fragment with
        | halt => exact absurd ((hhalt node).mp h) hnode
        | markup text => exact ih (index + 1)

/-- Nodes that fail leave no trace in the pieces. -/
theorem pieces_filter_isOk (nodes : List Node) :
    let kept := nodes.filter fun node => (compile node).outcome.isOk
    (kept.take (haltIndex kept)).filterMap (markup? compile) =
      (nodes.take (haltIndex nodes)).filterMap (markup? compile) := by
  induction nodes with
  | nil => rfl
  | cons node rest ih =>
    dsimp only at ih ⊢
    rw [List.filter_cons, haltIndex_cons]
    cases h : (compile node).outcome with
    | error error =>
      have hnode : ¬ isHalt node := fun hnode => nomatch h.symm.trans ((hhalt node).mpr hnode)
      rw [if_neg (by simp [Except.isOk, Except.toBool]), if_neg hnode, List.take_succ_cons, ih,
        List.filterMap_cons, markup?, h]
    | ok fragment =>
      rw [if_pos (by simp [Except.isOk, Except.toBool]), haltIndex_cons]
      split_ifs with hnode
      · rfl
      · rw [List.take_succ_cons, List.take_succ_cons, List.filterMap_cons, List.filterMap_cons, ih]

/-- Nothing behind the first halt has an influence. -/
theorem compileTop_congr {nodes nodes' : List Node} (index : Nat)
    (h : nodes.take (haltIndex nodes + 1) = nodes'.take (haltIndex nodes + 1)) :
    compileTop compile index nodes = compileTop compile index nodes' := by
  induction nodes generalizing nodes' index with
  | nil =>
    cases nodes' with
    | nil => rfl
    | cons node' rest' => simp at h
  | cons node rest ih =>
    cases nodes' with
    | nil => simp at h
    | cons node' rest' =>
      rw [List.take_succ_cons, List.take_succ_cons] at h
      obtain ⟨rfl, hrest⟩ := List.cons.inj h
      by_cases hnode : isHalt node
      · rw [compileTop_of_isHalt hhalt hnode, compileTop_of_isHalt hhalt hnode]
      · rw [haltIndex_cons, if_neg hnode] at hrest
        rw [compileTop, compileTop, ih (index + 1) hrest]

omit hhalt

/-- Nodes that are no halts come before the first halt. -/
theorem haltIndex_append {before : List Node} (h : ∀ node ∈ before, isHalt node = false)
    (rest : List Node) : haltIndex (before ++ rest) = before.length + haltIndex rest := by
  induction before with
  | nil => simp
  | cons node before ih =>
    rw [List.forall_mem_cons] at h
    rw [List.cons_append, haltIndex_cons, if_neg (by simp [h.1]), ih h.2, List.length_cons]
    omega

/-- A pass over nodes that all compile to markup collects them all. -/
theorem compileTop_of_forall_markup {text : Node → String} {nodes : List Node}
    (h : ∀ node ∈ nodes, (compile node).outcome = .ok (.markup (text node))) (index : Nat) :
    let pass := compileTop compile index nodes
    pass.pieces = nodes.map text ∧ pass.failures = [] ∧ pass.halted = false := by
  induction nodes generalizing index with
  | nil => exact ⟨rfl, rfl, rfl⟩
  | cons node rest ih =>
    rw [List.forall_mem_cons] at h
    obtain ⟨hpieces, hfailures, hhalted⟩ := ih h.2 (index + 1)
    rw [compileTop]
    simp only [h.1]
    exact ⟨congrArg (text node :: ·) hpieces, hfailures, hhalted⟩

/-- The markup of the first node stands in front of that of the others. -/
theorem join_markup_cons (node : Node) (rest : List Node) :
    String.join ((node :: rest).filterMap (markup? compile)) =
      (markup? compile node).getD "" ++ String.join (rest.filterMap (markup? compile)) := by
  rw [List.filterMap_cons]
  cases markup? compile node with
  | none => simp
  | some text => simp [String.join_cons]

end Pass

/-! ## The report -/

/-- How the report of a document comes from its top-level nodes, and what a change of these
nodes can change in it. -/
structure IsolatesFailures (compiler : Compiler) (scope : Scope) (branding : Bool) : Prop where
  /-- A document that cannot be read is reported as one failure, and nothing else is. -/
  unread : ∀ markup error, compiler.parse (Text.trim markup) = .error error →
    let report := compiler.compile scope branding markup
    report.html = brand branding "" ∧ report.failures = [⟨0, error⟩] ∧ report.halted = false
  /-- The nodes in front of the first halt are collected: their markup is the html, and those
  that fail are listed in order. -/
  collected : ∀ markup nodes, compiler.parse (Text.trim markup) = .ok nodes →
    let report := compiler.compile scope branding markup
    let compile := compiler.compileNode scope
    let counted := nodes.take (haltIndex nodes)
    (report.halted = true ↔ haltIndex nodes < nodes.length) ∧
      report.failures = counted.zipIdx.filterMap (failure? compile) ∧
      report.html = brand branding (Text.trim (String.join (counted.filterMap (markup? compile))))
  /-- Documents that differ in failing nodes only have the same html. -/
  failing : ∀ markup markup' nodes nodes', compiler.parse (Text.trim markup) = .ok nodes →
    compiler.parse (Text.trim markup') = .ok nodes' →
    let compiles := fun node => (compiler.compileNode scope node).outcome.isOk
    nodes.filter compiles = nodes'.filter compiles →
    (compiler.compile scope branding markup).html = (compiler.compile scope branding markup').html
  /-- Documents that agree up to the first halt have the same report. -/
  behind : ∀ markup markup' nodes nodes', compiler.parse (Text.trim markup) = .ok nodes →
    compiler.parse (Text.trim markup') = .ok nodes' →
    nodes.take (haltIndex nodes + 1) = nodes'.take (haltIndex nodes + 1) →
    compiler.compile scope branding markup = compiler.compile scope branding markup'
  /-- A node that is replaced, halts aside, changes its own markup and its own failure only. -/
  replaced : ∀ markup markup' before after node node',
    compiler.parse (Text.trim markup) = .ok (before ++ node :: after) →
    compiler.parse (Text.trim markup') = .ok (before ++ node' :: after) →
    (∀ other ∈ node :: node' :: before, isHalt other = false) →
    let report := compiler.compile scope branding markup
    let report' := compiler.compile scope branding markup'
    let own := fun node => (markup? (compiler.compileNode scope) node).getD ""
    report.halted = report'.halted ∧
      (∀ failure, failure.index ≠ before.length →
        (failure ∈ report.failures ↔ failure ∈ report'.failures)) ∧
      ∃ front back, report.html = brand branding (Text.trim (front ++ own node ++ back)) ∧
        report'.html = brand branding (Text.trim (front ++ own node' ++ back))
  /-- On any level a node halts only if its own tag is `halt`. -/
  halting : ∀ levels node, (compiler.compileWithin scope levels node).outcome = .ok .halt ↔
    0 < levels ∧ isHalt node

namespace Compiler

variable (compiler : Compiler) (scope : Scope) (branding : Bool)

/-- At the top level a node halts exactly when it is a `halt`. -/
theorem outcome_compileNode_eq_halt_iff (node : Node) :
    (compiler.compileNode scope node).outcome = .ok .halt ↔ isHalt node := by
  rw [compileNode, outcome_eq_halt_iff]
  simp

/-- The report of a document that can be read is that of the pass over its nodes. -/
theorem compile_of_parse {markup : String} {nodes : List Node}
    (h : compiler.parse (Text.trim markup) = .ok nodes) :
    compiler.compile scope branding markup =
      let pass := compileTop (compiler.compileNode scope) 0 nodes
      ⟨brand branding (Text.trim (String.join pass.pieces)), pass.failures, pass.halted,
        pass.notices⟩ := by
  rw [compile, h]

/-- The report of a document that can be read, without the pass. -/
theorem compile_of_collected {markup : String} {nodes : List Node}
    (h : compiler.parse (Text.trim markup) = .ok nodes) :
    let report := compiler.compile scope branding markup
    let compile := compiler.compileNode scope
    let counted := nodes.take (haltIndex nodes)
    (report.halted = true ↔ haltIndex nodes < nodes.length) ∧
      report.failures = counted.zipIdx.filterMap (failure? compile) ∧
      report.html = brand branding (Text.trim (String.join (counted.filterMap (markup? compile)))) := by
  have hhalt := compiler.outcome_compileNode_eq_halt_iff scope
  rw [compile_of_parse compiler scope branding h]
  exact ⟨halted_compileTop hhalt 0 nodes, failures_compileTop hhalt 0 nodes,
    congrArg (fun pieces => brand branding (Text.trim (String.join pieces)))
      (pieces_compileTop hhalt 0 nodes)⟩

/-- The failures of other nodes are the same whatever node stands in a place. -/
theorem mem_failures_append_cons {compile : Node → Reported Fragment} {before after : List Node}
    {failure : Failure} (h : failure.index ≠ before.length) (node node' : Node) :
    failure ∈ (before ++ node :: after).zipIdx.filterMap (failure? compile) ↔
      failure ∈ (before ++ node' :: after).zipIdx.filterMap (failure? compile) := by
  have hown (node : Node) : failure? compile (node, before.length) ≠ some failure := by
    intro hfailure
    unfold failure? at hfailure
    split at hfailure
    · exact h (congrArg Failure.index (Option.some.inj hfailure)).symm
    · exact nomatch hfailure
  simp only [List.zipIdx_append, List.zipIdx_cons, List.filterMap_append, List.mem_append,
    List.mem_filterMap, List.mem_cons, Nat.zero_add, or_and_right, exists_or, exists_eq_left, hown,
    false_or]

/-- Failures are isolated, halts stay where they are, and a node changes its own part only. -/
theorem compile_isolatesFailures : IsolatesFailures compiler scope branding := by
  have hhalt := compiler.outcome_compileNode_eq_halt_iff scope
  refine ⟨?_, fun markup nodes => compiler.compile_of_collected scope branding, ?_, ?_, ?_,
    compiler.outcome_eq_halt_iff scope⟩
  · intro markup error hparse
    rw [compile, hparse]
    exact ⟨rfl, rfl, rfl⟩
  · intro markup markup' nodes nodes' hparse hparse' compiles hkept
    obtain ⟨-, -, hhtml⟩ := compiler.compile_of_collected scope branding hparse
    obtain ⟨-, -, hhtml'⟩ := compiler.compile_of_collected scope branding hparse'
    rw [hhtml, hhtml', ← pieces_filter_isOk hhalt nodes, ← pieces_filter_isOk hhalt nodes']
    exact congrArg (fun kept : List Node => brand branding (Text.trim (String.join
      ((kept.take (haltIndex kept)).filterMap (markup? (compiler.compileNode scope)))))) hkept
  · intro markup markup' nodes nodes' hparse hparse' hfront
    rw [compile_of_parse compiler scope branding hparse,
      compile_of_parse compiler scope branding hparse', compileTop_congr hhalt 0 hfront]
  · intro markup markup' before after node node' hparse hparse' hplain
    obtain ⟨hnode, hnode', hbefore⟩ : isHalt node = false ∧ isHalt node' = false ∧
        ∀ other ∈ before, isHalt other = false := by simpa using hplain
    have hindex {node : Node} (h : isHalt node = false) :
        haltIndex (before ++ node :: after) = before.length + (haltIndex after + 1) := by
      rw [haltIndex_append hbefore, haltIndex_cons, if_neg (by simp [h])]
    obtain ⟨hhalted, hfailures, hhtml⟩ := compiler.compile_of_collected scope branding hparse
    obtain ⟨hhalted', hfailures', hhtml'⟩ := compiler.compile_of_collected scope branding hparse'
    rw [hindex hnode] at hhalted hfailures hhtml
    rw [hindex hnode'] at hhalted' hfailures' hhtml'
    rw [List.take_length_add_append, List.take_succ_cons] at hfailures hhtml hfailures' hhtml'
    rw [List.filterMap_append, String.join_append, join_markup_cons, ← String.append_assoc]
      at hhtml hhtml'
    refine ⟨?_, fun failure hother => ?_, _, _, hhtml, hhtml'⟩
    · rw [Bool.eq_iff_iff, hhalted, hhalted', List.length_append, List.length_append,
        List.length_cons, List.length_cons]
    · rw [hfailures, hfailures']
      exact mem_failures_append_cons hother node node'

end Compiler

end DirectiveMarkup
