import DirectiveMarkup.Proofs.Depth
import Mathlib.Logic.Function.Iterate

/-!
# The stack of entered nodes

Compiling a node enters nodes inside it, and these others, among them nodes that the parser has made
up. Here the recursion is laid open: a procedure stops where it enters a node and says how it goes
on with the answer, and a machine keeps the procedures that wait on a stack. The machine has no
bound on its steps; only the depth that is handed on with every entry is compared with the limit.

Whatever the parser and the evaluator answer, the machine stops, with the outcome of compilation,
and on its stack the depths go up one by one from the outermost node to at most one beyond the
limit.
-/

namespace DirectiveMarkup

open Expression (Scope)
open Markup (Node Tag isVoid outerMarkup)

/-! ## Procedures that enter nodes -/

/-- A procedure that compiles nodes on its way. It has come to its outcome, or it enters a node at a
depth and goes on with what becomes of that node. -/
inductive Procedure (α : Type) where
  | done (outcome : Except CompileError α)
  | enter (depth : Nat) (node : Node) (resume : Except CompileError Fragment → Procedure α)

namespace Procedure

variable {α β : Type}

/-- Go on with the value of a procedure, if it has one. -/
def andThen : Procedure α → (α → Procedure β) → Procedure β
  | done (.ok value), next => next value
  | done (.error error), _ => done (.error error)
  | enter depth node resume, next => enter depth node fun outcome => (resume outcome).andThen next

instance : Monad Procedure where
  pure value := done (.ok value)
  bind := andThen

/-- The outcome if every node that is entered gets its answer from a function. -/
def answered (answer : Nat → Node → Except CompileError Fragment) :
    Procedure α → Except CompileError α
  | done outcome => outcome
  | enter depth node resume => (resume (answer depth node)).answered answer

/-- Two procedures in a row are answered one after the other. -/
@[simp] theorem answered_bind (answer : Nat → Node → Except CompileError Fragment)
    (first : Procedure α) (next : α → Procedure β) :
    (first >>= next).answered answer =
      first.answered answer >>= fun value => (next value).answered answer := by
  induction first with
  | done outcome => cases outcome <;> rfl
  | enter depth node resume ih => exact ih _

/-- Every node is entered at that depth, whatever the answers are. -/
inductive EntersAt (depth : Nat) : Procedure α → Prop where
  | done (outcome : Except CompileError α) : EntersAt depth (.done outcome)
  | enter (node : Node) {resume : Except CompileError Fragment → Procedure α} :
      (∀ outcome, EntersAt depth (resume outcome)) → EntersAt depth (.enter depth node resume)

/-- Procedures in a row enter where each of them enters. -/
theorem EntersAt.bind {depth : Nat} {first : Procedure α} {next : α → Procedure β}
    (hfirst : EntersAt depth first) (hnext : ∀ value, EntersAt depth (next value)) :
    EntersAt depth (first >>= next) := by
  induction hfirst with
  | done outcome =>
    cases outcome with
    | error error => exact .done _
    | ok value => exact hnext value
  | enter node _ ih => exact .enter node ih

end Procedure

namespace Compiler

open Procedure (EntersAt)

variable (compiler : Compiler) (scope : Scope)

/-! ## The recursion laid open -/

section Entering

variable (depth : Nat)

/-- Enter siblings at a depth in order, up to a halt. -/
def enterSiblings : List Node → Procedure String
  | [] => pure ""
  | node :: rest => do
    match ← Procedure.enter depth node .done with
    | .halt => return ""
    | .markup text => return text ++ (← enterSiblings rest)

/-- Put an element around nodes that are entered at a depth; a void one has nothing inside. -/
def enterInside (output : Tag) (nodes : List Node) : Procedure Fragment := do
  if isVoid output.name then return .markup output.opening
  return .markup (output.opening ++ (← enterSiblings depth nodes) ++ output.closing)

/-- Carry out a treatment and enter what is inside at a depth. -/
def enterTreated (tag : Tag) (children : List Node) : Treatment → Procedure Fragment
  | .cut => return .halt
  | .replaced output => return .markup (outerMarkup output)
  | .wrapped output leading => enterInside depth output (leading ++ children)
  | .chosen => do
    let holds ← .done (compiler.condition scope tag)
    let consequent ← enterSiblings depth children
    if holds then return .markup (wrap "fy-if" consequent)
    enterInside depth (.withClass "div" "fy-else") (alternativeOf children)
  | .interpolated => do
    let forest ← .done (compiler.interpolatedForest scope tag children)
    enterInside depth (.withClass "div" "fy-inter") forest
  | .iterated => do
    let items ← .done (compiler.eachItems scope tag).outcome
    let body ← enterSiblings depth children
    let texts ← .done (compiler.iterations scope tag body 0 items).outcome
    let forest ← .done (compiler.parse (String.join texts))
    enterInside depth (eachTag items.length) forest

end Entering

/-- What happens in a node that is entered at a depth, up to the nodes that it enters in turn. -/
def entered (depth : Nat) (node : Node) : Procedure Fragment :=
  if compiler.maxDepth < depth then .done (.error (.nestingTooDeep compiler.maxDepth))
  else
    match node with
    | .text content => return .markup content
    | .comment _ => return .markup ""
    | .element tag children =>
      compiler.enterTreated scope (depth + 1) tag children (treatment tag children)

/-- A node beyond the limit enters nothing. -/
theorem entered_of_deep {depth : Nat} (h : compiler.maxDepth < depth) (node : Node) :
    compiler.entered scope depth node = .done (.error (.nestingTooDeep compiler.maxDepth)) :=
  if_pos h

/-! ## Where nodes are entered -/

section Where

variable (depth : Nat)

/-- Siblings are entered at one depth. -/
theorem entersAt_enterSiblings (nodes : List Node) :
    EntersAt depth (enterSiblings depth nodes) := by
  induction nodes with
  | nil => exact .done _
  | cons node rest ih =>
    refine EntersAt.bind (.enter node fun outcome => .done outcome) fun fragment => ?_
    cases fragment with
    | halt => exact .done _
    | markup text => exact ih.bind fun others => .done _

/-- The nodes inside an element are entered at one depth. -/
theorem entersAt_enterInside (output : Tag) (nodes : List Node) :
    EntersAt depth (enterInside depth output nodes) := by
  unfold enterInside
  split
  · exact .done _
  · exact (entersAt_enterSiblings depth nodes).bind fun text => .done _

/-- Every treatment enters nodes at one depth. -/
theorem entersAt_enterTreated (tag : Tag) (children : List Node) (kind : Treatment) :
    EntersAt depth (compiler.enterTreated scope depth tag children kind) := by
  have hinside := entersAt_enterInside depth
  have hchildren := entersAt_enterSiblings depth children
  cases kind with
  | cut => exact .done _
  | replaced output => exact .done _
  | wrapped output leading => exact hinside output _
  | chosen =>
    refine EntersAt.bind (.done _) fun holds => hchildren.bind fun consequent => ?_
    cases holds with
    | true => exact .done _
    | false => exact hinside (.withClass "div" "fy-else") (alternativeOf children)
  | interpolated => exact EntersAt.bind (.done _) fun forest => hinside _ forest
  | iterated =>
    exact EntersAt.bind (.done _) fun items => hchildren.bind fun body =>
      EntersAt.bind (.done _) fun texts => EntersAt.bind (.done _) fun forest => hinside _ forest

/-- A node enters others one deeper than it stands. -/
theorem entersAt_entered (node : Node) :
    EntersAt (depth + 1) (compiler.entered scope depth node) := by
  unfold entered
  split
  · exact .done _
  · cases node with
    | text content => exact .done _
    | comment body => exact .done _
    | element tag children => exact entersAt_enterTreated compiler scope _ tag children _

end Where

/-! ## What entered nodes answer -/

section Answers

variable (depth : Nat) (answer : Nat → Node → Except CompileError Fragment)

/-- Siblings are collected from their answers. -/
theorem answered_enterSiblings (nodes : List Node) :
    (enterSiblings depth nodes).answered answer =
      String.join <$> (collect (fun node => .ofExcept (answer depth node)) nodes).outcome := by
  induction nodes with
  | nil => rfl
  | cons node rest ih =>
    rw [join_collect_cons, enterSiblings, Procedure.answered_bind]
    refine bind_congr fun fragment => ?_
    cases fragment with
    | halt => rfl
    | markup text =>
      dsimp only
      rw [Procedure.answered_bind, ih]
      cases (collect (fun node => .ofExcept (answer depth node)) rest).outcome <;> rfl

/-- A wrapper is put around what the nodes inside answer. -/
theorem answered_enterInside (output : Tag) (nodes : List Node) :
    (enterInside depth output nodes).answered answer =
      wrapElement (fun nodes => (enterSiblings depth nodes).answered answer) output nodes := by
  unfold enterInside wrapElement
  split
  · rfl
  · rw [Procedure.answered_bind]
    dsimp only
    cases (enterSiblings depth nodes).answered answer <;> rfl

/-- A treatment does with the answers what it does with compiled siblings. -/
theorem answered_enterTreated (tag : Tag) (children : List Node) (kind : Treatment) :
    (compiler.enterTreated scope depth tag children kind).answered answer =
      compiler.carryOut scope (fun nodes => (enterSiblings depth nodes).answered answer) tag
        children kind := by
  have hinside := answered_enterInside depth answer
  cases kind with
  | cut => rfl
  | replaced output => rfl
  | wrapped output leading => exact hinside output _
  | chosen =>
    rw [enterTreated, carryOut, Procedure.answered_bind]
    refine bind_congr fun holds => ?_
    rw [Procedure.answered_bind]
    refine bind_congr fun consequent => ?_
    cases holds with
    | true => rfl
    | false => exact hinside (.withClass "div" "fy-else") (alternativeOf children)
  | interpolated =>
    rw [enterTreated, carryOut, Procedure.answered_bind]
    exact bind_congr fun forest => hinside _ forest
  | iterated =>
    simp only [enterTreated, carryOut, iteratedForest, Procedure.answered_bind, bind_assoc,
      pure_bind, hinside]
    rfl

/-- Whatever the nodes that it enters answer, an element within the limit comes to what its rule
makes of them, with the answers in the place of what its children compile to. -/
theorem answered_entered_element {depth : Nat} (h : depth ≤ compiler.maxDepth) (tag : Tag)
    (children : List Node) :
    (compiler.entered scope depth (.element tag children)).answered answer =
      (compiler.compileElement scope (fun nodes => do
        return String.join (← collect (fun node => .ofExcept (answer (depth + 1) node)) nodes))
          tag children).outcome := by
  rw [outcome_compileElement, entered, if_neg (Nat.not_lt.mpr h), answered_enterTreated]
  simp only [outcome_join_collect, answered_enterSiblings]

/-- A node compiles to what comes of it when those that it enters answer what they compile to. -/
theorem answered_entered (node : Node) :
    (compiler.entered scope depth node).answered (fun depth node =>
      (compiler.compileAt scope depth node).outcome) =
        (compiler.compileAt scope depth node).outcome := by
  by_cases hdepth : depth ≤ compiler.maxDepth
  · cases node with
    | text content =>
      rw [entered, if_neg (Nat.not_lt.mpr hdepth), outcome_compileAt_text scope hdepth]
      rfl
    | comment body =>
      rw [entered, if_neg (Nat.not_lt.mpr hdepth), outcome_compileAt_comment scope hdepth]
      rfl
    | element tag children =>
      have hsiblings (nodes : List Node) : String.join <$> (collect (fun node =>
          .ofExcept (compiler.compileAt scope (depth + 1) node).outcome) nodes).outcome =
            compiler.siblingsAt scope (depth + 1) nodes := by
        refine join_collect_congr _ (fun node => ?_) nodes
        rfl
      rw [answered_entered_element compiler scope _ hdepth, outcome_compileElement,
        outcome_compileAt_element scope hdepth]
      simp only [outcome_join_collect, hsiblings]
  · rw [entered_of_deep compiler scope (Nat.not_le.mp hdepth),
      outcome_compileAt_of_deep scope (Nat.not_le.mp hdepth)]
    rfl

end Answers

end Compiler

/-! ## The machine -/

/-- A procedure that waits for a node that it has entered, with its own depth. -/
structure Waiting where
  depth : Nat
  resume : Except CompileError Fragment → Procedure Fragment

/-- A state of the machine: the node that was entered last, by its depth and what is left to do, and
those around it, the innermost first; or the outcome. -/
inductive MachineState where
  | running (depth : Nat) (rest : Procedure Fragment) (waiting : List Waiting)
  | finished (outcome : Except CompileError Fragment)

/-- The depths of the nodes that have been entered and not left, the innermost first. -/
def MachineState.depths : MachineState → List Nat
  | running depth _ waiting => depth :: waiting.map Waiting.depth
  | finished _ => []

namespace Compiler

open Procedure (EntersAt)

variable (compiler : Compiler) (scope : Scope)

/-- The machine enters a node, or leaves one with its outcome. -/
def machineStep : MachineState → MachineState
  | .running depth (.enter deeper node resume) waiting =>
    .running deeper (compiler.entered scope deeper node) (⟨depth, resume⟩ :: waiting)
  | .running _ (.done outcome) (outer :: waiting) =>
    .running outer.depth (outer.resume outcome) waiting
  | .running _ (.done outcome) [] => .finished outcome
  | .finished outcome => .finished outcome

/-- The machine has just entered a node at depth 0. -/
def machineStart (node : Node) : MachineState :=
  .running 0 (compiler.entered scope 0 node) []

/-- The machine comes from one state to the other. -/
def Leads (state state' : MachineState) : Prop :=
  ∃ steps, (compiler.machineStep scope)^[steps] state = state'

section Runs

variable {compiler scope} {state state' state'' : MachineState}

/-- Runs one after the other make a run. -/
theorem Leads.trans (h : compiler.Leads scope state state')
    (h' : compiler.Leads scope state' state'') : compiler.Leads scope state state'' := by
  obtain ⟨steps, rfl⟩ := h
  obtain ⟨steps', rfl⟩ := h'
  exact ⟨steps' + steps, Function.iterate_add_apply _ steps' steps state⟩

/-- A step in front of a run makes a run. -/
theorem Leads.step (h : compiler.Leads scope (compiler.machineStep scope state) state') :
    compiler.Leads scope state state' := by
  obtain ⟨steps, rfl⟩ := h
  exact ⟨steps + 1, rfl⟩

end Runs

/-! ## Every run ends -/

/-- A procedure comes to its outcome if the nodes that it enters are left with what they
compile to. -/
theorem leads_done {depth : Nat} {rest : Procedure Fragment} (h : EntersAt (depth + 1) rest)
    (hinside : ∀ node waiting, compiler.Leads scope
      (.running (depth + 1) (compiler.entered scope (depth + 1) node) waiting)
      (.running (depth + 1) (.done (compiler.compileAt scope (depth + 1) node).outcome) waiting))
    (waiting : List Waiting) :
    compiler.Leads scope (.running depth rest waiting)
      (.running depth (.done (rest.answered fun depth node =>
        (compiler.compileAt scope depth node).outcome)) waiting) := by
  induction h with
  | done outcome => exact ⟨0, rfl⟩
  | @enter node resume _ ih =>
    have hentered := hinside node (⟨depth, resume⟩ :: waiting)
    exact Leads.step (hentered.trans (Leads.step (ih _)))

/-- A node that is entered is left with what it compiles to, whatever waits for it. -/
theorem leads_compileAt (depth : Nat) (node : Node) (waiting : List Waiting) :
    compiler.Leads scope (.running depth (compiler.entered scope depth node) waiting)
      (.running depth (.done (compiler.compileAt scope depth node).outcome) waiting) := by
  -- The depth alone carries the induction: how far it is from the limit.
  induction hlevels : compiler.maxDepth + 1 - depth generalizing depth node waiting with
  | zero =>
    have hdeep : compiler.maxDepth < depth := by omega
    rw [entered_of_deep compiler scope hdeep, outcome_compileAt_of_deep scope hdeep]
    exact ⟨0, rfl⟩
  | succ levels ih =>
    have hrun := compiler.leads_done scope (compiler.entersAt_entered scope depth node)
      (fun inside waiting => ih (depth + 1) inside waiting (by omega)) waiting
    rwa [answered_entered] at hrun

/-! ## The depths on the stack -/

/-- What waits around a node at a depth: procedures at all the smaller depths, each of which
enters nodes one deeper only, and none of which is beyond the limit. -/
inductive Stacked : (depth : Nat) → List Waiting → Prop where
  | outermost : Stacked 0 []
  | inside {depth : Nat} {resume : Except CompileError Fragment → Procedure Fragment}
      {waiting : List Waiting} :
      depth ≤ compiler.maxDepth → (∀ outcome, EntersAt (depth + 1) (resume outcome)) →
      Stacked depth waiting → Stacked (depth + 1) (⟨depth, resume⟩ :: waiting)

/-- A state in which every node enters others one deeper, and none does beyond the limit. -/
inductive Orderly : MachineState → Prop where
  | running {depth : Nat} {rest : Procedure Fragment} {waiting : List Waiting} :
      EntersAt (depth + 1) rest → (compiler.maxDepth < depth → ∃ outcome, rest = .done outcome) →
      compiler.Stacked depth waiting → Orderly (.running depth rest waiting)
  | finished (outcome : Except CompileError Fragment) : Orderly (.finished outcome)

section Order

variable {compiler}

/-- On a stack the depths go down one by one to 0, from at most one beyond the limit. -/
theorem Stacked.depths_eq {depth : Nat} {waiting : List Waiting}
    (h : compiler.Stacked depth waiting) :
    depth ≤ compiler.maxDepth + 1 ∧
      depth :: waiting.map Waiting.depth = (List.range (depth + 1)).reverse := by
  induction h with
  | outermost => exact ⟨Nat.zero_le _, rfl⟩
  | inside hdepth _ _ ih =>
    refine ⟨Nat.succ_le_succ hdepth, ?_⟩
    rw [List.range_succ, List.reverse_append, ← ih.2]
    rfl

/-- A node that is entered is in order where it stands. -/
theorem Stacked.orderly_entered {depth : Nat} {waiting : List Waiting}
    (h : compiler.Stacked depth waiting) (scope : Scope) (node : Node) :
    compiler.Orderly (.running depth (compiler.entered scope depth node) waiting) :=
  .running (compiler.entersAt_entered scope depth node)
    (fun hdeep => ⟨_, compiler.entered_of_deep scope hdeep node⟩) h

/-- A step keeps the order. -/
theorem Orderly.step {state : MachineState} (h : compiler.Orderly state) (scope : Scope) :
    compiler.Orderly (compiler.machineStep scope state) := by
  cases h with
  | finished outcome => exact .finished outcome
  | @running depth rest waiting henters hdeep hstacked =>
    cases henters with
    | done outcome =>
      cases hstacked with
      | outermost => exact .finished outcome
      | inside hdepth hresume houter =>
        have hnot := Nat.not_lt.mpr hdepth
        exact .running (hresume outcome) (fun hbeyond => absurd hbeyond hnot) houter
    | enter node hresume =>
      -- Beyond the limit there is nothing left but an outcome.
      have hdepth : depth ≤ compiler.maxDepth := by
        by_contra hbeyond
        obtain ⟨outcome, houtcome⟩ := hdeep (Nat.not_le.mp hbeyond)
        exact nomatch houtcome
      exact (Stacked.inside hdepth hresume hstacked).orderly_entered scope node

/-- A run keeps the order. -/
theorem Orderly.iterate {state : MachineState} (h : compiler.Orderly state) (scope : Scope)
    (steps : Nat) : compiler.Orderly ((compiler.machineStep scope)^[steps] state) := by
  induction steps with
  | zero => exact h
  | succ steps ih =>
    rw [Function.iterate_succ_apply']
    exact ih.step scope

end Order

/-- Compilation ends whatever the parser and the evaluator answer. The machine stops with the
outcome of compilation, and at every moment of its run the depths of the nodes that have been
entered and not left are 0, 1, 2 and so on, up to at most one beyond the limit. -/
theorem machine_finishes (node : Node) :
    (∃ steps, (compiler.machineStep scope)^[steps] (compiler.machineStart scope node) =
      .finished (compiler.compileNode scope node).outcome) ∧
    ∀ steps, ∃ count ≤ compiler.maxDepth + 2,
      ((compiler.machineStep scope)^[steps] (compiler.machineStart scope node)).depths =
        (List.range count).reverse := by
  constructor
  · have hlast : compiler.Leads scope
        (.running 0 (.done (compiler.compileAt scope 0 node).outcome) [])
        (.finished (compiler.compileNode scope node).outcome) := ⟨1, rfl⟩
    exact (compiler.leads_compileAt scope 0 node []).trans hlast
  · intro steps
    have hstart : compiler.Orderly (compiler.machineStart scope node) :=
      (@Stacked.outermost compiler).orderly_entered scope node
    have horderly := hstart.iterate scope steps
    generalize (compiler.machineStep scope)^[steps] (compiler.machineStart scope node) = state
      at horderly
    cases horderly with
    | running _ _ hstacked =>
      obtain ⟨hdepth, hdepths⟩ := hstacked.depths_eq
      exact ⟨_, Nat.succ_le_succ hdepth, hdepths⟩
    | finished outcome => exact ⟨0, Nat.zero_le _, rfl⟩

end Compiler

end DirectiveMarkup
