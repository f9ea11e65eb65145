import DirectiveMarkup.Proofs.Reading
import Mathlib.Data.List.TakeWhile

/-!
# Lenient and explicit closing

Closing is lenient: a close without a matching open element does nothing, one that matches an outer
element closes all inside it as well, and what is open at the end is closed there. Balancing writes
these closes out. The steps that it gives are bracketed, every opening with a close of its own, and
build the same forest. What bracketed steps build can be read off without a stack: the children of
an element are what is built between its opening and its close.

The open elements matter to balancing by their names alone, so the names of a growth are what the
two runs share.
-/

namespace DirectiveMarkup.Markup

/-- True of a name that a close of some name does not match. -/
def isOther (name other : String) : Bool :=
  !Text.sameIgnoringCase other name

/-- The steps with all closes written out, inside of open elements of these names, the innermost
first. -/
def balance : (opened : List String) → List BuildStep → List BuildStep
  | opened, [] => opened.map .close
  | opened, .push node :: rest => .push node :: balance opened rest
  | opened, .openElement tag :: rest => .openElement tag :: balance (tag.name :: opened) rest
  | opened, .close name :: rest =>
    match opened.dropWhile (isOther name) with
    | [] => balance opened rest
    | _ :: outer =>
      (opened.takeWhile (isOther name)).map .close ++ .close name :: balance outer rest

/-- Steps in which every opening has its close, with the forest that they stand for. -/
inductive Bracketed : List BuildStep → List Node → Prop
  | nil : Bracketed [] []
  | push {node : Node} {rest : List BuildStep} {forest : List Node} :
      Bracketed rest forest → Bracketed (.push node :: rest) (node :: forest)
  | element {tag : Tag} {name : String} {inside rest : List BuildStep}
      {children forest : List Node} : Text.sameIgnoringCase tag.name name →
      Bracketed inside children → Bracketed rest forest →
      Bracketed (.openElement tag :: (inside ++ .close name :: rest))
        (.element tag children :: forest)

/-- The first match in a list of names, and what stands in front of it. -/
theorem split_of_dropWhile {opened outer : List String} {matched name : String}
    (h : opened.dropWhile (isOther name) = matched :: outer) :
    opened = opened.takeWhile (isOther name) ++ matched :: outer ∧
      (∀ other ∈ opened.takeWhile (isOther name), isOther name other) ∧
      Text.sameIgnoringCase matched name := by
  refine ⟨?_, fun other hother => List.mem_takeWhile_imp hother, ?_⟩
  · rw [← h, List.takeWhile_append_dropWhile]
  · have hhead := List.head?_dropWhile_not (isOther name) opened
    simpa [h, isOther] using hhead

/-! ## Closing step by step -/

namespace Growth

variable (g : Growth)

/-- The names of the open elements, innermost first. -/
def names : List String :=
  g.opened.map (·.tag.name)

/-- A node that is added opens and closes nothing. -/
@[simp] theorem names_push (node : Node) : (g.push node).names = g.names := by
  obtain ⟨opened, roots⟩ := g
  cases opened <;> rfl

/-- Closing the innermost element leaves those around it. -/
@[simp] theorem names_closeInnermost : g.closeInnermost.names = g.names.tail := by
  obtain ⟨opened, roots⟩ := g
  cases opened with
  | nil => rfl
  | cons e outer => exact names_push ⟨outer, roots⟩ e.toNode

/-- Closing many elements is closing the innermost one many times. -/
theorem closeMany_eq_iterate (count : Nat) : closeMany count g = closeInnermost^[count] g := by
  induction count generalizing g with
  | zero => rfl
  | succ count ih => exact ih g.closeInnermost

/-- Closing many elements leaves those around them. -/
@[simp] theorem names_closeMany (count : Nat) : (closeMany count g).names = g.names.drop count := by
  induction count generalizing g with
  | zero => rfl
  | succ count ih => rw [closeMany, ih, names_closeInnermost, List.drop_tail]

/-- A close of some name closes as many elements as it takes to reach the innermost of that name. -/
theorem close_of_names {inner outer : List String} {matched name : String}
    (hnames : g.names = inner ++ matched :: outer)
    (hinner : ∀ other ∈ inner, isOther name other)
    (hmatched : Text.sameIgnoringCase matched name) :
    g.close name = closeMany (inner.length + 1) g := by
  have hpassed : inner.findIdx? (Text.sameIgnoringCase · name) = none :=
    List.findIdx?_eq_none_iff.mpr fun other hother => Bool.not_eq_true' _ |>.mp (hinner other hother)
  have hplace : g.names.findIdx? (Text.sameIgnoringCase · name) = some inner.length := by
    rw [hnames, List.findIdx?_append, hpassed, List.findIdx?_cons, if_pos hmatched]
    simp
  have hfound : g.opened.findIdx? (fun e => Text.sameIgnoringCase e.tag.name name) =
      some inner.length := by
    rwa [names, List.findIdx?_map] at hplace
  rw [close, hfound]

/-- A close that matches no open element does nothing. -/
theorem close_of_dropWhile {name : String}
    (h : g.names.dropWhile (isOther name) = []) : g.close name = g := by
  rw [List.dropWhile_eq_nil_iff] at h
  have hfound : g.opened.findIdx? (fun e => Text.sameIgnoringCase e.tag.name name) = none := by
    refine List.findIdx?_eq_none_iff.mpr fun e he => ?_
    simpa [isOther] using h e.tag.name (List.mem_map_of_mem he)
  rw [close, hfound]

/-- The innermost element is closed by its own name in any ASCII case. -/
theorem close_of_cons {outer : List String} {innermost name : String}
    (hnames : g.names = innermost :: outer) (h : Text.sameIgnoringCase innermost name) :
    g.close name = g.closeInnermost :=
  @close_of_names g [] outer innermost name hnames (List.forall_mem_nil _) h

/-- Closing elements by their own names, innermost first, closes as many. -/
theorem foldl_close (count : Nat) :
    ((g.names.take count).map BuildStep.close).foldl step g = closeMany count g := by
  induction count generalizing g with
  | zero => rfl
  | succ count ih =>
    have hrest := ih g.closeInnermost
    rw [names_closeInnermost] at hrest
    cases hnames : g.names with
    | nil =>
      have hclosed : g.closeInnermost = g := by
        obtain ⟨opened, roots⟩ := g
        obtain rfl : opened = [] := List.map_eq_nil_iff.mp hnames
        rfl
      rw [hnames, hclosed] at hrest
      rw [closeMany, hclosed, ← hrest]
      simp
    | cons name outer =>
      rw [hnames, List.tail_cons] at hrest
      have hinnermost : g.step (.close name) = g.closeInnermost :=
        g.close_of_cons hnames (Text.sameIgnoringCase_self name)
      rw [List.take_succ_cons, List.map_cons, List.foldl_cons, hinnermost, hrest, closeMany]

/-- Closing all that is open by its own names finishes a growth. -/
theorem finish_foldl_close : ((g.names.map BuildStep.close).foldl step g).finish = g.finish := by
  have hall := g.foldl_close g.names.length
  have hlength : g.names.length = g.opened.length := List.length_map ..
  rw [List.take_length, hlength] at hall
  rw [hall, finish, g.opened_closeMany_all, finish]
  rfl

/-! ## Balancing keeps the forest -/

/-- The closes that balancing writes out do what the one close in their place does. -/
theorem foldl_close_of_names {inner outer : List String} {matched name : String}
    (hnames : g.names = inner ++ matched :: outer)
    (hinner : ∀ other ∈ inner, isOther name other)
    (hmatched : Text.sameIgnoringCase matched name) :
    ((inner.map BuildStep.close).foldl step g).close name = g.close name := by
  have hclosed := g.foldl_close inner.length
  rw [hnames, List.take_left] at hclosed
  have hleft : (closeMany inner.length g).names = matched :: outer := by
    rw [names_closeMany, hnames, List.drop_left]
  rw [hclosed, close_of_cons _ hleft hmatched, g.close_of_names hnames hinner hmatched,
    closeMany_eq_iterate, closeMany_eq_iterate, Function.iterate_succ_apply']

/-- Balanced steps lead to the same forest, from any growth on. -/
theorem finish_foldl_balance (steps : List BuildStep) :
    ((balance g.names steps).foldl step g).finish = (steps.foldl step g).finish := by
  induction steps generalizing g with
  | nil => exact g.finish_foldl_close
  | cons first rest ih =>
    cases first with
    | push node =>
      have hrest := ih (g.push node)
      rwa [names_push] at hrest
    | openElement tag => exact ih (g.openElement tag)
    | close name =>
      rw [balance, List.foldl_cons]
      split
      next hnone =>
        have hstep : g.step (.close name) = g := g.close_of_dropWhile hnone
        rw [hstep, ih]
      next matched outer hfound =>
        obtain ⟨hnames, hinner, hmatched⟩ := split_of_dropWhile hfound
        have hstep := g.foldl_close_of_names hnames hinner hmatched
        have houter : (g.close name).names = outer := by
          rw [g.close_of_names hnames hinner hmatched, names_closeMany]
          nth_rewrite 2 [hnames]
          rw [List.drop_length_add_append]
          rfl
        rw [List.foldl_append, List.foldl_cons]
        change ((balance outer rest).foldl step
          ((((g.names.takeWhile (isOther name)).map BuildStep.close).foldl step g).close name)).finish =
            (rest.foldl step (g.close name)).finish
        rw [hstep, ← houter, ih]

end Growth

/-! ## Bracketed steps -/

/-- Bracketed steps add the forest that they stand for. -/
theorem Bracketed.foldl_step {steps : List BuildStep} {forest : List Node}
    (h : Bracketed steps forest) (g : Growth) : steps.foldl Growth.step g = g.pushAll forest := by
  induction h generalizing g with
  | nil => rfl
  | push _ ih => exact ih (g.push _)
  | @element tag name inside rest children forest hname _ _ hinside hrest =>
    have hinnermost : ((g.openElement tag).pushAll children).names = tag.name :: g.names := by
      rw [Growth.openElement, Growth.pushAll_opened]
      rfl
    calc (BuildStep.openElement tag :: (inside ++ .close name :: rest)).foldl Growth.step g =
        rest.foldl Growth.step ((inside.foldl Growth.step (g.openElement tag)).close name) := by
          rw [List.foldl_cons, List.foldl_append, List.foldl_cons]
          rfl
      _ = rest.foldl Growth.step (g.push (.element tag children)) := by
          rw [hinside, Growth.close_of_cons _ hinnermost hname,
            ← Growth.close_of_cons _ hinnermost (Text.sameIgnoringCase_self _),
            Growth.close_pushAll_openElement]
      _ = g.pushAll (.element tag children :: forest) := by
          rw [hrest, Growth.pushAll_cons]

/-- Bracketed steps build the forest that they stand for. -/
theorem Bracketed.build_eq {steps : List BuildStep} {forest : List Node}
    (h : Bracketed steps forest) : build steps = forest := by
  rw [build, h.foldl_step, Growth.finish_pushAll_empty]

/-- Steps that close open elements of these names, the innermost first, and are bracketed
otherwise. -/
inductive Closes : List String → List BuildStep → Prop
  | nil {steps : List BuildStep} {forest : List Node} : Bracketed steps forest → Closes [] steps
  | cons {innermost name : String} {outer : List String} {inside rest : List BuildStep}
      {children : List Node} : Text.sameIgnoringCase innermost name → Bracketed inside children →
      Closes outer rest → Closes (innermost :: outer) (inside ++ .close name :: rest)

namespace Closes

variable {opened : List String} {rest : List BuildStep}

/-- The innermost element may be closed at once. -/
theorem cons_close {innermost name : String} (hname : Text.sameIgnoringCase innermost name)
    (h : Closes opened rest) : Closes (innermost :: opened) (.close name :: rest) :=
  cons hname .nil h

/-- A node may be added in front. -/
theorem push (h : Closes opened rest) (node : Node) : Closes opened (.push node :: rest) := by
  cases h with
  | nil hrest => exact .nil hrest.push
  | cons hname hinside houter => exact .cons hname hinside.push houter

/-- An element may be opened in front that is the innermost to be closed. -/
theorem openElement {tag : Tag} (h : Closes (tag.name :: opened) rest) :
    Closes opened (.openElement tag :: rest) := by
  cases h with
  | cons hname hinside houter =>
    cases houter with
    | nil hrest => exact .nil (.element hname hinside hrest)
    | cons hother hbetween houter =>
      have helement := Bracketed.element hname hinside hbetween
      have hcloses := Closes.cons hother helement houter
      rwa [List.cons_append, List.append_assoc] at hcloses

/-- Elements may be closed in front by their own names. -/
theorem close (h : Closes opened rest) (inner : List String) :
    Closes (inner ++ opened) (inner.map .close ++ rest) := by
  induction inner with
  | nil => exact h
  | cons innermost inner ih =>
    exact .cons_close (Text.sameIgnoringCase_self innermost) ih

end Closes

/-- Balancing closes all that is open, and each element by a close of its own. -/
theorem closes_balance (opened : List String) (steps : List BuildStep) :
    Closes opened (balance opened steps) := by
  induction steps generalizing opened with
  | nil => simpa [balance] using (Closes.nil .nil).close opened
  | cons first rest ih =>
    cases first with
    | push node => exact (ih opened).push node
    | openElement tag => exact (ih (tag.name :: opened)).openElement
    | close name =>
      rw [balance]
      split
      · exact ih opened
      next matched outer hfound =>
        obtain ⟨hopened, -, hmatched⟩ := split_of_dropWhile hfound
        have hcloses := (ih outer).cons_close hmatched
        have hall := hcloses.close (opened.takeWhile (isOther name))
        rwa [← hopened] at hall

/-- Closing is lenient as if all closes were written out: the balanced steps are bracketed and
build the same forest, and bracketed steps build the forest that they stand for. -/
theorem build_balanced (steps : List BuildStep) :
    build (balance [] steps) = build steps ∧ Bracketed (balance [] steps) (build steps) ∧
      ∀ bracketed forest, Bracketed bracketed forest → build bracketed = forest := by
  have hsame : build (balance [] steps) = build steps := Growth.empty.finish_foldl_balance steps
  refine ⟨hsame, ?_, fun bracketed forest h => h.build_eq⟩
  cases closes_balance [] steps with
  | nil h => rwa [← hsame, h.build_eq]

/-- A close without an opening, elements of one name inside each other, a close in another case that
crosses an element, and an element that is left open. -/
def crossing : List BuildStep :=
  [.close "nope", .openElement ⟨"div", []⟩, .openElement ⟨"div", []⟩, .openElement ⟨"b", []⟩,
    .push (.text "x"), .close "DIV", .push (.text "y"), .close "div", .openElement ⟨"p", []⟩]

/-- The crossing steps with all closes written out build a paragraph behind two divisions. -/
theorem build_balanced_crossing :
    let written : List BuildStep :=
      [.openElement ⟨"div", []⟩, .openElement ⟨"div", []⟩, .openElement ⟨"b", []⟩,
        .push (.text "x"), .close "b", .close "DIV", .push (.text "y"), .close "div",
        .openElement ⟨"p", []⟩, .close "p"]
    let forest : List Node :=
      [.element ⟨"div", []⟩ [.element ⟨"div", []⟩ [.element ⟨"b", []⟩ [.text "x"]], .text "y"],
        .element ⟨"p", []⟩ []]
    balance [] crossing = written ∧ Bracketed written forest ∧ build written = forest ∧
      build crossing = forest := by
  intro written forest
  have hwritten : balance [] crossing = written := rfl
  have hinner : Bracketed [.openElement ⟨"b", []⟩, .push (.text "x"), .close "b"]
      [.element ⟨"b", []⟩ [.text "x"]] :=
    @Bracketed.element ⟨"b", []⟩ "b" [.push (.text "x")] [] _ _ rfl (.push .nil) .nil
  have hparagraph : Bracketed [.openElement ⟨"p", []⟩, .close "p"] [.element ⟨"p", []⟩ []] :=
    @Bracketed.element ⟨"p", []⟩ "p" [] [] _ _ rfl .nil .nil
  have hforest : Bracketed written forest :=
    .element rfl (.element (by decide) hinner (.push .nil)) hparagraph
  obtain ⟨hsame, -, hbuilds⟩ := build_balanced crossing
  have hbuild := hbuilds written forest hforest
  rw [hwritten, hbuild] at hsame
  exact ⟨hwritten, hforest, hbuild, hsame.symm⟩

end DirectiveMarkup.Markup
