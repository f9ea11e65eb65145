import DirectiveMarkup.Markup.Forest

/-!
# The walk of a forest

The nodes of a forest in the order in which they start: an element, then all that stands inside of
it, then what stands behind it. A growing forest has a walk as well, in which the open elements come
behind all that is finished, the outermost first. Adding a node and opening an element go on with
that walk, and closing leaves it as it is, however many elements it closes at once. So the walk of a
forest that is built lists what was added and opened, in that order.
-/

namespace DirectiveMarkup.Markup

/-- What a node is, without its children. -/
inductive Entry where
  | text (content : String)
  | comment (body : String)
  | element (tag : Tag)
  deriving DecidableEq, Repr

mutual

/-- A node and all that stands inside of it, in the order in which they start. -/
def Node.walk : Node → List Entry
  | .text content => [.text content]
  | .comment body => [.comment body]
  | .element tag children => .element tag :: walk children

/-- The nodes of a forest, at any depth, in the order in which they start. -/
def walk : List Node → List Entry
  | [] => []
  | node :: rest => node.walk ++ walk rest

end

/-- Two forests in a row are walked one after the other. -/
@[simp] theorem walk_append (first second : List Node) :
    walk (first ++ second) = walk first ++ walk second := by
  induction first with
  | nil => rfl
  | cons node rest ih => rw [List.cons_append, walk, walk, ih, List.append_assoc]

/-- A single node is walked by itself. -/
@[simp] theorem walk_singleton (node : Node) : walk [node] = node.walk := by
  rw [walk, walk, List.append_nil]

/-- What a step adds to the walk. -/
def BuildStep.entries : BuildStep → List Entry
  | .push node => node.walk
  | .openElement tag => [.element tag]
  | .close _ => []

/-- An open element, then its children so far. -/
def OpenElement.walk (e : OpenElement) : List Entry :=
  .element e.tag :: Markup.walk e.children.reverse

namespace Growth

variable (g : Growth)

/-- The finished nodes, then the open elements with their children so far, outermost first. -/
def walk : List Entry :=
  Markup.walk g.roots.reverse ++ g.opened.reverse.flatMap OpenElement.walk

/-- A node that is added goes on with the walk. -/
theorem walk_push (node : Node) : (g.push node).walk = g.walk ++ node.walk := by
  obtain ⟨opened, roots⟩ := g
  cases opened with
  | nil => simp [push, walk]
  | cons e outer => simp [push, walk, OpenElement.walk]

/-- An element that is opened goes on with the walk. -/
theorem walk_openElement (tag : Tag) : (g.openElement tag).walk = g.walk ++ [.element tag] := by
  simp [openElement, walk, OpenElement.walk, Markup.walk]

/-- Closing the innermost element leaves the walk as it is. -/
theorem walk_closeInnermost : g.closeInnermost.walk = g.walk := by
  obtain ⟨opened, roots⟩ := g
  cases opened with
  | nil => rfl
  | cons e outer =>
    rw [closeInnermost, walk_push]
    simp [walk, OpenElement.walk, OpenElement.toNode, Node.walk]

/-- Closing elements leaves the walk as it is. -/
theorem walk_closeMany (count : Nat) : (closeMany count g).walk = g.walk := by
  induction count generalizing g with
  | zero => rfl
  | succ count ih => rw [closeMany, ih, walk_closeInnermost]

/-- Closing by name leaves the walk as it is. -/
theorem walk_close (name : String) : (g.close name).walk = g.walk := by
  unfold close
  split
  · exact g.walk_closeMany _
  · rfl

/-- A step goes on with the walk by what it adds. -/
theorem walk_step (step : BuildStep) : (g.step step).walk = g.walk ++ step.entries := by
  cases step with
  | push node => exact g.walk_push node
  | openElement tag => exact g.walk_openElement tag
  | close name => rw [BuildStep.entries, List.append_nil]; exact g.walk_close name

/-- Steps go on with the walk in their order. -/
theorem walk_foldl_step (steps : List BuildStep) :
    (steps.foldl step g).walk = g.walk ++ steps.flatMap BuildStep.entries := by
  induction steps generalizing g with
  | nil => simp
  | cons first rest ih => rw [List.foldl_cons, ih, walk_step, List.flatMap_cons, List.append_assoc]

/-- Finishing leaves the walk as it is. -/
theorem walk_finish : Markup.walk g.finish = g.walk := by
  rw [← g.walk_closeMany g.opened.length, finish, walk, g.opened_closeMany_all]
  simp

end Growth

/-- A forest that is built is walked in the order in which it was built. -/
theorem walk_build (steps : List BuildStep) : walk (build steps) = steps.flatMap BuildStep.entries := by
  rw [build, Growth.walk_finish, Growth.walk_foldl_step]
  rfl

end DirectiveMarkup.Markup
