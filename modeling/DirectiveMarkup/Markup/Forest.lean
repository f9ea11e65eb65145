import DirectiveMarkup.Markup.Lexeme

/-!
# Building a forest

A forest grows by three steps: a finished node is added, an element is opened, an element is
closed. Closing is lenient. It closes the innermost open element of that name in any ASCII
case, and with it every element opened after that one; a closing tag that matches no open
element does nothing. What is still open at the end is closed there.
-/

namespace DirectiveMarkup.Markup

/-- An element whose closing has not been seen, with its children so far, the latest first. -/
structure OpenElement where
  tag : Tag
  children : List Node

/-- The finished element. -/
def OpenElement.toNode (e : OpenElement) : Node :=
  .element e.tag e.children.reverse

/-- The open elements, innermost first, and the finished top-level nodes, the latest first. -/
structure Growth where
  opened : List OpenElement
  roots : List Node

/-- One step in building a forest. -/
inductive BuildStep where
  | push (node : Node)
  | openElement (tag : Tag)
  | close (name : String)

namespace Growth

/-- Nothing is open and nothing is finished. -/
def empty : Growth := ⟨[], []⟩

/-- Add a finished node to the innermost open element, or to the top level. -/
def push (node : Node) : Growth → Growth
  | ⟨[], roots⟩ => ⟨[], node :: roots⟩
  | ⟨e :: outer, roots⟩ => ⟨⟨e.tag, node :: e.children⟩ :: outer, roots⟩

/-- Open an element inside the innermost open one. -/
def openElement (tag : Tag) (g : Growth) : Growth :=
  ⟨⟨tag, []⟩ :: g.opened, g.roots⟩

/-- Close the innermost open element. -/
def closeInnermost : Growth → Growth
  | ⟨[], roots⟩ => ⟨[], roots⟩
  | ⟨e :: outer, roots⟩ => push e.toNode ⟨outer, roots⟩

/-- Close that many elements, innermost first. -/
def closeMany : Nat → Growth → Growth
  | 0, g => g
  | n + 1, g => closeMany n g.closeInnermost

/-- Close the innermost open element of that name and all inside it, if there is one. -/
def close (name : String) (g : Growth) : Growth :=
  match g.opened.findIdx? fun e => Text.sameIgnoringCase e.tag.name name with
  | some depth => closeMany (depth + 1) g
  | none => g

/-- Take one step. -/
def step (g : Growth) : BuildStep → Growth
  | .push node => g.push node
  | .openElement tag => g.openElement tag
  | .close name => g.close name

/-- Close all that is open and give the top-level nodes in order. -/
def finish (g : Growth) : List Node :=
  (closeMany g.opened.length g).roots.reverse

/-- Closing leaves one open element fewer. -/
theorem length_opened_closeInnermost (g : Growth) :
    g.closeInnermost.opened.length = g.opened.length - 1 := by
  obtain ⟨opened, roots⟩ := g
  match opened with
  | [] => rfl
  | [_] => rfl
  | _ :: _ :: _ => rfl

/-- Closing many elements leaves as many fewer. -/
theorem length_opened_closeMany (count : Nat) (g : Growth) :
    (closeMany count g).opened.length = g.opened.length - count := by
  induction count generalizing g with
  | zero => rfl
  | succ count ih => rw [closeMany, ih, length_opened_closeInnermost, Nat.sub_sub, Nat.add_comm]

/-- Closing as many elements as are open leaves none. -/
theorem opened_closeMany_all (g : Growth) : (closeMany g.opened.length g).opened = [] := by
  rw [← List.length_eq_zero_iff, length_opened_closeMany, Nat.sub_self]

end Growth

/-- The forest that a sequence of steps builds. -/
def build (steps : List BuildStep) : List Node :=
  (steps.foldl Growth.step .empty).finish

/-- The step that a lexeme stands for. A declaration leaves nothing behind. -/
def Lexeme.step? : Lexeme → Option BuildStep
  | .text content => some (.push (.text content))
  | .comment body => some (.push (.comment body))
  | .declaration => none
  | .closing name => some (.close name)
  | .opening tag => some (.openElement tag)
  | .leaf tag => some (.push (.element tag []))
  | .raw tag body => some (.push (.element tag (if body.isEmpty then [] else [.text body])))

/-- Read markup. Every text is markup. -/
def parse (markup : String) : List Node :=
  build ((lexemes markup.toList).filterMap Lexeme.step?)

end DirectiveMarkup.Markup
