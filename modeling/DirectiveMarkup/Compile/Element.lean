import DirectiveMarkup.Compile.Notice
import DirectiveMarkup.Expression.Evaluate
import DirectiveMarkup.Interpolation
import DirectiveMarkup.Markup.Forest
import DirectiveMarkup.Stylesheet
import DirectiveMarkup.Text.Case

/-!
# Compiling a node

A node compiles to markup, or to a halt, which ends the collection of its siblings and goes no
further. Every directive sees the ambient scope; the bindings of `inter` and `each` are applied
to text, which is then read as markup again and compiled.

The element that stands in for a directive sits at the directive's own depth, and children one
level deeper. Compilation is by recursion on the levels that are left, so it ends whatever the
parser and the evaluator answer.
-/

namespace DirectiveMarkup

open Expression (EvalError Kind Scope Value)
open Markup (Attribute Node Tag)

/-- How markup is read and expressions are evaluated, and how deep nodes may be nested. -/
structure Compiler where
  parse : String → Except CompileError (List Node)
  evaluate : String → Scope → Except EvalError Value
  maxDepth : Nat

/-- The depth that is allowed unless another is asked for. -/
def defaultMaxDepth : Nat := 128

/-- The compiler with this library's own reader and evaluator. -/
def Compiler.standard (maxDepth : Nat) : Compiler where
  parse markup := .ok (Markup.parse markup)
  evaluate := Expression.evaluateSource
  maxDepth := maxDepth

/-- What one node compiles to. -/
inductive Fragment where
  | markup (text : String)
  | halt
  deriving DecidableEq, Repr

/-- Compile siblings in order, up to a halt. -/
def collect (compile : Node → Reported Fragment) : List Node → Reported (List String)
  | [] => pure []
  | node :: rest => do
    match ← compile node with
    | .halt => return []
    | .markup text => return text :: (← collect compile rest)

/-- A `div` with a class around markup that is taken as it is. -/
def wrap (token inner : String) : String :=
  (Tag.withClass "div" token).opening ++ inner ++ "</div>"

namespace Compiler

variable (compiler : Compiler) (scope : Scope)

/-- Evaluate the source that an attribute of a directive holds. -/
def evaluateAttribute (directive : Directive) (attr source : String) : Reported Value :=
  .ofExcept <| (compiler.evaluate source scope).mapError (.expression directive attr)

/-- Interpolate a text of a directive. -/
def interpolateFor (directive : Directive) (scope : Scope) (markup : String) : Reported String :=
  .ofExcept <| (Interpolation.interpolate (compiler.evaluate · scope) markup).mapError
    (.interpolation directive)

section Rules

variable (inner : List Node → Reported String)

/-- An element without a rule of its own: its tag may be renamed, its attributes stay, its
children are compiled. -/
def plainElement (tag : Tag) (children : List Node) : Reported Fragment := do
  let output : Tag := ⟨(outputTag? (Text.toLower tag.name)).getD tag.name, tag.attributes⟩
  if Markup.isVoid output.name then return .markup output.opening
  return .markup (output.opening ++ (← inner children) ++ output.closing)

/-- The attribute that a directive may leave out or leave blank, trimmed. -/
def sourceOf? (tag : Tag) (attr : String) : Option String :=
  ((tag.attribute? attr).map Text.trim).filter (!·.isEmpty)

/-- An attribute that is left out holds no source. -/
theorem sourceOf?_of_missing {tag : Tag} {attr : String} (h : tag.attribute? attr = none) :
    sourceOf? tag attr = none := by
  rw [sourceOf?, h]
  rfl

/-- An attribute holds its text, trimmed, as a source, unless that is blank. -/
theorem sourceOf?_of_attribute {tag : Tag} {attr text : String}
    (h : tag.attribute? attr = some text) :
    sourceOf? tag attr = if (Text.trim text).isEmpty then none else some (Text.trim text) := by
  rw [sourceOf?, h, Option.map_some, Option.filter_some]
  cases (Text.trim text).isEmpty <;> rfl

/-- The children of the first `else` that stands directly in a forest. -/
def alternativeOf (children : List Node) : List Node :=
  ((Markup.elements children).find? fun (tag, _) => Text.sameIgnoringCase tag.name "else").elim []
    Prod.snd

/-- The rule of `if`. Its own children are compiled whether or not the condition holds. -/
def conditionalElement (tag : Tag) (children : List Node) : Reported Fragment := do
  let condition ← match sourceOf? tag "c" with
    | some source => Value.truthy <$> compiler.evaluateAttribute scope .conditional "c" source
    | none => pure false
  let consequent ← inner children
  if condition then return .markup (wrap "fy-if" consequent)
  plainElement inner (.withClass "div" "fy-else") (alternativeOf children)

/-- The bindings that `inter` adds to the scope. -/
def interpolationBindings (tag : Tag) : Reported Scope := do
  match sourceOf? tag "vars" with
  | none => return .empty
  | some source =>
    let value ← compiler.evaluateAttribute scope .interpolation "vars" source
    match Scope.ofValue? value with
    | some bindings => return bindings
    | none => .fail (.wrongKind .interpolation "vars" .object value.kind)

/-- The rule of `inter`. -/
def interpolationElement (tag : Tag) (children : List Node) : Reported Fragment := do
  let bindings ← compiler.interpolationBindings scope tag
  let text ← compiler.interpolateFor .interpolation (scope.bindAll bindings.fields)
    (Markup.outerMarkup children)
  let forest ← .ofExcept (compiler.parse text)
  plainElement inner (.withClass "div" "fy-inter") forest

/-- The items that `each` goes through. -/
def eachItems (tag : Tag) : Reported (List Value) := do
  match ← compiler.evaluateAttribute scope .each "of" (tag.attributeOrEmpty "of") with
  | .array items => return items
  | .null => return []
  | other => .fail (.wrongKind .each "of" .array other.kind)

/-- The bindings of one iteration; names that are empty are not bound. -/
def iterationBindings (tag : Tag) (index : Nat) (item : Value) : List (String × Value) :=
  [(tag.attributeOrEmpty "as", item), (tag.attributeOrEmpty "index", .ofNat index)].filter
    (!·.1.isEmpty)

/-- The text of every iteration of `each`, from the number `index` on. -/
def iterations (tag : Tag) (body : String) : (index : Nat) → List Value → Reported (List String)
  | _, [] => pure []
  | index, item :: rest => do
    let bindings := iterationBindings tag index item
    let text ← compiler.interpolateFor .each (scope.bindAll bindings) body
    return text :: (← iterations tag body (index + 1) rest)

/-- The rule of `each`. Its children are compiled once, in the ambient scope. -/
def eachElement (tag : Tag) (children : List Node) : Reported Fragment := do
  let items ← compiler.eachItems scope tag
  let body ← inner children
  let texts ← compiler.iterations scope tag body 0 items
  let forest ← .ofExcept (compiler.parse (String.join texts))
  let attributes : List Attribute := [⟨"class", "fy-each"⟩, ⟨"data-items", toString items.length⟩]
  plainElement inner ⟨"div", attributes⟩ forest

/-- The label of a tooltip. -/
def tooltipLabel (tag : Tag) : Node :=
  let position := ((tag.attribute? "ps").filter (!·.isEmpty)).getD "top"
  .element (.withClass "span" ("fy-tooltip-text fy-pos-" ++ position))
    [.text (tag.attributeOrEmpty "text")]

/-- An element, by the rule of its directive if it has one. -/
def compileElement (tag : Tag) (children : List Node) : Reported Fragment :=
  match Directive.ofTag? (Text.toLower tag.name) with
  | none => plainElement inner tag children
  | some .halt => pure .halt
  | some .escape => pure (.markup (wrap "fy-escape" (Markup.outerMarkup children)))
  | some .style =>
    let css := Text.trim (Stylesheet.resolveSelectors (Markup.textContent children))
    pure (.markup ("<style>" ++ Stylesheet.banner ++ " " ++ css ++ "</style>"))
  | some .first => plainElement inner (.withClass "div" "fy-first") children
  | some .last => do
    Reported.notify (.unsupported .last)
    return .markup (wrap "fy-last" "")
  | some .await => do
    Reported.notify (.unsupported .await)
    return .markup (wrap "fy-await" "")
  | some .group =>
    if tag.hasClass "group" then pure (.markup (wrap "fy-group" (Markup.outerMarkup children)))
    else plainElement inner tag children
  | some .conditional => compiler.conditionalElement scope inner tag children
  | some .alternative => pure (.markup "")
  | some .interpolation => compiler.interpolationElement scope inner tag children
  | some .each =>
    if tag.hasAttribute "of" then compiler.eachElement scope inner tag children
    else plainElement inner tag children
  | some .tooltip =>
    plainElement inner (.withClass "span" "fy-tooltip") (tooltipLabel tag :: children)

end Rules

/-- Compile a node that may be nested in itself on that many levels, its own included. -/
def compileWithin : (levels : Nat) → Node → Reported Fragment
  | 0, _ => .fail (.nestingTooDeep compiler.maxDepth)
  | _ + 1, .text content => pure (.markup content)
  | _ + 1, .comment _ => pure (.markup "")
  | levels + 1, .element tag children =>
    compiler.compileElement scope
      (fun nodes => return String.join (← collect (compileWithin levels) nodes)) tag children

/-- Compile a node and all inside it. -/
def compileNode (node : Node) : Reported Fragment :=
  compiler.compileWithin scope (compiler.maxDepth + 1) node

end Compiler

end DirectiveMarkup
