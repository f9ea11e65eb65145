import DirectiveMarkup.Compile.Report
import DirectiveMarkup.Proofs.Each

/-!
# Escaped content in its contexts

The children of `escape` are written without being compiled. What is written stays in the
output of every element around it that compiles its children once: of elements that only wrap
them, and of an `if` whose condition holds. An `each` reads the text of its children again and
compiles what it reads, so there the block stays only if compiling leaves that text as it is,
which is so for plain markup. No span of it runs over the opening tag of the block, because that
tag has both an angle bracket and a double quote; so every iteration has a copy of the block.
-/

namespace DirectiveMarkup

open Expression (Scope Value evaluateSource)
open Interpolation (Confined Closed fill isInert sources)
open Markup (Node Tag isVoid outerMarkup legibleForest closedForest plainForest height sourcesOf)

/-! ## Occurrences of a block -/

/-- The text has that many places, or more, at which the block stands, one after the other. -/
inductive Occurs (block : List Char) : (count : Nat) → (text : List Char) → Prop where
  | zero (text : List Char) : Occurs block 0 text
  | succ {count : Nat} (before : List Char) {rest : List Char} :
      Occurs block count rest → Occurs block (count + 1) (before ++ (block ++ rest))

namespace Occurs

variable {block : List Char} {count : Nat}

/-- What occurs in a text occurs in it with another text in front. -/
theorem after {text : List Char} (h : Occurs block count text) (front : List Char) :
    Occurs block count (front ++ text) := by
  cases h with
  | zero => exact .zero _
  | succ before hrest =>
    rw [← List.append_assoc]
    exact .succ (front ++ before) hrest

/-- A block that occurs is a part of the text. -/
theorem isInfix {text : List Char} (h : Occurs block (count + 1) text) : block <:+: text := by
  cases h with
  | succ before _ => exact ⟨before, _, List.append_assoc before block _⟩

/-- Occurrences in two texts in a row add up. -/
theorem append {first second : List Char} {count' : Nat} (hfirst : Occurs block count first)
    (hsecond : Occurs block count' second) : Occurs block (count + count') (first ++ second) := by
  induction hfirst with
  | zero text => simpa using hsecond.after text
  | succ before _ ih =>
    rw [List.append_assoc, List.append_assoc, Nat.add_right_comm]
    exact .succ before ih

/-- What occurs in a text occurs in it with another text behind. -/
theorem before {text : List Char} (h : Occurs block count text) (rest : List Char) :
    Occurs block count (text ++ rest) := by
  simpa using h.append (.zero rest)

/-- What occurs in a text occurs in it with other texts on both sides. -/
theorem within {text : String} (h : Occurs block count text.toList) (front back : String) :
    Occurs block count (front ++ text ++ back).toList := by
  rw [String.toList_append, String.toList_append]
  exact (h.after _).before _

/-- What occurs in each of several texts occurs that often in all of them in a row. -/
theorem join {texts : List String} (h : ∀ text ∈ texts, Occurs block count text.toList) :
    Occurs block (texts.length * count) (String.join texts).toList := by
  induction texts with
  | nil => simpa using Occurs.zero []
  | cons text texts ih =>
    have hrest := ih fun other hm => h other (List.mem_cons_of_mem _ hm)
    rw [String.join_cons, String.toList_append, List.length_cons, Nat.succ_mul, Nat.add_comm]
    exact (h text List.mem_cons_self).append hrest

/-- What occurs in a text occurs backwards in the text backwards. -/
theorem reverse {text : List Char} (h : Occurs block count text) :
    Occurs block.reverse count text.reverse := by
  induction h with
  | zero => exact .zero _
  | succ before _ ih =>
    have hone : Occurs block.reverse 1 (block.reverse ++ before.reverse) := .succ [] (.zero _)
    simpa using ih.append hone

/-- Blanks in front are no part of a block that starts with something else. -/
theorem dropWhile {p : Char → Bool} {c : Char} {inside text : List Char} (hc : p c = false)
    (h : Occurs (c :: inside) count text) : Occurs (c :: inside) count (text.dropWhile p) := by
  cases h with
  | zero => exact .zero _
  | succ before hrest =>
    rw [List.dropWhile_append]
    split_ifs
    · rw [List.cons_append, List.dropWhile_cons_of_neg (by simp [hc])]
      exact .succ [] hrest
    · exact .succ _ hrest

/-- Trimming keeps a block that starts and ends with characters that are not blank. -/
theorem trim {c d : Char} {inside text : List Char} (hc : Text.isBlank c = false)
    (hd : Text.isBlank d = false) (h : Occurs (c :: (inside ++ [d])) count text) :
    Occurs (c :: (inside ++ [d])) count (Text.trimChars text) := by
  have hfront := (h.dropWhile hc).reverse
  rw [List.reverse_cons, List.reverse_append, List.reverse_singleton, List.singleton_append,
    List.cons_append] at hfront
  have hback := (hfront.dropWhile hd).reverse
  simpa [Text.trimChars] using hback

end Occurs

/-! ## Blocks of escaped markup -/

/-- The opening tag of a block of escaped markup. -/
def blockOpening : String := "<div class=\"fy-escape\">"

/-- What is written for an `escape` with this content. -/
def escapedBlock (content : List Node) : List Char :=
  blockOpening.toList ++ ((outerMarkup content).toList ++ "</div>".toList)

/-- A block is what the element in the place of an `escape` is written as. -/
theorem toList_outerMarkup_escaped (content : List Node) :
    (outerMarkup [.element (.withClass "div" "fy-escape") content]).toList =
      escapedBlock content := by
  have hopening : (Tag.withClass "div" "fy-escape").opening = blockOpening := by decide
  rw [← wrap_outerMarkup, wrap, hopening, String.toList_append, String.toList_append,
    List.append_assoc, escapedBlock]

/-- A text in front of a closing brace and a text without one overlap only before that brace. -/
theorem exists_append_of_notMem {first source rest after : List Char} (h : '}' ∉ first)
    (heq : first ++ rest = source ++ '}' :: after) :
    ∃ middle, source = first ++ middle ∧ rest = middle ++ '}' :: after := by
  rcases List.append_eq_append_iff.mp heq with ⟨middle, hsource, hrest⟩ | ⟨middle, hfirst, hafter⟩
  · exact ⟨middle, hsource, hrest⟩
  · cases middle with
    | nil => exact ⟨[], by simpa using hfirst.symm, by simpa using hafter.symm⟩
    | cons c middle =>
      obtain ⟨rfl, -⟩ := List.cons.inj hafter
      exact absurd (hfirst ▸ by simp) h

/-- No span of a text that confines its spans reaches into a block. -/
theorem closed_before_block {content : List Node} {before rest : List Char}
    (h : Confined (before ++ (escapedBlock content ++ rest))) : Closed before := by
  have hopening :
      '}' ∉ blockOpening.toList ∧ '<' ∈ blockOpening.toList ∧ '"' ∈ blockOpening.toList := by decide
  rintro front back rfl
  by_contra hback
  rw [List.append_assoc, List.cons_append] at h
  obtain ⟨source, after, hsource, hinside⟩ := h front _ rfl
  obtain ⟨middle, rfl, hmiddle⟩ := exists_append_of_notMem hback hsource
  rw [escapedBlock, List.append_assoc] at hmiddle
  obtain ⟨inside, rfl, -⟩ := exists_append_of_notMem hopening.1 hmiddle
  simp only [List.mem_append, not_or] at hinside
  rcases hinside with hangle | hquote
  · exact hangle.2.1 hopening.2.1
  · exact hquote.2.1 hopening.2.2

/-- Filling a text that confines its spans keeps the blocks in it. -/
theorem Occurs.fill {content : List Node} (hbrace : '{' ∉ (outerMarkup content).toList)
    {count : Nat} {text : List Char} (h : Occurs (escapedBlock content) count text)
    (hconfined : Confined text) (value : List Char → List Char) :
    Occurs (escapedBlock content) count (Interpolation.fill value text) := by
  have hblock : '{' ∉ escapedBlock content := by
    have htags : '{' ∉ blockOpening.toList ∧ '{' ∉ "</div>".toList := by decide
    simp only [escapedBlock, List.mem_append, not_or]
    exact ⟨htags.1, hbrace, htags.2⟩
  induction h with
  | zero => exact .zero _
  | succ before _ ih =>
    have hbefore := closed_before_block hconfined
    rw [Interpolation.fill_append value hbefore,
      Interpolation.fill_append value (Interpolation.closed_of_notMem hblock),
      Interpolation.fill_of_notMem value hblock]
    exact .succ _ (ih hconfined.of_append.of_append)

/-- Every iteration of a body has its own copies of the blocks in it. -/
theorem Occurs.iterations {content body : List Node} (hbrace : '{' ∉ (outerMarkup content).toList)
    (hlegible : legibleForest body) (hclosed : closedForest body) {count : Nat}
    (h : Occurs (escapedBlock content) count (outerMarkup body).toList)
    (value : Nat → List Char → Value) (items : Nat) :
    Occurs (escapedBlock content) (items * count) (String.join ((List.range items).map fun i =>
      outerMarkup (iterationForest body value i))).toList := by
  have hcopies : ∀ copy ∈ (List.range items).map fun i =>
      outerMarkup (iterationForest body value i),
        Occurs (escapedBlock content) count copy.toList := by
    intro copy hcopy
    obtain ⟨i, -, rfl⟩ := List.mem_map.mp hcopy
    obtain ⟨hconfined, -, hfill⟩ := Markup.fills_outerMarkup
      (fun source => (value i source).display.toList) body hlegible hclosed
    rw [iterationForest, ← hfill]
    exact h.fill hbrace hconfined _
  have hjoin := Occurs.join hcopies
  rwa [List.length_map, List.length_range] at hjoin

/-! ## Contexts -/

/-- A node is collected among its siblings: those before it compile to markup, so that none of
them fails or halts, and those after it compile. -/
def Compiler.Collects (compiler : Compiler) (scope : Scope) (levels : Nat) (nodes : List Node)
    (node : Node) : Prop :=
  ∃ before after text, nodes = before ++ node :: after ∧
    (∀ other ∈ before, ∃ text,
      (compiler.compileWithin scope levels other).outcome = .ok (.markup text)) ∧
    compiler.siblings scope levels after = .ok text

/-- A node with an `escape` of this content inside, in a collected position, and how often the
block is in the output: once for the `escape` itself; as often as in a child for an element that
is put around its compiled children (`first`, `tooltip` and all without a rule of their own) and
for an `if` that holds; and once more for every item of an array that an `each` goes through,
when its children compile to plain markup that closes its spans. -/
inductive Encloses (maxDepth : Nat) (scope : Scope) (content : List Node) :
    (levels : Nat) → Node → (count : Nat) → Prop where
  | escape {levels : Nat} {tag : Tag} :
      Directive.ofTag? (Text.toLower tag.name) = some .escape →
      Encloses maxDepth scope content (levels + 1) (.element tag content) 1
  | wrapped {levels count : Nat} {tag output : Tag} {children leading : List Node} {child : Node} :
      treatment tag children = .wrapped output leading → isVoid output.name = false →
      (Compiler.standard maxDepth).Collects scope levels (leading ++ children) child →
      Encloses maxDepth scope content levels child count →
      Encloses maxDepth scope content (levels + 1) (.element tag children) count
  | conditional {levels count : Nat} {tag : Tag} {children : List Node} {child : Node} :
      Directive.ofTag? (Text.toLower tag.name) = some .conditional →
      (Compiler.standard maxDepth).condition scope tag = .ok true →
      (Compiler.standard maxDepth).Collects scope levels children child →
      Encloses maxDepth scope content levels child count →
      Encloses maxDepth scope content (levels + 1) (.element tag children) count
  | each {levels count : Nat} {tag : Tag} {children body : List Node} {child : Node}
      {items : List Value} {value : Nat → List Char → Value} :
      Directive.ofTag? (Text.toLower tag.name) = some .each → tag.hasAttribute "of" →
      evaluateSource (tag.attributeOrEmpty "of") scope = .ok (.array items) →
      (Compiler.standard maxDepth).Collects scope levels children child →
      Encloses maxDepth scope content levels child count →
      (Compiler.standard maxDepth).siblings scope levels children = .ok (outerMarkup body) →
      plainForest body → height body ≤ levels → legibleForest body → closedForest body →
      (∀ i item, items[i]? = some item → ∀ source ∈ sourcesOf body,
        evaluateSource (.ofList source) (iterationScope scope tag i item) = .ok (value i source)) →
      (∀ i < items.length, ∀ source ∈ sourcesOf body, isInert (value i source)) →
      Encloses maxDepth scope content (levels + 1) (.element tag children) (items.length * count)

namespace Compiler

/-- What a collected node compiles to is in what its siblings compile to. -/
theorem Collects.siblings {compiler : Compiler} {scope : Scope} {levels : Nat} {nodes : List Node}
    {node : Node} {text : String} (h : compiler.Collects scope levels nodes node)
    (hnode : (compiler.compileWithin scope levels node).outcome = .ok (.markup text)) :
    ∃ front back, compiler.siblings scope levels nodes = .ok (front ++ text ++ back) := by
  obtain ⟨before, after, back, rfl, hbefore, hafter⟩ := h
  induction before with
  | nil =>
    refine ⟨"", back, ?_⟩
    rw [List.nil_append, siblings_cons, hnode]
    change (text ++ ·) <$> compiler.siblings scope levels after = _
    rw [hafter]
    rfl
  | cons other before ih =>
    obtain ⟨first, hfirst⟩ := hbefore other List.mem_cons_self
    obtain ⟨front, back, hrest⟩ := ih fun node hm => hbefore node (List.mem_cons_of_mem _ hm)
    refine ⟨first ++ front, back, ?_⟩
    rw [List.cons_append, siblings_cons, hfirst]
    change (first ++ ·) <$> compiler.siblings scope levels (before ++ node :: after) = _
    rw [hrest, String.append_assoc, String.append_assoc, String.append_assoc]
    rfl

end Compiler

namespace Encloses

variable {maxDepth : Nat} {scope : Scope} {content : List Node}

/-- A block in what a collected child compiles to is in what all the children compile to. -/
theorem occurs_of_collects {levels count : Nat} {nodes : List Node} {child : Node}
    (hcollects : (Compiler.standard maxDepth).Collects scope levels nodes child)
    (hchild : ∃ text, ((Compiler.standard maxDepth).compileWithin scope levels child).outcome =
      .ok (.markup text) ∧ Occurs (escapedBlock content) count text.toList) :
    ∃ text, (Compiler.standard maxDepth).siblings scope levels nodes = .ok text ∧
      Occurs (escapedBlock content) count text.toList := by
  obtain ⟨text, htext, hoccurs⟩ := hchild
  obtain ⟨front, back, hall⟩ := hcollects.siblings htext
  exact ⟨_, hall, hoccurs.within front back⟩

/-- What encloses an `escape` compiles to markup, and the block is in it. -/
theorem outcome_compileWithin (hbrace : '{' ∉ (outerMarkup content).toList) {levels count : Nat}
    {node : Node} (h : Encloses maxDepth scope content levels node count) :
    ∃ text, ((Compiler.standard maxDepth).compileWithin scope levels node).outcome =
      .ok (.markup text) ∧ Occurs (escapedBlock content) count text.toList := by
  induction h with
  | @escape levels tag htag =>
    have htreatment : treatment tag content =
        .replaced [.element (.withClass "div" "fy-escape") content] := by
      rw [treatment, htag]
    refine ⟨outerMarkup [.element (.withClass "div" "fy-escape") content], ?_, ?_⟩
    · rw [Compiler.outcome_compileWithin_element, htreatment]
      rfl
    · rw [toList_outerMarkup_escaped]
      have hone : Occurs (escapedBlock content) 1 (escapedBlock content ++ []) := .succ [] (.zero [])
      simpa using hone
  | @wrapped levels count tag output children leading child htreatment hvoid hcollects _ ih =>
    obtain ⟨text, htext, hoccurs⟩ := occurs_of_collects hcollects ih
    refine ⟨output.opening ++ text ++ output.closing, ?_, ?_⟩
    · rw [Compiler.outcome_compileWithin_element, htreatment, Compiler.carryOut, wrapElement, htext,
        if_neg (by simp [hvoid])]
      rfl
    · exact hoccurs.within _ _
  | @conditional levels count tag children child htag hcondition hcollects _ ih =>
    obtain ⟨text, htext, hoccurs⟩ := occurs_of_collects hcollects ih
    refine ⟨wrap "fy-if" text, ?_, ?_⟩
    · rw [Compiler.outcome_compileWithin_element, treatment_of_conditional htag, Compiler.carryOut,
        hcondition, htext]
      rfl
    · exact hoccurs.within _ _
  | @each levels count tag children body child items value htag hhas hof hcollects _ hbody hplain
      hheight hlegible hclosed heval hinert ih =>
    obtain ⟨text, htext, hoccurs⟩ := occurs_of_collects hcollects ih
    obtain rfl : text = outerMarkup body := Except.ok.inj (htext.symm.trans hbody)
    have hcopies := hoccurs.iterations hbrace hlegible hclosed value items.length
    exact ⟨_, Compiler.outcome_compileWithin_each htag hhas (.inl hof) hbody hplain hheight
      hlegible hclosed heval hinert, hcopies.within _ _⟩

end Encloses

/-! ## Documents -/

/-- A block is not cut when markup is trimmed. -/
theorem Occurs.trim_block {content : List Node} {count : Nat} {text : List Char}
    (h : Occurs (escapedBlock content) count text) :
    Occurs (escapedBlock content) count (Text.trimChars text) := by
  have hends : ∃ inside, escapedBlock content = '<' :: (inside ++ ['>']) :=
    ⟨blockOpening.toList.tail ++ ((outerMarkup content).toList ++ "</div>".toList.dropLast), by
      have hopening : blockOpening.toList = '<' :: blockOpening.toList.tail := by decide
      have hclosing : "</div>".toList = "</div>".toList.dropLast ++ ['>'] := by decide
      rw [escapedBlock, hopening, hclosing]
      simp⟩
  obtain ⟨inside, hblock⟩ := hends
  rw [hblock] at h ⊢
  exact h.trim (by decide) (by decide)

/-- A top-level node that is reached gives a piece of the output. -/
theorem mem_pieces_compileTop {compile : Node → Reported Fragment} {before after : List Node}
    {node : Node} {text : String} (hbefore : ∀ other ∈ before, (compile other).outcome ≠ .ok .halt)
    (hnode : (compile node).outcome = .ok (.markup text)) (index : Nat) :
    text ∈ (compileTop compile index (before ++ node :: after)).pieces := by
  induction before generalizing index with
  | nil =>
    rw [List.nil_append, compileTop]
    simp only [hnode]
    exact List.mem_cons_self
  | cons other before ih =>
    have hrest := ih (fun node hm => hbefore node (List.mem_cons_of_mem _ hm)) (index + 1)
    rw [List.cons_append, compileTop]
    cases hother : (compile other).outcome with
    | error error => exact hrest
    | ok fragment =>
      cases fragment with
      | halt => exact absurd hother (hbefore other List.mem_cons_self)
      | markup first => exact List.mem_cons_of_mem _ hrest

/-- What occurs in one of several texts occurs in all of them in a row. -/
theorem Occurs.join_of_mem {block : List Char} {count : Nat} {text : String} {texts : List String}
    (h : Occurs block count text.toList) (hmem : text ∈ texts) :
    Occurs block count (String.join texts).toList := by
  induction texts with
  | nil => simp at hmem
  | cons first texts ih =>
    rw [String.join_cons, String.toList_append]
    rcases List.mem_cons.mp hmem with rfl | hmem
    · exact h.before _
    · exact (ih hmem).after _

/-- Escaped markup without an opening brace stays as it is in all that encloses it, and in every
document that such a node is at the top of: its block is in the output, once for every way
through the items of the loops around it. -/
theorem Compiler.compile_escaped {maxDepth : Nat} {scope : Scope} {content : List Node}
    (hbrace : '{' ∉ (outerMarkup content).toList) {node : Node} {count : Nat}
    (h : Encloses maxDepth scope content (maxDepth + 1) node count) :
    (∃ text, ((standard maxDepth).compileNode scope node).outcome = .ok (.markup text) ∧
      Occurs (escapedBlock content) count text.toList) ∧
    ∀ branding markup before after, Markup.parse (Text.trim markup) = before ++ node :: after →
      (∀ other ∈ before, ((standard maxDepth).compileNode scope other).outcome ≠ .ok .halt) →
      Occurs (escapedBlock content) count
        ((standard maxDepth).compile scope branding markup).html.toList := by
  obtain ⟨text, htext, hoccurs⟩ := h.outcome_compileWithin hbrace
  refine ⟨⟨text, htext, hoccurs⟩, fun branding markup before after hparse hbefore => ?_⟩
  have hpiece := @mem_pieces_compileTop ((standard maxDepth).compileNode scope) before after node
    text hbefore htext 0
  have hhtml : ((standard maxDepth).compile scope branding markup).html =
      brand branding (Text.trim (String.join
        (compileTop ((standard maxDepth).compileNode scope) 0 (before ++ node :: after)).pieces)) := by
    rw [← hparse]
    rfl
  have htrimmed := (hoccurs.join_of_mem hpiece).trim_block
  rw [← Text.toList_trim] at htrimmed
  rw [hhtml, brand]
  cases branding with
  | false => exact htrimmed
  | true =>
    simp only [↓reduceIte, String.toList_append]
    exact htrimmed.after _

/-- A loop over two names with an escaped element in its body. -/
def escapedInLoop : Node :=
  .element ⟨"first", []⟩ [.element ⟨"each", [⟨"of", "names"⟩, ⟨"as", "name"⟩]⟩
    [.text "\x7bname\x7d", .element ⟨"escape", []⟩ [.element ⟨"b", []⟩ [.text "x"]]]]

/-- Two items make two copies of an escaped block. -/
theorem Compiler.compile_escapedInLoop :
    Occurs (escapedBlock [.element ⟨"b", []⟩ [.text "x"]]) 2
      ((standard 8).compile (.ofBindings [("names", .array [.string "Ada", .string "Eve"])]) false
        (outerMarkup [escapedInLoop])).html.toList := by
  let names : List Value := [.string "Ada", .string "Eve"]
  let scope : Scope := .ofBindings [("names", .array names)]
  let content : List Node := [.element ⟨"b", []⟩ [.text "x"]]
  let children : List Node := [.text "\x7bname\x7d", .element ⟨"escape", []⟩ content]
  let body : List Node := [.text "\x7bname\x7d", .element (.withClass "div" "fy-escape") content]
  let value : Nat → List Char → Value := fun i _ => names.getD i .null
  have hfirst (children : List Node) :
      treatment ⟨"first", []⟩ children = .wrapped (.withClass "div" "fy-first") [] := rfl
  have hbody : (standard 8).siblings scope 7 children =
      .ok (outerMarkup body) := by
    have htext : ((standard 8).siblings scope 7 children).toOption =
        some (outerMarkup body) := by decide +kernel
    cases hok : (standard 8).siblings scope 7 children with
    | error error => simp [hok, Except.toOption] at htext
    | ok text => simpa [hok, Except.toOption] using htext
  have hsources : sourcesOf body = ["name".toList] := by decide
  have heval : ∀ i item, names[i]? = some item → ∀ source ∈ sourcesOf body,
      evaluateSource (.ofList source) (iterationScope scope
        ⟨"each", [⟨"of", "names"⟩, ⟨"as", "name"⟩]⟩ i item) = .ok (value i source) := by
    intro i item hitem source hsource
    obtain rfl : source = "name".toList := by simpa [hsources] using hsource
    have hvalue : value i "name".toList = item := by
      change names.getD i .null = item
      rw [List.getD_eq_getElem?_getD, hitem, Option.getD_some]
    rw [hvalue]
    exact evaluateSource_name _ i item
  have hinert : ∀ i < names.length, ∀ source ∈ sourcesOf body, isInert (value i source) := by
    intro i hi source _
    have hinert : ∀ item ∈ names, isInert item := by decide
    change isInert (names.getD i .null)
    rw [List.getD_eq_getElem?_getD, List.getElem?_eq_getElem hi]
    exact hinert _ (List.getElem_mem hi)
  have hloop : Encloses 8 scope content 8
      (.element ⟨"each", [⟨"of", "names"⟩, ⟨"as", "name"⟩]⟩ children) (names.length * 1) :=
    .each (by decide) (by decide) (evaluateSource_names _)
      ⟨[.text "\x7bname\x7d"], [], "", rfl, by simp, rfl⟩ (.escape (by decide)) hbody
      (by decide) (by decide) (by decide) (by decide) heval hinert
  have hall : Encloses 8 scope content 9 escapedInLoop 2 :=
    .wrapped (hfirst _) (by decide) ⟨[], [], "", rfl, by simp, rfl⟩ hloop
  have hparse : Markup.parse (Text.trim (outerMarkup [escapedInLoop])) = [] ++ [escapedInLoop] := by
    have htrim : Text.trim (outerMarkup [escapedInLoop]) = outerMarkup [escapedInLoop] := by
      decide +kernel
    rw [htrim, Markup.parse_outerMarkup (by decide), List.nil_append]
  exact (compile_escaped (by decide) hall).2 false _ [] [] hparse (by simp)

/-- Under an `each`, a directive in escaped markup is found in the text and expanded. -/
theorem Compiler.compileNode_each_expands_escaped :
    let content : List Node := [.element ⟨"if", [⟨"c", "true"⟩]⟩ [.text "x"]]
    let scope : Scope := .ofBindings [("items", .array [.bool true])]
    let output := "<div class=\"fy-each\" data-items=\"1\"><div class=\"fy-escape\">" ++
      "<div class=\"fy-if\">x</div></div></div>"
    '{' ∉ (outerMarkup content).toList ∧
      evaluateSource "items" scope = .ok (.array [.bool true]) ∧
      ((standard 8).compileNode scope (.element ⟨"each", [⟨"of", "items"⟩]⟩
        [.element ⟨"escape", []⟩ content])).outcome.toOption = some (.markup output) ∧
      ¬ Occurs (escapedBlock content) 1 output.toList := by
  intro content scope output
  -- The `true` of the condition is written nowhere else, so one of its characters is missed.
  have hblock : 'r' ∈ escapedBlock content := by decide +kernel
  have houtput : 'r' ∉ output.toList := by decide +kernel
  have hitems : evaluateSource "items" scope = .ok (.array [.bool true]) :=
    Expression.evaluateSource_of_readsAsName (by decide +kernel) rfl
  exact ⟨by decide, hitems, by decide +kernel, fun h => houtput (h.isInfix.subset hblock)⟩

end DirectiveMarkup
