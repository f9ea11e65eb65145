import DirectiveMarkup.Proofs.Lexing
import Mathlib.Data.List.Infix

/-!
# Reading what was written

Writing loses nothing of a canonical forest: each of its nodes is read back as itself, in front
of any other markup, and joins the nodes that have been read so far. The induction follows the
forest. It says how a growth goes on over written markup, so that what is read inside of an
element is the growth of that element.
-/

namespace DirectiveMarkup.Markup

/-- How a growth goes on over markup. -/
def Growth.read (g : Growth) (markup : List Char) : Growth :=
  ((lexemes markup).filterMap Lexeme.step?).foldl Growth.step g

/-- Add finished nodes in order. -/
def Growth.pushAll (g : Growth) (forest : List Node) : Growth :=
  forest.foldl (fun g node => g.push node) g

/-- True when a text is followed by a text that would be read as a part of it. -/
def runsOn : Node → List Node → Bool
  | .text _, .text next :: _ => !endsText next.toList
  | _, _ => false

/-- True of what a raw-text element can be read with: nothing, or one text without the closing
tag of the element. -/
def isRawContent (name : String) : List Node → Bool
  | [] => true
  | [.text body] =>
    !body.isEmpty &&
      !decide ('<' :: '/' :: (asciiLower name).toList <:+: body.toList.map Char.toLower)
  | _ => false

mutual

/-- True of a node that is read back as it is written. -/
def Node.canonical : Node → Bool
  | .text content => isOneText content.toList
  | .comment body => !decide (['-', '-', '>'] <:+: body.toList)
  | .element tag children =>
    tag.legible &&
      if isVoid tag.name then children.isEmpty
      else if isRawText tag.name then isRawContent tag.name children
      else canonicalForest children

/-- True of a forest that is read back as it is written. -/
def canonicalForest : List Node → Bool
  | [] => true
  | node :: rest => node.canonical && !runsOn node rest && canonicalForest rest

end

/-- Raw content is nothing, or one text without the closing tag. -/
theorem isRawContent_iff {name : String} {children : List Node} :
    isRawContent name children ↔ children = [] ∨ ∃ body, children = [.text body] ∧ body ≠ "" ∧
      ¬ ("</" ++ asciiLower name).toList <:+: (asciiLower body).toList := by
  match children with
  | [] => simp [isRawContent]
  | [.text body] => simp [isRawContent, asciiLower]
  | [.comment body] => simp [isRawContent]
  | [.element tag inside] => simp [isRawContent]
  | _ :: _ :: _ => simp [isRawContent]

namespace Growth

variable (g : Growth)

/-- Nothing is read from no markup. -/
@[simp] theorem read_nil : g.read [] = g := rfl

/-- A lexeme is the first step of a growth. -/
theorem read_of_lexemes {markup rest : List Char} {lexeme : Lexeme} {step : BuildStep}
    (hlexemes : lexemes markup = lexeme :: lexemes rest) (hstep : lexeme.step? = some step) :
    g.read markup = (g.step step).read rest := by
  rw [read, hlexemes, List.filterMap_cons_some hstep, List.foldl_cons]
  rfl

/-- Adding a node and then more adds them all. -/
@[simp] theorem pushAll_cons (node : Node) (rest : List Node) :
    g.pushAll (node :: rest) = (g.push node).pushAll rest := rfl

/-- Nodes that are added inside of an open element become its children. -/
theorem pushAll_opened (tag : Tag) (children : List Node) (opened : List OpenElement)
    (roots forest : List Node) :
    pushAll ⟨⟨tag, children⟩ :: opened, roots⟩ forest =
      ⟨⟨tag, forest.reverse ++ children⟩ :: opened, roots⟩ := by
  induction forest generalizing children with
  | nil => rfl
  | cons node rest ih =>
    rw [pushAll_cons, push, ih]
    simp

/-- Opening an element, adding children and closing it adds it with these children. -/
theorem close_pushAll_openElement (tag : Tag) (children : List Node) :
    ((g.openElement tag).pushAll children).close tag.name = g.push (.element tag children) := by
  have hfound (children : List Node) :
      (⟨tag, children⟩ :: g.opened).findIdx? (fun e => Text.sameIgnoringCase e.tag.name tag.name) =
        some 0 := by
    simp [List.findIdx?_cons]
  rw [openElement, pushAll_opened, close]
  simp only [hfound]
  simp [closeMany, closeInnermost, OpenElement.toNode]

/-- With nothing open, finishing gives the nodes that were added. -/
theorem finish_pushAll_empty (forest : List Node) : (empty.pushAll forest).finish = forest := by
  have hroots (roots : List Node) : pushAll ⟨[], roots⟩ forest = ⟨[], forest.reverse ++ roots⟩ := by
    induction forest generalizing roots with
    | nil => rfl
    | cons node rest ih =>
      rw [pushAll_cons, push, ih]
      simp
  rw [empty, hroots]
  simp [finish, closeMany]

end Growth

/-- A node that is no text is written with an angle bracket first. -/
theorem endsText_outer {node : Node} (h : ∀ content, node ≠ .text content) (rest : List Char) :
    endsText (node.outer.toList ++ rest) := by
  cases node with
  | text content => exact absurd rfl (h content)
  | comment body => simp [Node.outer, endsText]
  | element tag children =>
    rw [Node.outer_element]
    split_ifs <;> simp [Tag.opening, endsText]

/-- What follows a text in a canonical forest ends it. -/
theorem endsText_following {content : String} {following : List Node} {rest : List Char}
    (hrun : runsOn (.text content) following = false) (hforest : canonicalForest following)
    (hrest : endsText rest) : endsText ((outerMarkup following).toList ++ rest) := by
  cases following with
  | nil => simpa using hrest
  | cons node following =>
    rw [outerMarkup_cons, String.toList_append, List.append_assoc]
    cases node with
    | text next =>
      simp only [canonicalForest, Node.canonical, Bool.and_eq_true] at hforest
      simp only [runsOn, Bool.not_eq_false'] at hrun
      rw [Node.outer]
      cases hnext : next.toList with
      | nil => simp [hnext, isOneText] at hforest
      | cons c body => simpa [hnext, endsText] using hrun
    | comment body => exact endsText_outer (by simp) _
    | element tag children => exact endsText_outer (by simp) _

/-- An element that holds raw text is read as one node. -/
theorem read_raw {tag : Tag} {children : List Node} (htag : tag.legible)
    (hvoid : isVoid tag.name = false) (hraw : isRawText tag.name)
    (hcontent : isRawContent tag.name children) (g : Growth) (rest : List Char) :
    g.read (tag.opening.toList ++ ((outerMarkup children).toList ++ (tag.closing.toList ++ rest))) =
      (g.push (.element tag children)).read rest := by
  have hread {body : String}
      (hbody : ¬ '<' :: '/' :: (asciiLower tag.name).toList <:+: body.toList.map Char.toLower) :
      g.read (tag.opening.toList ++ (body.toList ++ (tag.closing.toList ++ rest))) =
        (g.push (.element tag (if body.isEmpty then [] else [.text body]))).read rest :=
    g.read_of_lexemes (lexemes_raw htag hvoid hraw hbody rest) rfl
  match children with
  | [] => simpa using @hread "" (by simp)
  | [.text body] =>
    simp only [isRawContent, Bool.and_eq_true, Bool.not_eq_true', decide_eq_false_iff_not] at hcontent
    simpa [Node.outer, hcontent.1] using hread hcontent.2

mutual

/-- A canonical node is read in front of other markup as one node. -/
theorem read_outer (node : Node) (h : node.canonical) (g : Growth) (rest : List Char)
    (hrest : ∀ content, node = .text content → endsText rest) :
    g.read (node.outer.toList ++ rest) = (g.push node).read rest := by
  match node with
  | .text content =>
    have hlexemes := lexemes_text h (hrest content rfl)
    rw [String.ofList_toList] at hlexemes
    exact g.read_of_lexemes hlexemes rfl
  | .comment body =>
    simp only [Node.canonical, Bool.not_eq_true', decide_eq_false_iff_not] at h
    exact g.read_of_lexemes (lexemes_comment h rest) rfl
  | .element tag children =>
    simp only [Node.canonical, Bool.and_eq_true] at h
    obtain ⟨htag, hchildren⟩ := h
    have hlexemes := lexemes_opening htag
    rw [Node.outer_element]
    split_ifs at hchildren ⊢ with hvoid hraw
    · obtain rfl := List.isEmpty_iff.mp hchildren
      have hleaf := hlexemes rest
      rw [if_pos hvoid] at hleaf
      exact g.read_of_lexemes hleaf rfl
    · rw [String.toList_append, String.toList_append, List.append_assoc, List.append_assoc]
      exact read_raw htag (by simpa using hvoid) hraw hchildren g rest
    · have hopening := hlexemes ((outerMarkup children).toList ++ (tag.closing.toList ++ rest))
      rw [if_neg hvoid, if_neg hraw] at hopening
      rw [String.toList_append, String.toList_append, List.append_assoc, List.append_assoc]
      calc g.read (tag.opening.toList ++ ((outerMarkup children).toList ++
              (tag.closing.toList ++ rest))) =
            (g.openElement tag).read ((outerMarkup children).toList ++
              (tag.closing.toList ++ rest)) := g.read_of_lexemes hopening rfl
        _ = ((g.openElement tag).pushAll children).read (tag.closing.toList ++ rest) :=
            read_outerMarkup children hchildren _ _ (by simp [Tag.closing, endsText])
        _ = (((g.openElement tag).pushAll children).close tag.name).read rest :=
            Growth.read_of_lexemes _ (lexemes_closing htag rest) rfl
        _ = (g.push (.element tag children)).read rest := by
            rw [Growth.close_pushAll_openElement]

/-- A canonical forest is read in front of other markup, node by node. -/
theorem read_outerMarkup (forest : List Node) (h : canonicalForest forest) (g : Growth)
    (rest : List Char) (hrest : endsText rest) :
    g.read ((outerMarkup forest).toList ++ rest) = (g.pushAll forest).read rest := by
  match forest with
  | [] => simp [Growth.pushAll]
  | node :: following =>
    simp only [canonicalForest, Bool.and_eq_true, Bool.not_eq_true'] at h
    obtain ⟨⟨hnode, hrun⟩, hfollowing⟩ := h
    have hends : ∀ content, node = .text content →
        endsText ((outerMarkup following).toList ++ rest) := by
      rintro content rfl
      exact endsText_following hrun hfollowing hrest
    rw [outerMarkup_cons, String.toList_append, List.append_assoc,
      read_outer node hnode g _ hends, read_outerMarkup following hfollowing _ rest hrest,
      Growth.pushAll_cons]

end

/-- A canonical forest is read back as it was written. -/
theorem parse_outerMarkup {forest : List Node} (h : canonicalForest forest) :
    parse (outerMarkup forest) = forest := by
  have hread := read_outerMarkup forest h .empty [] rfl
  rw [List.append_nil, Growth.read_nil] at hread
  change (Growth.read .empty _).finish = forest
  rw [hread, Growth.finish_pushAll_empty]

end DirectiveMarkup.Markup
