import DirectiveMarkup.Text.Search

/-!
# Markup trees

A document is a forest of texts, comments and elements. A tag keeps its attributes in source
order and may carry one name twice; look-ups take the first. Writing a forest back is verbatim:
no character of a text or value is encoded, and a void element is written without children
and without a closing tag, whatever children it holds.
-/

namespace DirectiveMarkup.Markup

/-- A name with a value. An attribute written without a value has the empty one. -/
structure Attribute where
  name : String
  value : String
  deriving DecidableEq, Repr

/-- What is written between the angle brackets that open an element. -/
structure Tag where
  name : String
  attributes : List Attribute
  deriving DecidableEq, Repr

/-- One node of a markup tree. -/
inductive Node where
  | text (content : String)
  | comment (body : String)
  | element (tag : Tag) (children : List Node)

instance : Inhabited Node := ⟨.text ""⟩

/-- The elements that never have children or a closing tag. -/
def voidTags : List String :=
  ["area", "base", "br", "col", "embed", "hr", "img", "input", "link", "meta", "source",
    "track", "wbr"]

/-- True of the names of void elements, in any ASCII case. -/
def isVoid (name : String) : Bool :=
  voidTags.any (Text.sameIgnoringCase · name)

namespace Tag

/-- A tag whose only attribute is its class. -/
def withClass (name token : String) : Tag :=
  ⟨name, [⟨"class", token⟩]⟩

/-- The value of the first attribute of that name, in any ASCII case. -/
def attribute? (tag : Tag) (name : String) : Option String :=
  (tag.attributes.find? fun a => Text.sameIgnoringCase a.name name).map Attribute.value

/-- The value of an attribute, or the empty text when the tag has none of that name. -/
def attributeOrEmpty (tag : Tag) (name : String) : String :=
  (tag.attribute? name).getD ""

/-- True when the tag has an attribute of that name. -/
def hasAttribute (tag : Tag) (name : String) : Bool :=
  (tag.attribute? name).isSome

/-- True when the value of `class`, cut at single spaces, has the token as one of its parts. -/
def hasClass (tag : Tag) (token : String) : Bool :=
  (tag.attribute? "class").any fun value =>
    (Text.splitOn [' '] value.toList).contains token.toList

/-- Every attribute with a space in front, in order, its value between double quotes. -/
def attributesText (tag : Tag) : String :=
  String.join (tag.attributes.map fun a => " " ++ a.name ++ "=\"" ++ a.value ++ "\"")

/-- The opening tag as it is written. -/
def opening (tag : Tag) : String :=
  "<" ++ tag.name ++ tag.attributesText ++ ">"

/-- The closing tag as it is written. -/
def closing (tag : Tag) : String :=
  "</" ++ tag.name ++ ">"

end Tag

mutual

/-- A node written back as markup. -/
def Node.outer : Node → String
  | .text content => content
  | .comment body => "<!--" ++ body ++ "-->"
  | .element tag children =>
    if isVoid tag.name then tag.opening
    else tag.opening ++ String.join (outers children) ++ tag.closing

/-- The nodes of a forest, each written back as markup. -/
def outers : List Node → List String
  | [] => []
  | node :: rest => node.outer :: outers rest

end

mutual

/-- The text inside a node; comments have none. -/
def Node.textContent : Node → String
  | .text content => content
  | .comment _ => ""
  | .element _ children => String.join (textContents children)

/-- The text inside each node of a forest. -/
def textContents : List Node → List String
  | [] => []
  | node :: rest => node.textContent :: textContents rest

end

/-- A forest written back as markup. -/
def outerMarkup (forest : List Node) : String :=
  String.join (outers forest)

/-- The concatenated text of a forest. -/
def textContent (forest : List Node) : String :=
  String.join (textContents forest)

/-- The tag and children of a node that is an element. -/
def Node.element? : Node → Option (Tag × List Node)
  | .element tag children => some (tag, children)
  | _ => none

/-- The elements that stand directly in a forest. -/
def elements (forest : List Node) : List (Tag × List Node) :=
  forest.filterMap Node.element?

/-- Writing a forest writes each of its nodes. -/
theorem outers_eq_map (forest : List Node) : outers forest = forest.map Node.outer := by
  induction forest with
  | nil => rfl
  | cons node rest ih => simp [outers, ih]

/-- Nothing is written for no nodes. -/
@[simp] theorem outerMarkup_nil : outerMarkup [] = "" := rfl

/-- A forest is written node by node. -/
@[simp] theorem outerMarkup_cons (node : Node) (rest : List Node) :
    outerMarkup (node :: rest) = node.outer ++ outerMarkup rest := by
  simp [outerMarkup, outers, String.join_cons]

/-- Two forests in a row are written one after the other. -/
theorem outerMarkup_append (first second : List Node) :
    outerMarkup (first ++ second) = outerMarkup first ++ outerMarkup second := by
  induction first with
  | nil => simp
  | cons node rest ih => simp [ih, String.append_assoc]

/-- An element is written as its opening tag and, unless it is void, its children and its
closing tag. -/
theorem Node.outer_element (tag : Tag) (children : List Node) :
    (Node.element tag children).outer =
      if isVoid tag.name then tag.opening
      else tag.opening ++ outerMarkup children ++ tag.closing := by
  rw [Node.outer]
  rfl

end DirectiveMarkup.Markup
