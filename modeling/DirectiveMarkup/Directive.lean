import DirectiveMarkup.Markup.Node

/-!
# Directives

The tags with a meaning of their own, the tags that are only renamed, and the selectors of the
elements that directives compile to. Names are looked up in lower case.
-/

namespace DirectiveMarkup

/-- A tag with a compilation rule of its own. -/
inductive Directive where
  | halt
  | escape
  | style
  | first
  | last
  | await
  | group
  | conditional
  | alternative
  | interpolation
  | each
  | tooltip
  deriving DecidableEq, Repr

namespace Directive

/-- The tag by which messages call a directive. -/
def name : Directive → String
  | halt => "halt"
  | escape => "escape"
  | style => "style"
  | first => "first"
  | last => "last"
  | await => "await"
  | group => "group"
  | conditional => "if"
  | alternative => "else"
  | interpolation => "inter"
  | each => "each"
  | tooltip => "tooltip"

/-- Every directive with every tag that stands for it. -/
def tags : List (String × Directive) :=
  [("halt", halt), ("escape", escape), ("esc", escape), ("style", style), ("first", first),
    ("last", last), ("await", await), ("group", group), ("if", conditional),
    ("else", alternative), ("inter", interpolation), ("each", each), ("tooltip", tooltip)]

/-- The directive that a lower-case tag stands for. -/
def ofTag? (tag : String) : Option Directive :=
  tags.lookup tag

/-- The selector of the elements that a directive's tag compiles to, in the order in which the
names are looked for in a stylesheet. -/
def selectors : List (String × String) :=
  [("escape", "div.fy-escape"), ("esc", "div.fy-escape"), ("first", "div.fy-first"),
    ("last", "div.fy-last"), ("await", "div.fy-await"), ("group", "div.fy-group"),
    ("if", "div.fy-if"), ("else", "div.fy-else"), ("inter", "div.fy-inter"),
    ("each", "div.fy-each"), ("tooltip", "span.fy-tooltip")]

end Directive

/-- The tags that are renamed where no directive's rule applies. -/
def renamedTags : List (String × String) :=
  [("btn", "button"), ("vid", "video"), ("group", "div"), ("if", "div"), ("else", "div"),
    ("each", "div"), ("inter", "div"), ("first", "div"), ("last", "div"), ("await", "div"),
    ("bq", "blockquote")]

/-- The new name of a lower-case tag, if it is renamed. -/
def outputTag? (tag : String) : Option String :=
  renamedTags.lookup tag

end DirectiveMarkup
