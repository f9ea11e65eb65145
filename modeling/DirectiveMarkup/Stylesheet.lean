import DirectiveMarkup.Directive
import DirectiveMarkup.Text.Search

/-!
# Stylesheets

In a `style` element directive tags may be used as selectors; they are resolved to the selectors
of the elements that the directives compile to. This knows no grammar: the pairs are applied in
turn, each at the first place where the name occurs in every fragment between closing braces, be
it inside a longer word or an earlier replacement.

The default stylesheet presents tooltips and plain buttons.
-/

namespace DirectiveMarkup.Stylesheet

/-- Replace the first occurrence of a name in every fragment between closing braces. -/
def replaceSelector (name replacement css : String) : String :=
  .ofList <| Text.joinWith ['}'] <|
    (Text.splitOn ['}'] css.toList).map (Text.replaceFirst name.toList replacement.toList)

/-- Resolve the names of directives to the selectors of their elements. -/
def resolveSelectors (css : String) : String :=
  Directive.selectors.foldl (fun css (name, selector) => replaceSelector name selector css) css

/-- The comment at the head of a compiled `style` element. -/
def banner : String := "/* Selectors may contain compiled mHTML directives. */"

/-- A selector with its declarations. -/
structure Rule where
  selector : String
  declarations : List (String × String)

/-- A rule as it is written, without spaces. -/
def Rule.text (rule : Rule) : String :=
  rule.selector ++ "\x7b" ++
    String.join (rule.declarations.map fun (property, value) => property ++ ":" ++ value ++ ";") ++
    "\x7d"

/-- The rule that puts a tooltip's label beside its anchor. -/
def placement (position beyond start gap : String) : Rule :=
  ⟨".fy-pos-" ++ position, [(beyond, "100%"), (start, "0"), (gap, "2px")]⟩

/-- The rules of the default stylesheet. -/
def defaultRules : List Rule :=
  [⟨".fy-tooltip", [("position", "relative"), ("display", "inline-block"),
      ("width", "fit-content")]⟩,
    ⟨".fy-tooltip-text", [("display", "none"), ("position", "absolute"), ("z-index", "10"),
      ("width", "max-content"), ("padding", "8px"), ("background", "#363738"),
      ("color", "white"), ("border-radius", "0.15rem"), ("cursor", "default")]⟩,
    ⟨".fy-tooltip:hover .fy-tooltip-text", [("display", "block")]⟩,
    placement "top" "bottom" "left" "margin-bottom",
    placement "bottom" "top" "left" "margin-top",
    placement "left" "right" "top" "margin-right",
    placement "right" "left" "top" "margin-left",
    ⟨"button", [("background", "#363738"), ("padding", "8px"), ("border-radius", "0.15rem"),
      ("color", "white"), ("border", "none"),
      ("font-family", "Calibri,'Trebuchet MS',sans-serif"), ("font-weight", "550"),
      ("font-size", "1.075em")]⟩]

/-- The text of the default stylesheet. -/
def defaultStyles : String :=
  String.join (defaultRules.map Rule.text)

/-- Append the default stylesheet to markup. -/
def addDefaultStyles (html : String) : String :=
  html ++ "<style>" ++ defaultStyles ++ "</style>"

end DirectiveMarkup.Stylesheet
