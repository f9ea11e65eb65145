import DirectiveMarkup.Expression.Value
import DirectiveMarkup.Text.Search

/-!
# Interpolation

A span is an opening brace with all up to the next closing brace; an opening brace inside it
has no meaning of its own. The source of every different span is evaluated once, in the order
in which they first occur, and each value is put in the place of all occurrences of its span
in the text as it then is. The evaluator may be any computation, so what it is asked, and in
which order, can be observed.
-/

namespace DirectiveMarkup.Interpolation

open DirectiveMarkup.Expression (Value)

/-- The sources of the spans of a text, with the content of a span that is open in reverse. -/
def sourcesFrom : (content : Option (List Char)) → List Char → List (List Char)
  | _, [] => []
  | none, c :: rest => sourcesFrom (if c = '{' then some [] else none) rest
  | some content, c :: rest =>
    if c = '}' then content.reverse :: sourcesFrom none rest
    else sourcesFrom (some (c :: content)) rest

/-- The sources of the spans of a text, from left to right. -/
def sources (markup : List Char) : List (List Char) :=
  sourcesFrom none markup

/-- The span of a source. -/
def span (source : List Char) : List Char :=
  '{' :: source ++ ['}']

/-- Put a value in the place of every occurrence of a span. -/
def substitute (source : List Char) (value : Value) (text : List Char) : List Char :=
  Text.replaceAll (span source) value.display.toList text

/-- Replace the spans of a text by the values of their sources. -/
def interpolate {m : Type → Type} [Monad m] (evaluate : String → m Value) (markup : String) :
    m String := do
  let text ← (sources markup.toList).eraseDups.foldlM (fun text source => do
    let value ← evaluate (.ofList source)
    return substitute source value text) markup.toList
  return .ofList text

/-- A text without an opening brace has no spans. -/
theorem sources_eq_nil {markup : List Char} (h : '{' ∉ markup) : sources markup = [] := by
  induction markup with
  | nil => rfl
  | cons c rest ih =>
    have hc : c ≠ '{' := fun e => h (e ▸ List.mem_cons_self)
    have hr := ih fun hm => h (List.mem_cons_of_mem _ hm)
    simpa [sources, sourcesFrom, hc] using hr

end DirectiveMarkup.Interpolation
