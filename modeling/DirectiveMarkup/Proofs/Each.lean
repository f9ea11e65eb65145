import DirectiveMarkup.Proofs.NamesRead
import DirectiveMarkup.Proofs.Plain
import DirectiveMarkup.Proofs.SettledOutcome

/-!
# Each as repeated filling

An `each` compiles its children once, interpolates the text for every item, reads all the texts
together and compiles what it reads. When the text is that of a plain forest that closes its
spans, every iteration writes that forest filled, the texts together are read back as these
forests in a row, settled, and compiling them changes nothing. What is left is one filled text
for each item.
-/

namespace DirectiveMarkup

open Expression (Scope Value Fields evaluateSource)
open Interpolation (fillText greeting isInert)
open Markup (Node Tag outerMarkup settleForest legibleForest closedForest plainForest height
  sourcesOf fillForest)

namespace Markup

/-- Forests in a row are written one after the other. -/
theorem outerMarkup_flatMap {ι : Type} (forests : ι → List Node) (indices : List ι) :
    outerMarkup (indices.flatMap forests) =
      String.join (indices.map fun i => outerMarkup (forests i)) := by
  induction indices with
  | nil => rfl
  | cons i indices ih =>
    rw [List.flatMap_cons, outerMarkup_append, ih, List.map_cons, String.join_cons]

end Markup

/-- The scope of one iteration: the ambient one, with the item and then its position under the
names that the tag gives them. -/
def iterationScope (scope : Scope) (tag : Tag) (index : Nat) (item : Value) : Scope :=
  let withItem :=
    if (tag.attributeOrEmpty "as").isEmpty then scope
    else scope.bind (tag.attributeOrEmpty "as") item
  if (tag.attributeOrEmpty "index").isEmpty then withItem
  else withItem.bind (tag.attributeOrEmpty "index") (.ofNat index)

/-- The bindings of an iteration make its scope. -/
theorem bindAll_iterationBindings (scope : Scope) (tag : Tag) (index : Nat) (item : Value) :
    scope.bindAll (Compiler.iterationBindings tag index item) =
      iterationScope scope tag index item := by
  unfold Compiler.iterationBindings iterationScope
  cases h : (tag.attributeOrEmpty "as").isEmpty <;>
    cases h' : (tag.attributeOrEmpty "index").isEmpty <;>
      simp [h, h']

/-- The forest that one iteration makes of the body of an `each`. -/
def iterationForest (body : List Node) (value : Nat → List Char → Value) (index : Nat) : List Node :=
  fillForest (fun source => (value index source).display.toList) body

namespace Compiler

variable {maxDepth : Nat} {scope : Scope} {tag : Tag} {body : List Node}
  {value : Nat → List Char → Value}

/-- Every iteration writes its forest. -/
theorem outcome_iterations (hlegible : legibleForest body) (hclosed : closedForest body)
    (index : Nat) (items : List Value)
    (heval : ∀ i item, items[i]? = some item → ∀ source ∈ sourcesOf body,
      evaluateSource (.ofList source) (iterationScope scope tag (index + i) item) =
        .ok (value (index + i) source))
    (hinert : ∀ i < items.length, ∀ source ∈ sourcesOf body, isInert (value (index + i) source)) :
    ((standard maxDepth).iterations scope tag (outerMarkup body) index items).outcome =
      .ok ((List.range' index items.length).map fun i => outerMarkup (iterationForest body value i)) := by
  induction items generalizing index with
  | nil => rfl
  | cons item items ih =>
    have hrest := ih (index + 1)
      (fun i other hi => by simpa [Nat.add_assoc, Nat.add_comm 1] using heval (i + 1) other hi)
      (fun i hi => by simpa [Nat.add_assoc, Nat.add_comm 1] using hinert (i + 1) (by simpa using hi))
    have hfirst := Interpolation.interpolate_outerMarkup hlegible hclosed (heval 0 item rfl)
      (hinert 0 (by simp))
    have hstep : ((standard maxDepth).interpolateFor .each
        (scope.bindAll (iterationBindings tag index item)) (outerMarkup body)).outcome =
          .ok (outerMarkup (iterationForest body value index)) := by
      rw [interpolateFor, Reported.outcome_ofExcept, bindAll_iterationBindings]
      change Except.mapError _ (Interpolation.interpolate (evaluateSource · _) _) = _
      rw [← Nat.add_zero index, hfirst]
      rfl
    rw [iterations, Reported.outcome_bind, hstep]
    change (_ >>= _ : Reported _).outcome = _
    rw [Reported.outcome_bind, hrest]
    rfl

/-- The forests of all iterations, read back and compiled, are what was written. -/
theorem siblings_parse_iterations {levels count : Nat} (hplain : plainForest body)
    (hheight : height body ≤ levels) (hlegible : legibleForest body)
    (hinert : ∀ i < count, ∀ source ∈ sourcesOf body, isInert (value i source)) :
    let texts := String.join ((List.range count).map fun i =>
      outerMarkup (iterationForest body value i))
    (standard maxDepth).siblings scope levels (Markup.parse texts) = .ok texts := by
  let all := (List.range count).flatMap (iterationForest body value)
  have hforall {P : Node → Prop} (h : ∀ i < count, ∀ node ∈ iterationForest body value i, P node) :
      ∀ node ∈ all, P node := by
    intro node hnode
    obtain ⟨i, hi, hmem⟩ := List.mem_flatMap.mp hnode
    exact h i (List.mem_range.mp hi) node hmem
  have hallPlain : plainForest all := Markup.plainForest_iff.mpr <| hforall fun i _ =>
    Markup.plainForest_iff.mp (by rwa [iterationForest, Markup.plainForest_fill])
  have hallHeight : height all ≤ levels := Markup.height_le_iff.mpr <| hforall fun i _ =>
    Markup.height_le_iff.mp (by rwa [iterationForest, Markup.height_fillForest])
  have hallLegible : legibleForest all := Markup.legibleForest_iff.mpr <| hforall fun i hi =>
    Markup.legibleForest_iff.mp (Interpolation.legibleForest_fill_isInert hlegible (hinert i hi))
  have hsame := (standard maxDepth).sameUnless_settleForest scope levels all id
  rw [siblings_plain _ _ all levels hallPlain hallHeight] at hsame
  intro texts
  have hwritten : outerMarkup all = texts := Markup.outerMarkup_flatMap _ _
  rw [← hwritten, Markup.parse_legible hallLegible, hsame.eq_of_ok]

/-- An `each` compiles to its iterations in a row. -/
theorem outcome_compileWithin_each {levels : Nat} {children : List Node} {items : List Value}
    (htag : Directive.ofTag? (Text.toLower tag.name) = some .each) (hhas : tag.hasAttribute "of")
    (hof : evaluateSource (tag.attributeOrEmpty "of") scope = .ok (.array items) ∨
      evaluateSource (tag.attributeOrEmpty "of") scope = .ok .null ∧ items = [])
    (hbody : (standard maxDepth).siblings scope levels children = .ok (outerMarkup body))
    (hplain : plainForest body) (hheight : height body ≤ levels)
    (hlegible : legibleForest body) (hclosed : closedForest body)
    (heval : ∀ i item, items[i]? = some item → ∀ source ∈ sourcesOf body,
      evaluateSource (.ofList source) (iterationScope scope tag i item) = .ok (value i source))
    (hinert : ∀ i < items.length, ∀ source ∈ sourcesOf body, isInert (value i source)) :
    ((standard maxDepth).compileWithin scope (levels + 1) (.element tag children)).outcome =
      .ok (.markup ((eachTag items.length).opening ++
        String.join ((List.range items.length).map fun i =>
          outerMarkup (iterationForest body value i)) ++ "</div>")) := by
  have hitems := (standard maxDepth).outcome_eachItems scope hof
  have htexts := @outcome_iterations maxDepth scope tag body value hlegible hclosed 0 items
    (by simpa using heval) (by simpa using hinert)
  have hcompiled := @siblings_parse_iterations maxDepth scope body value levels items.length hplain
    hheight hlegible hinert
  have hforest : (standard maxDepth).iteratedForest scope ((standard maxDepth).siblings scope levels)
      tag children = .ok (items, Markup.parse (String.join ((List.range items.length).map fun i =>
        outerMarkup (iterationForest body value i)))) := by
    rw [← List.range_eq_range'] at htexts
    rw [iteratedForest, hitems]
    change ((standard maxDepth).siblings scope levels children >>= _) = _
    rw [hbody]
    change (((standard maxDepth).iterations scope tag (outerMarkup body) 0 items).outcome >>= _) = _
    rw [htexts]
    rfl
  have hvoid : Markup.isVoid "div" = false := by decide
  rw [outcome_compileWithin_element, treatment_of_each htag hhas, carryOut, hforest]
  change wrapElement _ (eachTag items.length) _ = _
  rw [wrapElement, hcompiled, eachTag, if_neg (by simp [hvoid])]
  rfl

/-- In a loop over names, `name` stands for the item. -/
theorem evaluateSource_name (scope : Scope) (i : Nat) (item : Value) :
    evaluateSource "name"
      (iterationScope scope ⟨"each", [⟨"of", "names"⟩, ⟨"as", "name"⟩]⟩ i item) = .ok item := by
  let tag : Tag := ⟨"each", [⟨"of", "names"⟩, ⟨"as", "name"⟩]⟩
  have hitem : tag.attributeOrEmpty "as" = "name" := by decide
  have hindex : tag.attributeOrEmpty "index" = "" := by decide
  have hscope : iterationScope scope tag i item = scope.bind "name" item := by
    rw [iterationScope, hitem, hindex]
    rfl
  rw [hscope]
  exact Expression.evaluateSource_of_readsAsName (by decide +kernel)
    (by rw [Scope.find?_bind, if_pos rfl])

/-- A loop over names goes through what `names` is bound to. -/
theorem evaluateSource_names (value : Value) :
    evaluateSource (Tag.attributeOrEmpty ⟨"each", [⟨"of", "names"⟩, ⟨"as", "name"⟩]⟩ "of")
      (.ofBindings [("names", value)]) = .ok value :=
  Expression.evaluateSource_of_readsAsName (by decide +kernel) rfl

end Compiler

end DirectiveMarkup
