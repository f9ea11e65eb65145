import DirectiveMarkup.Expression.Method
import DirectiveMarkup.Proofs.WholeNumbers

/-!
# Places in strings and arrays

A sequence is asked for its length, for what stands at a place, for the part between two places and
for the place of an item. Each of these has a way of its own to get from numbers to places: an item is
selected by a natural number that is kept as an integer, while the bounds of a slice are doubles of any
kind, counted from the end when they are negative and brought back into the sequence when they lie
outside. What is shown is that they speak of the same places, and that no slice leaves its sequence.

Integers below `2^53` are exact as doubles, and no sequence is longer than that.
-/

namespace DirectiveMarkup

namespace Binary64

/-- A negative number is turned to zero. -/
theorem clampToNat_ofQuotient_true (numerator denominator limit : Nat) :
    (ofQuotient true numerator denominator).clampToNat limit = 0 := by
  unfold ofQuotient
  dsimp only
  split <;> rfl

/-- A number below zero has a sign. -/
theorem eq_of_isNegative {x : Binary64} (hx : x.isNegative) :
    x = infinite true ∨ ∃ quanta, x = finite true quanta := by
  cases x with
  | nan => exact nomatch hx
  | infinite negative =>
    cases negative with
    | true => exact .inl rfl
    | false =>
      simp only [isNegative, rank?, signedQuanta, Bool.false_eq_true, ↓reduceIte, Option.any_some,
        decide_eq_true_eq] at hx
      omega
  | finite negative quanta =>
    cases negative with
    | true => exact .inr ⟨quanta, rfl⟩
    | false =>
      simp only [isNegative, rank?, signedQuanta, Bool.false_eq_true, ↓reduceIte, Option.any_some,
        decide_eq_true_eq] at hx
      omega

/-- Going back from a whole number does not lead beyond it, however much is rounded. -/
theorem clampToNat_ofNat_add_le {n : Nat} (hn : n < 2 ^ 53) {x : Binary64} (hx : x.isNegative)
    (limit : Nat) : (ofNat n + x).clampToNat limit ≤ n := by
  have hwhole : ofNat n = finite false (n * quantaPerOne) := ofInt_of_lt (i := n) hn
  change (Binary64.add (ofNat n) x).clampToNat limit ≤ n
  rw [hwhole]
  rcases eq_of_isNegative hx with rfl | ⟨quanta, rfl⟩
  · exact Nat.zero_le n
  · rw [Binary64.add]
    generalize hsum : signedQuanta false (n * quantaPerOne) + signedQuanta true quanta = sum
    rw [signedQuanta, signedQuanta, if_neg Bool.false_ne_true, if_pos rfl] at hsum
    by_cases hneg : sum < 0
    · have hne : sum ≠ 0 := by omega
      simp [hne, hneg, clampToNat_ofQuotient_true]
    · -- The sum is at most `n`, which is a double, so it is not rounded beyond it.
      have habs : sum.natAbs ≤ n * quantaPerOne := by omega
      obtain ⟨rounded, hle, hrounded⟩ := exists_le_ofQuotient false hn habs
      have hdiv : rounded / quantaPerOne ≤ n := Nat.div_le_of_le_mul (Nat.mul_comm n _ ▸ hle)
      split_ifs with hzero
      · simp [clampToNat]
      · rw [decide_eq_false hneg, hrounded]
        exact (Nat.min_le_left _ _).trans hdiv

end Binary64

namespace Expression

/-- An integer as a value. -/
def Value.ofInt (i : Int) : Value :=
  .number (.integer i)

/-- The place that an integer stands for in a sequence: from the end when it is negative, and never
outside. -/
def placeOf (length : Nat) (k : Int) : Nat :=
  if k < 0 then (length + k).toNat else min k.toNat length

/-- A place lies in the sequence or at its end. -/
theorem placeOf_le (length : Nat) (k : Int) : placeOf length k ≤ length := by
  unfold placeOf
  split <;> omega

/-! ## Bounds of slices -/

section Slices

variable {length : Nat}

/-- The place that an integer stands for is what `slice` takes it for. -/
theorem slicePlace_ofInt (hlength : length < 2 ^ 53) {k : Int} (hk : k.natAbs < 2 ^ 53) :
    slicePlace length (.ofInt k) = placeOf length k := by
  have hindex : 2 ^ 53 ≤ maxIndex := by decide
  unfold slicePlace placeOf
  simp only [Binary64.isNegative_ofInt hk, decide_eq_true_eq]
  split
  · have hsum : ((length : Int) + k).natAbs < 2 ^ 53 := by omega
    rw [Binary64.ofNat, Binary64.ofInt_add_ofInt (i := length) hlength hk hsum,
      Binary64.clampToNat_ofInt hsum]
    omega
  · rw [Binary64.clampToNat_ofInt hk]
    omega

/-- Whatever number an argument of `slice` is, its place lies in the sequence or at its end. -/
theorem slicePlace_le (hlength : length < 2 ^ 53) (x : Binary64) : slicePlace length x ≤ length := by
  unfold slicePlace
  split
  case isTrue hx => exact Binary64.clampToNat_ofNat_add_le hlength hx maxIndex
  case isFalse => exact Nat.min_le_right _ _

/-- Two numbers bound a slice by their places, the second unless it lies before the first. -/
theorem sliceBounds_some_some (x y : Binary64) :
    sliceBounds length (some x) (some y) =
      (slicePlace length x, max (slicePlace length y) (slicePlace length x)) :=
  rfl

/-- One number bounds a slice that goes on to the end. -/
theorem sliceBounds_some_none (x : Binary64) :
    sliceBounds length (some x) none = (slicePlace length x, max length (slicePlace length x)) :=
  rfl

/-- Two places bound a part of a sequence: they are in order and lie in it or at its end. -/
def BoundPart (length : Nat) (bounds : Nat × Nat) : Prop :=
  bounds.1 ≤ bounds.2 ∧ bounds.2 ≤ length

/-- Whatever the arguments are, the bounds of a slice bound a part of the sequence. -/
theorem boundPart_sliceBounds (hlength : length < 2 ^ 53) (start stop : Option Binary64) :
    BoundPart length (sliceBounds length start stop) := by
  have hplace (bound : Option Binary64) {missing : Nat} (hmissing : missing ≤ length) :
      bound.elim missing (slicePlace length) ≤ length := by
    cases bound with
    | none => exact hmissing
    | some x => exact slicePlace_le hlength x
  refine ⟨Nat.le_max_right _ _, Nat.max_le.mpr ⟨?_, ?_⟩⟩
  · exact hplace stop le_rfl
  · exact hplace start (Nat.zero_le length)

end Slices

/-! ## Parts of sequences -/

section Parts

variable {α : Type} {items : List α} {i j : Int}

/-- A slice is the run between its bounds. -/
theorem slice_eq_extract (start stop : Option Binary64) :
    slice items start stop =
      items.extract (sliceBounds items.length start stop).1
        (sliceBounds items.length start stop).2 :=
  rfl

/-- Between two integers lies the run between the places they stand for. -/
theorem slice_ofInt_ofInt (hitems : items.length < 2 ^ 53) (hi : i.natAbs < 2 ^ 53)
    (hj : j.natAbs < 2 ^ 53) :
    slice items (some (.ofInt i)) (some (.ofInt j)) =
      items.extract (placeOf items.length i)
        (max (placeOf items.length i) (placeOf items.length j)) := by
  rw [slice_eq_extract, sliceBounds_some_some, slicePlace_ofInt hitems hi,
    slicePlace_ofInt hitems hj, Nat.max_comm]

/-- From the start to an integer lies what stands in front of its place. -/
theorem slice_zero_ofInt (hitems : items.length < 2 ^ 53) (hi : i.natAbs < 2 ^ 53) :
    slice items (some (.ofInt 0)) (some (.ofInt i)) = items.take (placeOf items.length i) := by
  have hzero : placeOf items.length 0 = 0 := by simp [placeOf]
  rw [slice_ofInt_ofInt hitems (by decide) hi, hzero, Nat.zero_max]
  simp

/-- From an integer on lies what stands behind its place. -/
theorem slice_ofInt_none (hitems : items.length < 2 ^ 53) (hi : i.natAbs < 2 ^ 53) :
    slice items (some (.ofInt i)) none = items.drop (placeOf items.length i) := by
  rw [slice_eq_extract, sliceBounds_some_none, slicePlace_ofInt hitems hi,
    Nat.max_eq_left (placeOf_le items.length i)]
  exact List.take_of_length_le (List.length_drop ▸ le_rfl)

/-- Between an item and the next place lies that item. -/
theorem slice_single (hitems : items.length < 2 ^ 53) {place : Nat} {item : α}
    (h : items[place]? = some item) :
    slice items (some (.ofInt place)) (some (.ofInt (place + 1))) = [item] := by
  obtain ⟨hplace, rfl⟩ := List.getElem?_eq_some_iff.mp h
  have hfirst : placeOf items.length place = place := by
    unfold placeOf
    split <;> omega
  have hlast : placeOf items.length (place + 1) = place + 1 := by
    unfold placeOf
    split <;> omega
  rw [slice_ofInt_ofInt hitems (by omega) (by omega), hfirst, hlast,
    Nat.max_eq_right (Nat.le_add_right place 1), List.extract, Nat.add_sub_cancel_left,
    List.drop_eq_getElem_cons hplace, List.take_succ_cons, List.take_zero]

end Parts

/-! ## Single places -/

section Places

variable {α : Type} (items : List α)

/-- A natural number selects what stands at its place. -/
theorem place?_bind_natCast (place : Nat) :
    ((Value.place? (.integer place)).bind fun i => items[i]?) = items[place]? :=
  rfl

/-- Outside of a sequence an integer selects nothing. -/
theorem place?_bind_eq_none {i : Int} (h : i < 0 ∨ items.length ≤ i) :
    ((Value.place? (.integer i)).bind fun i => items[i]?) = none := by
  cases i with
  | negSucc n => rfl
  | ofNat place =>
    have hlength : items.length ≤ place := by
      rcases h with hneg | hlength
      · exact absurd hneg (Int.not_lt.mpr (Int.natCast_nonneg place))
      · exact Int.ofNat_le.mp hlength
    exact List.getElem?_eq_none hlength

end Places

/-- An integer selects a code point of a string, if there is one at its place. -/
theorem itemAt_string_ofInt (s : String) (i : Int) :
    itemAt (.string s) (.ofInt i) =
      .ok (((Value.place? (.integer i)).bind fun i => s.toList[i]?).elim .null charValue) :=
  rfl

/-- An integer selects an item of an array, if there is one at its place. -/
theorem itemAt_array_ofInt (items : List Value) (i : Int) :
    itemAt (.array items) (.ofInt i) =
      .ok (((Value.place? (.integer i)).bind fun i => items[i]?).getD .null) :=
  rfl

/-! ## Methods -/

/-- An integer is a number as an argument. -/
theorem number?_ofInt (i : Int) (arguments : Arguments) :
    Arguments.number? (.ofInt i :: arguments) 0 = some (.ofInt i) := by
  simp [Arguments.number?, Value.ofInt, Value.toBinary64?, Numeral.toBinary64]

/-- An integer is a number as a second argument. -/
theorem number?_ofInt_second (first : Value) (i : Int) :
    Arguments.number? [first, .ofInt i] 1 = some (.ofInt i) := by
  simp [Arguments.number?, Value.ofInt, Value.toBinary64?, Numeral.toBinary64]

/-- A single argument has none behind it. -/
theorem number?_missing (first : Value) : Arguments.number? [first] 1 = none :=
  rfl

/-- A slice of a string consists of code points. -/
theorem callMethod_slice_string (s : String) (arguments : Arguments) :
    callMethod (.string s) "slice" arguments =
      .ok (.string (.ofList (slice s.toList (arguments.number? 0) (arguments.number? 1)))) :=
  rfl

/-- A slice of an array consists of items. -/
theorem callMethod_slice_array (items : List Value) (arguments : Arguments) :
    callMethod (.array items) "slice" arguments =
      .ok (.array (slice items (arguments.number? 0) (arguments.number? 1))) :=
  rfl

/-- The place of an item in an array is a double, and minus one where there is none. -/
theorem callMethod_indexOf (items : List Value) (value : Value) :
    callMethod (.array items) "indexOf" [value] =
      Value.ofBinary64 ((firstPlace? items value).elim (.ofInt (-1)) .ofNat) :=
  rfl

/-- A value is included in an array when some item is strictly equal to it. -/
theorem callMethod_includes_array (items : List Value) (value : Value) :
    callMethod (.array items) "includes" [value] =
      .ok (.bool (items.any (Value.strictEquals · value))) :=
  rfl

/-- A whole number of at most 53 bits is a value. -/
theorem Value.ofBinary64_ofInt {i : Int} (hi : i.natAbs < 2 ^ 53) :
    Value.ofBinary64 (.ofInt i) = .ok (.ofInt i) := by
  rw [Value.ofBinary64, Value.ofBinary64?_ofInt hi]
  rfl

/-! ## Agreement -/

/-- The ways into a string agree: its length, its places, its parts as an array and its slices. -/
structure StringPlaces (s : String) : Prop where
  length : member (.string s) "length" = .ok (.ofNat s.length)
  inside : ∀ (place : Nat) (c : Char), s.toList[place]? = some c →
    itemAt (.string s) (.ofInt place) = .ok (charValue c) ∧
      callMethod (.string s) "slice" [.ofInt place, .ofInt (place + 1)] = .ok (charValue c)
  outside : ∀ i : Int, i < 0 ∨ s.length ≤ i → itemAt (.string s) (.ofInt i) = .ok .null
  parts : ∃ parts, callMethod (.string s) "split" [.string ""] = .ok (.array parts) ∧
    ∀ i : Int, itemAt (.array parts) (.ofInt i) = itemAt (.string s) (.ofInt i)
  slice : ∀ i j : Int, i.natAbs < 2 ^ 53 → j.natAbs < 2 ^ 53 →
    callMethod (.string s) "slice" [.ofInt i, .ofInt j] =
      .ok (.string (.ofList (s.toList.extract (placeOf s.length i)
        (max (placeOf s.length i) (placeOf s.length j)))))
  halves : ∀ i : Int, i.natAbs < 2 ^ 53 → ∃ front back : String,
    callMethod (.string s) "slice" [.ofInt 0, .ofInt i] = .ok (.string front) ∧
      callMethod (.string s) "slice" [.ofInt i] = .ok (.string back) ∧ front ++ back = s
  bounds : ∀ arguments : Arguments,
    BoundPart s.length (sliceBounds s.length (arguments.number? 0) (arguments.number? 1))

/-- The ways into an array agree: its length, its places, its slices and the search for an item. -/
structure ArrayPlaces (items : List Value) : Prop where
  length : member (.array items) "length" = .ok (.ofNat items.length)
  inside : ∀ (place : Nat) (item : Value), items[place]? = some item →
    itemAt (.array items) (.ofInt place) = .ok item ∧
      callMethod (.array items) "slice" [.ofInt place, .ofInt (place + 1)] = .ok (.array [item])
  outside : ∀ i : Int, i < 0 ∨ items.length ≤ i → itemAt (.array items) (.ofInt i) = .ok .null
  slice : ∀ i j : Int, i.natAbs < 2 ^ 53 → j.natAbs < 2 ^ 53 →
    callMethod (.array items) "slice" [.ofInt i, .ofInt j] =
      .ok (.array (items.extract (placeOf items.length i)
        (max (placeOf items.length i) (placeOf items.length j))))
  halves : ∀ i : Int, i.natAbs < 2 ^ 53 → ∃ front back : List Value,
    callMethod (.array items) "slice" [.ofInt 0, .ofInt i] = .ok (.array front) ∧
      callMethod (.array items) "slice" [.ofInt i] = .ok (.array back) ∧ front ++ back = items
  bounds : ∀ arguments : Arguments,
    BoundPart items.length (sliceBounds items.length (arguments.number? 0) (arguments.number? 1))
  search : ∀ value : Value, ∃ i : Int,
    callMethod (.array items) "indexOf" [value] = .ok (.ofInt i) ∧
      callMethod (.array items) "includes" [value] = .ok (.bool (decide (0 ≤ i))) ∧
      (0 ≤ i ↔ ∃ item ∈ items, item.strictEquals value) ∧
      (0 ≤ i → ∃ item, items[i.toNat]? = some item ∧ item.strictEquals value ∧
        ∀ before < i.toNat, ∀ other, items[before]? = some other → ¬ other.strictEquals value)

/-- The ways into a string agree. -/
theorem stringPlaces {s : String} (hs : s.length < 2 ^ 53) : StringPlaces s where
  length := by
    rw [member, if_pos rfl, Binary64.ofNat, Value.ofBinary64_ofInt (i := s.length) hs]
    rfl
  inside place c hc := by
    rw [← String.length_toList] at hs
    rw [callMethod_slice_string, number?_ofInt, number?_ofInt_second, slice_single hs hc,
      itemAt_string_ofInt, place?_bind_natCast, hc]
    exact ⟨rfl, rfl⟩
  outside i hi := by
    rw [← String.length_toList] at hi
    rw [itemAt_string_ofInt, place?_bind_eq_none _ hi]
    rfl
  parts := by
    refine ⟨s.toList.map charValue, rfl, fun i => ?_⟩
    rw [itemAt_array_ofInt, itemAt_string_ofInt]
    cases Value.place? (.integer i) with
    | none => rfl
    | some place =>
      rw [Option.bind_some, Option.bind_some, List.getElem?_map]
      cases s.toList[place]? <;> rfl
  slice i j hi hj := by
    rw [← String.length_toList] at hs ⊢
    rw [callMethod_slice_string, number?_ofInt, number?_ofInt_second, slice_ofInt_ofInt hs hi hj]
  halves i hi := by
    rw [← String.length_toList] at hs
    refine ⟨_, _, callMethod_slice_string s _, callMethod_slice_string s _, ?_⟩
    rw [number?_ofInt, number?_ofInt_second, number?_ofInt, number?_missing, slice_zero_ofInt hs hi,
      slice_ofInt_none hs hi, ← String.ofList_append, List.take_append_drop, String.ofList_toList]
  bounds arguments := boundPart_sliceBounds hs _ _

/-- The ways into an array agree. -/
theorem arrayPlaces {items : List Value} (hitems : items.length < 2 ^ 53) : ArrayPlaces items where
  length := by
    rw [member, if_pos rfl, Binary64.ofNat, Value.ofBinary64_ofInt (i := items.length) hitems]
    rfl
  inside place item hitem := by
    rw [callMethod_slice_array, number?_ofInt, number?_ofInt_second, slice_single hitems hitem,
      itemAt_array_ofInt, place?_bind_natCast, hitem]
    exact ⟨rfl, rfl⟩
  outside i hi := by
    rw [itemAt_array_ofInt, place?_bind_eq_none _ hi]
    rfl
  slice i j hi hj := by
    rw [callMethod_slice_array, number?_ofInt, number?_ofInt_second, slice_ofInt_ofInt hitems hi hj]
  halves i hi := by
    refine ⟨_, _, callMethod_slice_array items _, callMethod_slice_array items _, ?_⟩
    rw [number?_ofInt, number?_ofInt_second, number?_ofInt, number?_missing, slice_zero_ofInt hitems hi,
      slice_ofInt_none hitems hi, List.take_append_drop]
  bounds arguments := boundPart_sliceBounds hitems _ _
  search value := by
    rw [callMethod_indexOf, callMethod_includes_array]
    cases hfirst : firstPlace? items value with
    | none =>
      have hindex := Value.ofBinary64_ofInt (i := -1) (by decide)
      have hnone : ¬ ∃ item ∈ items, item.strictEquals value := by
        rintro ⟨item, hitem, hequal⟩
        exact absurd hequal (Bool.eq_false_iff.mp (List.findIdx?_eq_none_iff.mp hfirst item hitem))
      rw [Option.elim_none]
      refine ⟨-1, hindex, ?_, ⟨fun h => absurd h (by decide), fun h => absurd h hnone⟩,
        fun h => absurd h (by decide)⟩
      rw [Bool.eq_false_iff.mpr (mt List.any_eq_true.mp hnone)]
      rfl
    | some place =>
      obtain ⟨hplace, hequal, hbefore⟩ := List.findIdx?_eq_some_iff_getElem.mp hfirst
      have hindex := Value.ofBinary64_ofInt (i := place) (Nat.lt_trans hplace hitems)
      have hsome : ∃ item ∈ items, item.strictEquals value :=
        ⟨items[place], List.getElem_mem hplace, hequal⟩
      rw [Option.elim_some, Binary64.ofNat]
      refine ⟨place, hindex, ?_, ⟨fun _ => hsome, fun _ => Int.natCast_nonneg place⟩, fun _ =>
        ⟨items[place], List.getElem?_eq_getElem hplace, hequal, ?_⟩⟩
      · rw [List.any_eq_true.mpr hsome, decide_eq_true (Int.natCast_nonneg place)]
      · intro before hless other hother
        obtain ⟨hlength, rfl⟩ := List.getElem?_eq_some_iff.mp hother
        exact hbefore before hless

/-- Places in strings and arrays agree. The length counts the code points or items. An integer selects
the code point or item at its place, which is also the slice of length one at that place, and nothing
elsewhere. Slices run from one place to another, however the integers lie, so two slices that meet
make up the whole, and no arguments lead out of a sequence or backwards. An array includes what it
has a place for, and that is the least such place. -/
theorem places_agree {s : String} {items : List Value} (hs : s.length < 2 ^ 53)
    (hitems : items.length < 2 ^ 53) : StringPlaces s ∧ ArrayPlaces items :=
  ⟨stringPlaces hs, arrayPlaces hitems⟩

/-- A slice from the second place from the end to one behind the end, and a search past a null. -/
theorem places_agree_fromTheEnd :
    let items : List Value := [.null, .string "x"]
    ("añb".length < 2 ^ 53 ∧ items.length < 2 ^ 53) ∧
      callMethod (.string "añb") "slice" [.ofInt (-2), .ofInt 7] = .ok (.string "ñb") ∧
      itemAt (.array items) (.ofInt (-1)) = .ok .null ∧
      ∃ i : Int, callMethod (.array items) "indexOf" [.string "x"] = .ok (.ofInt i) ∧ 0 ≤ i := by
  intro items
  have hs : "añb".length < 2 ^ 53 := by decide
  have hitems : items.length < 2 ^ 53 := by decide
  obtain ⟨hstring, harray⟩ := places_agree hs hitems
  obtain ⟨i, hindex, -, hfound, -⟩ := harray.search (.string "x")
  refine ⟨⟨hs, hitems⟩, hstring.slice (-2) 7 (by decide) (by decide),
    harray.outside (-1) (.inl (by decide)), i, hindex, ?_⟩
  exact hfound.mpr ⟨.string "x", by simp [items], by decide⟩

end Expression

end DirectiveMarkup
