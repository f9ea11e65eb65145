/-!
# The size of a text in bytes

Places in a text are told, and some lengths are limited, by the number of bytes that characters
take in UTF-8.
-/

namespace DirectiveMarkup.Text

/-- The number of bytes of a character sequence in UTF-8. -/
def byteSize (text : List Char) : Nat :=
  text.foldr (fun c size => c.utf8Size + size) 0

/-- Nothing has no bytes. -/
@[simp] theorem byteSize_nil : byteSize [] = 0 := rfl

/-- A character adds its own bytes. -/
@[simp] theorem byteSize_cons (c : Char) (text : List Char) :
    byteSize (c :: text) = c.utf8Size + byteSize text := rfl

/-- The bytes of two parts add up. -/
@[simp] theorem byteSize_append (first second : List Char) :
    byteSize (first ++ second) = byteSize first + byteSize second := by
  induction first with
  | nil => simp
  | cons c first ih =>
    rw [List.cons_append, byteSize_cons, ih, byteSize_cons]
    omega

/-- The bytes of a text are counted as those of a string. -/
theorem byteSize_eq_utf8ByteSize (text : List Char) :
    byteSize text = (String.ofList text).utf8ByteSize := by
  induction text with
  | nil => rfl
  | cons c text ih =>
    rw [byteSize_cons, String.ofList_cons, String.utf8ByteSize_append, String.utf8ByteSize_singleton, ih]

/-- Between two parts of a string there is a valid place of it. -/
theorem isValid_byteSize {source : String} {first last : List Char} (h : source.toList = first ++ last) :
    String.Pos.Raw.IsValid source ⟨byteSize first⟩ := by
  refine String.Pos.Raw.isValid_iff_exists_append.mpr ⟨.ofList first, .ofList last, ?_, ?_⟩
  · rw [← String.ofList_append, ← h, String.ofList_toList]
  · rw [byteSize_eq_utf8ByteSize]
    rfl

end DirectiveMarkup.Text
