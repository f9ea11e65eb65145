import DirectiveMarkup.Proofs.Remainders
import Mathlib.Data.String.Basic

/-!
# Where faults are reported

The offset of a fault is the number of bytes of a part at the front of the source, so it never stands
inside a character or behind the end. What did not fit the grammar is what stands at this place: the
character there, or the end of the source.

A limit of complexity is exceeded by what starts at the place: a string literal as a whole, the mark
`??`, or a single character. The part in front of it is within the limits, and the part up to its end is
not. For this the marks of a part must be those of the source up to there, which they are because a
part that ends between two marks cuts no string literal and no `??` in two.
-/

namespace DirectiveMarkup.Expression

open Text (byteSize byteSize_cons byteSize_append byteSize_eq_utf8ByteSize)

/-! ## The mark at the front of a text -/

/-- The part of a text that lies inside a string literal: up to its quote, or all of it if the literal is
not ended. -/
def quotedPart : (quoted : Option (Char × Bool)) → List Char → List Char
  | some (quote, escaped), c :: rest => c :: quotedPart (quoteAfter quote escaped c) rest
  | _, _ => []

/-- What is counted at once at the front of a text: the mark `??`, a string literal, or a single
character. -/
def frontMark : List Char → List Char
  | [] => []
  | '?' :: '?' :: _ => ['?', '?']
  | c :: rest => c :: quotedPart (if c = '\'' || c = '"' then some (c, false) else none) rest

/-- The part inside a literal starts the text. -/
theorem quotedPart_isPrefix (quoted : Option (Char × Bool)) (text : List Char) :
    quotedPart quoted text <+: text := by
  fun_induction quotedPart quoted text with
  | case1 quote escaped c rest ih => exact List.cons_prefix_cons.mpr ⟨rfl, ih⟩
  | case2 => exact List.nil_prefix

/-- What is counted at once starts the text. -/
theorem frontMark_isPrefix (text : List Char) : frontMark text <+: text := by
  fun_cases frontMark text with
  | case1 => exact List.nil_prefix
  | case2 rest => exact ⟨rest, rfl⟩
  | case3 c rest _ => exact List.cons_prefix_cons.mpr ⟨rfl, quotedPart_isPrefix _ rest⟩

/-- A character that does not start `??` has its own mark, also in front of a part only of what follows. -/
theorem marksFrom_cons_of_isPrefix {c : Char} {part rest : List Char} (offset : Nat) (hpart : part <+: rest)
    (h : ∀ after, c = '?' → rest = '?' :: after → False) :
    marksFrom none offset (c :: part) = (offset, .ofChar c) ::
      marksFrom (if c = '\'' || c = '"' then some (c, false) else none) (offset + c.utf8Size) part := by
  refine marksFrom.eq_4 offset c part fun after hc hafter => ?_
  obtain ⟨behind, rfl⟩ := hpart
  exact h (after ++ behind) hc (by rw [hafter]; rfl)

/-! ## The first mark beyond a limit -/

/-- In a text that starts at an offset a limit is exceeded at a place: by what is counted at once there,
behind a part that is within the limits. -/
def ExceededAt (load : Load) (quoted : Option (Char × Bool)) (offset : Nat) (text : List Char)
    (place : Nat) (fault : Fault) : Prop :=
  ∃ before after, text = before ++ after ∧ after ≠ [] ∧ place = offset + byteSize before ∧
    firstExcess load (marksFrom quoted offset before) = none ∧
    firstExcess load (marksFrom quoted offset (before ++ frontMark after)) = some (place, fault)

section Excess

variable {load : Load} {quoted : Option (Char × Bool)} {offset place : Nat} {text : List Char}
  {mark : Mark} {marks : List (Nat × Mark)} {fault : Fault}

/-- A mark that exceeds a limit is the first. -/
theorem firstExcess_cons_of_some (h : (load.step mark).fault? = some fault) :
    firstExcess load ((offset, mark) :: marks) = some (offset, fault) := by
  rw [firstExcess, h]

/-- A mark within the limits is passed. -/
theorem firstExcess_cons_of_none (h : (load.step mark).fault? = none) :
    firstExcess load ((offset, mark) :: marks) = firstExcess (load.step mark) marks := by
  rw [firstExcess, h]

/-- A limit is exceeded at the first mark, or at a place behind it. -/
theorem exceededAt_of_head (head : List Char) (mark : Mark) (quoted : Option (Char × Bool))
    (hhead : head ≠ [])
    (hmarks : ∀ part, part <+: text → marksFrom none offset (head ++ part) =
      (offset, mark) :: marksFrom quoted (offset + byteSize head) part)
    (hfront : frontMark (head ++ text) = head ++ quotedPart quoted text)
    (htext : firstExcess (load.step mark) (marksFrom quoted (offset + byteSize head) text) =
        some (place, fault) →
      ExceededAt (load.step mark) quoted (offset + byteSize head) text place fault)
    (h : firstExcess load (marksFrom none offset (head ++ text)) = some (place, fault)) :
    ExceededAt load none offset (head ++ text) place fault := by
  rw [hmarks text List.prefix_rfl] at h
  cases hfault : (load.step mark).fault? with
  | some first =>
    rw [firstExcess_cons_of_some hfault] at h
    obtain ⟨rfl, rfl⟩ := Prod.mk.inj (Option.some.inj h)
    refine ⟨[], head ++ text, rfl, List.append_ne_nil_of_left_ne_nil hhead _, rfl, ?_, ?_⟩
    · rw [marksFrom, firstExcess]
    · rw [List.nil_append, hfront, hmarks _ (quotedPart_isPrefix quoted text)]
      exact firstExcess_cons_of_some hfault
  | none =>
    rw [firstExcess_cons_of_none hfault] at h
    obtain ⟨before, after, rfl, hafter, hplace, hbefore, hexcess⟩ := htext h
    refine ⟨head ++ before, after, (List.append_assoc _ _ _).symm, hafter, ?_, ?_, ?_⟩
    · rw [hplace, byteSize_append, Nat.add_assoc]
    · rw [hmarks before (List.prefix_append before after), firstExcess_cons_of_none hfault]
      exact hbefore
    · rw [List.append_assoc, hmarks _ ((List.prefix_append_right_inj before).mpr (frontMark_isPrefix after)),
        firstExcess_cons_of_none hfault]
      exact hexcess

/-- Where a limit is exceeded first, what is counted at once exceeds it. -/
theorem exceededAt_of_firstExcess (load : Load)
    (h : firstExcess load (marksFrom quoted offset text) = some (place, fault)) :
    ExceededAt load quoted offset text place fault := by
  -- The recursion of the marks: inside of a literal, at `??`, and at any other character.
  induction quoted, offset, text using marksFrom.induct generalizing load with
  | case1 => simp [marksFrom, firstExcess] at h
  | case2 offset quote escaped c rest ih =>
    rw [marksFrom] at h
    obtain ⟨before, after, rfl, hafter, hplace, hbefore, hexcess⟩ := ih _ h
    refine ⟨c :: before, after, rfl, hafter, ?_, ?_, ?_⟩
    · rw [hplace, byteSize_cons, Nat.add_assoc]
    · rw [marksFrom]
      exact hbefore
    · rw [List.cons_append, marksFrom]
      exact hexcess
  | case3 offset rest ih =>
    exact exceededAt_of_head ['?', '?'] .coalesce none (by simp)
      (fun part _ => by rw [List.cons_append, List.singleton_append, marksFrom]; rfl)
      (by simp [frontMark, quotedPart]) (ih _) h
  | case4 offset c rest hne quoted ih =>
    exact exceededAt_of_head [c] (.ofChar c) _ (by simp)
      (fun part hpart => marksFrom_cons_of_isPrefix offset hpart hne)
      (frontMark.eq_3 c rest hne) (ih _) h

/-- The counts exceed a limit by nesting or by operators. -/
theorem isLimit_of_fault? (h : load.fault? = some fault) :
    fault = .tooDeep ∨ fault = .tooManyOperators := by
  unfold Load.fault? at h
  split_ifs at h
  · exact .inl (Option.some.inj h).symm
  · exact .inr (Option.some.inj h).symm

/-- The first mark beyond a limit exceeds it by nesting or by operators. -/
theorem isLimit_of_firstExcess (h : firstExcess load marks = some (place, fault)) :
    fault = .tooDeep ∨ fault = .tooManyOperators := by
  induction marks generalizing load with
  | nil => simp [firstExcess] at h
  | cons first marks ih =>
    obtain ⟨offset, mark⟩ := first
    cases hfault : (load.step mark).fault? with
    | some excess =>
      rw [firstExcess_cons_of_some hfault] at h
      exact (Prod.mk.inj (Option.some.inj h)).2 ▸ isLimit_of_fault? hfault
    | none =>
      rw [firstExcess_cons_of_none hfault] at h
      exact ih h

end Excess

/-! ## Places of faults -/

/-- The characters of the wording of an unexpected character. -/
theorem Fault.toList_message_unexpected (c : Char) :
    (Fault.unexpected c).message.toList = "unexpected '".toList ++ c :: "'".toList := by
  change ("unexpected '" ++ String.singleton c ++ "'").toList = _
  rw [String.toList_append, String.toList_append, String.toList_singleton, List.append_assoc,
    List.singleton_append]

/-- Only an unexpected character is worded as one, and as this one. -/
theorem Fault.eq_unexpected_of_message {fault : Fault} {c : Char}
    (h : fault.message = "unexpected '" ++ c.toString ++ "'") : fault = .unexpected c := by
  have hletters : fault.message.toList = "unexpected '".toList ++ c :: "'".toList :=
    (congrArg String.toList h).trans (toList_message_unexpected c)
  cases fault with
  | unexpected d =>
    rw [toList_message_unexpected] at hletters
    rw [(List.cons.inj (List.append_cancel_left hletters)).1]
  | unexpectedEnd | tooDeep | tooManyOperators =>
    exact absurd (congrArg (List.take 12) hletters) (by rw [List.take_left' (by decide)]; decide)

/-- Only an unexpected end is worded as one. -/
theorem Fault.eq_unexpectedEnd_of_message {fault : Fault}
    (h : fault.message = "unexpected end of expression") : fault = .unexpectedEnd := by
  cases fault with
  | unexpected c =>
    have hletters := (toList_message_unexpected c).symm.trans (congrArg String.toList h)
    exact absurd (congrArg (List.take 12) hletters) (by rw [List.take_left' (by decide)]; decide)
  | unexpectedEnd => rfl
  | tooDeep | tooManyOperators => exact absurd h (by decide)

/-- The character at the end of a part of a string is the first of what follows the part. -/
theorem get?_byteSize {source : String} {first last : List Char} (h : source.toList = first ++ last) :
    String.Pos.Raw.get? source ⟨byteSize first⟩ = last.head? := by
  have hsize : byteSize first = String.utf8Len first := by
    induction first generalizing source with
    | nil => rfl
    | cons c first ih =>
      rw [byteSize_cons, String.utf8Len_cons, ih String.toList_ofList, Nat.add_comm]
  rw [hsize, ← String.get?_of_valid, ← h, String.ofList_toList]

/-- A place of a source, between what stands before it and behind it, is the right one for a fault. -/
structure Fault.PointsInto (source : String) (before after : List Char) (fault : Fault) : Prop where
  /-- The place lies within the source, between characters or at an end. -/
  source_eq : source.toList = before ++ after
  offset_le : byteSize before ≤ source.utf8ByteSize
  isValid : String.Pos.Raw.IsValid source ⟨byteSize before⟩
  /-- Where the grammar is at fault, what is behind the place is what was left to read, and not longer
  than the source. -/
  left : excess? source.toList = none → readWhole source.toList = .error after ∧
    byteSize after ≤ source.utf8ByteSize ∧ byteSize before = source.utf8ByteSize - byteSize after
  /-- An unexpected character is the one at the place. -/
  unexpected : ∀ c, fault.message = "unexpected '" ++ c.toString ++ "'" →
    String.Pos.Raw.get? source ⟨byteSize before⟩ = some c
  /-- An unexpected end is the end. -/
  atEnd : fault.message = "unexpected end of expression" → byteSize before = source.utf8ByteSize
  /-- A limit is kept by what is before the place, and exceeded by what starts there. -/
  limit : fault = .tooDeep ∨ fault = .tooManyOperators → after ≠ [] ∧
    before ++ frontMark after <+: source.toList ∧ excess? before = none ∧
    excess? (before ++ frontMark after) = some (byteSize before, fault)

section Source

variable {source : String} {before after : List Char} {fault : Fault}

/-- The bytes of two parts of a string are its bytes. -/
theorem byteSize_add_byteSize (h : source.toList = before ++ after) :
    byteSize before + byteSize after = source.utf8ByteSize := by
  rw [← byteSize_append, ← h, byteSize_eq_utf8ByteSize, String.ofList_toList]

/-- The fault of a source that does not fit the grammar is what is in front of what was left to read. -/
theorem Fault.pointsInto_of_readWhole (hsource : source.toList = before ++ after)
    (hread : readWhole source.toList = .error after) :
    (Fault.atFront after).PointsInto source before after := by
  have hsize := byteSize_add_byteSize hsource
  refine ⟨hsource, by omega, Text.isValid_byteSize hsource,
    fun _ => ⟨hread, by omega, by omega⟩, ?_, ?_, ?_⟩
  · intro c hmessage
    have hfront := eq_unexpected_of_message hmessage
    rw [get?_byteSize hsource]
    cases after with
    | nil => exact nomatch hfront
    | cons d rest => exact congrArg some (Fault.unexpected.inj hfront)
  · intro hmessage
    have hfront := eq_unexpectedEnd_of_message hmessage
    cases after with
    | nil => exact hsize
    | cons d rest => exact nomatch hfront
  · intro hlimit
    cases after <;> exact nomatch hlimit

/-- The fault of a source that exceeds a limit is what exceeds it first. -/
theorem Fault.pointsInto_of_excess? {place : Nat} (hexcess : excess? source.toList = some (place, fault)) :
    ∃ before after, place = byteSize before ∧ fault.PointsInto source before after := by
  have hlimit := isLimit_of_firstExcess hexcess
  obtain ⟨before, after, hsource, hafter, hplace, hbefore, hmark⟩ :=
    exceededAt_of_firstExcess .start hexcess
  rw [Nat.zero_add] at hplace
  subst hplace
  have hsize := byteSize_add_byteSize hsource
  have hprefix : before ++ frontMark after <+: source.toList :=
    hsource ▸ (List.prefix_append_right_inj before).mpr (frontMark_isPrefix after)
  refine ⟨before, after, rfl, hsource, by omega, Text.isValid_byteSize hsource, ?_, ?_, ?_,
    fun _ => ⟨hafter, hprefix, hbefore, hmark⟩⟩
  · intro hnone
    exact nomatch hnone.symm.trans hexcess
  · intro c hmessage
    rw [eq_unexpected_of_message hmessage] at hlimit
    exact nomatch hlimit
  · intro hmessage
    rw [eq_unexpectedEnd_of_message hmessage] at hlimit
    exact nomatch hlimit

/-- A source that is not accepted is refused for a fault at a place of it. -/
theorem exists_pointsInto_of_parse {error : EvalError} (h : parse source = .error error) :
    ∃ before after fault, error = .malformed source (byteSize before) fault ∧
      fault.PointsInto source before after := by
  cases hexcess : excess? source.toList with
  | some excess =>
    obtain ⟨before, after, hplace, hpoints⟩ := Fault.pointsInto_of_excess? hexcess
    have herror := Except.error.inj (h.symm.trans (parse_of_excess? hexcess))
    exact ⟨before, after, excess.2, hplace ▸ herror, hpoints⟩
  | none =>
    cases hread : readWhole source.toList with
    | ok expr => exact nomatch h.symm.trans (parse_eq_ok_iff.mpr ⟨hexcess, hread⟩)
    | error after =>
      obtain ⟨before, hsource⟩ := suffix_of_readWhole hread
      have herror := Except.error.inj (h.symm.trans (parse_of_readWhole hexcess hsource.symm hread))
      exact ⟨before, after, .atFront after, herror, Fault.pointsInto_of_readWhole hsource.symm hread⟩

end Source

/-- A sign that the grammar does not know, and a bracket too many, behind a string with a letter of two
bytes. -/
theorem exists_pointsInto_of_parse_letter :
    let deep := "'é'((((((((((((((((((((((((((((((((("
    (parse "'é'~" = .error (.malformed "'é'~" 4 (.unexpected '~')) ∧
        String.Pos.Raw.get? "'é'~" ⟨4⟩ = some '~') ∧
      parse deep = .error (.malformed deep 36 .tooDeep) ∧
        ∃ before after, deep.toList = before ++ after ∧ byteSize before = 36 ∧ excess? before = none ∧
          excess? (before ++ frontMark after) = some (36, .tooDeep) := by
  intro deep
  have hsign : parse "'é'~" = .error (.malformed "'é'~" 4 (.unexpected '~')) := rfl
  have hdeep : parse deep = .error (.malformed deep 36 .tooDeep) :=
    parse_of_excess? (by decide +kernel)
  refine ⟨⟨hsign, ?_⟩, hdeep, ?_⟩
  · obtain ⟨before, after, fault, herror, hpoints⟩ := exists_pointsInto_of_parse hsign
    obtain ⟨-, hplace, rfl⟩ := EvalError.malformed.inj herror
    exact hplace ▸ hpoints.unexpected '~' rfl
  · obtain ⟨before, after, fault, herror, hpoints⟩ := exists_pointsInto_of_parse hdeep
    obtain ⟨-, hplace, rfl⟩ := EvalError.malformed.inj herror
    obtain ⟨-, -, hbefore, hexcess⟩ := hpoints.limit (.inl rfl)
    exact ⟨before, after, hpoints.source_eq, hplace.symm, hbefore, hplace ▸ hexcess⟩

end DirectiveMarkup.Expression
