import DirectiveMarkup.Proofs.ByteScanner
import DirectiveMarkup.Proofs.Division

/-!
# The scanner does not break down

Whatever the markup is, the scanner gives the forest that is read of it, so no slice is bad and no
loop goes on for ever. Its offsets are never inside a character or beyond the end of the markup, and
every pass of a loop moves it on.

What is shown of each part of the scanner is what it gives and leaves in front of a text, wherever in
a markup the text stands. The offset is then always the number of bytes of what stands before. The
fixed numbers of bytes agree with the characters that were looked at before, and an offset that was
found in a copy in lower case can be used, because a letter and its lower case have as many bytes.
-/

namespace DirectiveMarkup.Markup

open DirectiveMarkup.Text (breakAt byteSize byteSize_nil byteSize_cons byteSize_append
  byteSize_eq_utf8ByteSize isBlank)

/-! ## Slices -/

/-- Only nothing has no bytes. -/
theorem byteSize_pos {text : List Char} (h : text ≠ []) : 0 < byteSize text := by
  obtain ⟨c, rest, rfl⟩ := List.exists_cons_of_ne_nil h
  have hc := c.utf8Size_pos
  rw [byteSize_cons]
  omega

/-- A text has no more characters than bytes. -/
theorem length_le_byteSize (text : List Char) : text.length ≤ byteSize text := by
  induction text with
  | nil => exact Nat.le_refl 0
  | cons c rest ih =>
    have hc := c.utf8Size_pos
    rw [List.length_cons, byteSize_cons]
    omega

/-- A text is cut behind a first part with that many bytes. -/
theorem splitBytes?_eq_some_iff {bytes : Nat} {text first last : List Char} :
    splitBytes? bytes text = some (first, last) ↔ text = first ++ last ∧ byteSize first = bytes := by
  fun_induction splitBytes? bytes text generalizing first with
  | case1 text =>
    constructor
    · rintro ⟨⟩
      exact ⟨rfl, rfl⟩
    · rintro ⟨rfl, hbytes⟩
      by_cases hfirst : first = []
      · rw [hfirst]
        rfl
      · have hpos := byteSize_pos hfirst
        omega
  | case2 bytes =>
    refine iff_of_false nofun ?_
    rintro ⟨htext, hbytes⟩
    rw [(List.append_eq_nil_iff.mp htext.symm).1] at hbytes
    exact nomatch hbytes
  | case3 bytes c rest hfits ih =>
    rw [Option.map_eq_some_iff]
    constructor
    · rintro ⟨⟨front, behind⟩, hparts, ⟨⟩⟩
      obtain ⟨rfl, hbytes⟩ := ih.mp hparts
      refine ⟨rfl, ?_⟩
      rw [byteSize_cons, hbytes]
      exact Nat.add_sub_of_le hfits
    · rintro ⟨htext, hbytes⟩
      cases first with
      | nil => exact nomatch hbytes
      | cons d front =>
        obtain ⟨rfl, rfl⟩ := List.cons.inj htext
        rw [byteSize_cons] at hbytes
        exact ⟨(front, last), ih.mpr ⟨rfl, by omega⟩, rfl⟩
  | case4 bytes c rest hfits =>
    refine iff_of_false nofun ?_
    rintro ⟨htext, hbytes⟩
    cases first with
    | nil => exact nomatch hbytes
    | cons d front =>
      obtain ⟨rfl, -⟩ := List.cons.inj htext
      rw [byteSize_cons] at hbytes
      omega

/-- There is a slice between the byte offsets of two places of a text, and none between others. -/
theorem slice?_eq_some_iff {start stop : Nat} {text part : List Char} :
    slice? start stop text = some part ↔
      ∃ first last, text = first ++ (part ++ last) ∧ byteSize first = start ∧
        byteSize (first ++ part) = stop := by
  simp only [slice?, Option.bind_eq_bind, Option.bind_eq_some_iff, Prod.exists, Option.pure_def,
    Option.some.injEq, splitBytes?_eq_some_iff]
  constructor
  · rintro ⟨front, last, ⟨rfl, hstop⟩, first, part, ⟨rfl, hstart⟩, rfl⟩
    exact ⟨first, last, List.append_assoc _ _ _, hstart, hstop⟩
  · rintro ⟨first, last, rfl, hstart, hstop⟩
    exact ⟨first ++ part, last, ⟨(List.append_assoc _ _ _).symm, hstop⟩, first, part, ⟨rfl, hstart⟩, rfl⟩

/-! ## Events in order -/

/-- An offset at which a character of a text starts, or the text ends. -/
def IsBoundary (markup : List Char) (offset : Nat) : Prop :=
  ∃ first rest, markup = first ++ rest ∧ byteSize first = offset

/-- An event is in order: the scanner stands between characters, a pass moves it on, and a loop ends
at the end of the markup. -/
def Event.InOrder (markup : List Char) : Event → Prop
  | moved offset => IsBoundary markup offset
  | passed _ start stop => start < stop
  | ended _ offset => offset = byteSize markup

section Scans

variable {α β : Type} {first : Scanner α} {next : α → Scanner β} {rest middle after : List Char}
  {value : α} {result : β}

/-- In front of a text a scanner gives a value and leaves a part of the text, wherever in a markup the
text stands, and what it adds to the record is in order. -/
def Scans (scanner : Scanner α) (rest : List Char) (value : α) (after : List Char) : Prop :=
  ∃ taken, taken ++ after = rest ∧ ∀ front events, ∃ more,
    (∀ event ∈ more, event.InOrder (front ++ rest)) ∧
      (scanner.run (front ++ rest)).run ⟨byteSize front, events⟩ =
        .ok (value, ⟨byteSize (front ++ taken), more ++ events⟩)

/-- A scanner goes on behind a value. -/
theorem run_bind_of_scanned {markup : List Char} {progress later : Progress}
    (h : (first.run markup).run progress = .ok (value, later)) (next : α → Scanner β) :
    ((first >>= next).run markup).run progress = ((next value).run markup).run later := by
  rw [ReaderT.run_bind, StateT.run_bind, h]
  rfl

/-- A scanner that only gives a value. -/
theorem scans_pure (value : α) (rest : List Char) : Scans (pure value) rest value rest :=
  ⟨[], rfl, fun front events => ⟨[], List.forall_mem_nil _, by rw [List.append_nil]; rfl⟩⟩

/-- Two scanners in a row. -/
theorem Scans.bind (hfirst : Scans first rest value middle)
    (hnext : Scans (next value) middle result after) : Scans (first >>= next) rest result after := by
  obtain ⟨taken, rfl, hfirst⟩ := hfirst
  obtain ⟨behind, rfl, hnext⟩ := hnext
  refine ⟨taken ++ behind, List.append_assoc _ _ _, fun front events => ?_⟩
  obtain ⟨more, hmore, hrun⟩ := hfirst front events
  obtain ⟨later, hlater, hrunNext⟩ := hnext (front ++ taken) (more ++ events)
  refine ⟨later ++ more, ?_, ?_⟩
  · intro event hevent
    rcases List.mem_append.mp hevent with hm | hm
    · simpa using hlater event hm
    · exact hmore event hm
  · rw [run_bind_of_scanned hrun]
    simpa using hrunNext

end Scans

namespace Scanner

variable {α : Type} {value : α} {rest middle after : List Char}

/-! ## Moving on -/

/-- A slice between places of a text gives its part. -/
theorem run_slice {start stop : Nat} {text part : List Char} (h : slice? start stop text = some part)
    (markup : List Char) (progress : Progress) :
    ((slice start stop text).run markup).run progress = .ok (part, progress) := by
  unfold slice
  rw [h]
  rfl

/-- A slice of what is left is taken without moving. -/
theorem scans_slice {start stop : Nat} {text part : List Char} (h : slice? start stop text = some part)
    (rest : List Char) : Scans (slice start stop text) rest part rest := by
  refine ⟨[], rfl, fun front events => ⟨[], List.forall_mem_nil _, ?_⟩⟩
  rw [run_slice h, List.append_nil]
  rfl

/-- What is left can be looked at. -/
theorem scans_remaining (rest : List Char) : Scans remaining rest rest rest := by
  refine ⟨[], rfl, fun front events => ⟨[], List.forall_mem_nil _, ?_⟩⟩
  have hslice : slice? (byteSize front) (byteSize (front ++ rest)) (front ++ rest) = some rest :=
    slice?_eq_some_iff.mpr ⟨front, [], by simp, rfl, rfl⟩
  unfold remaining
  rw [run_bind_of_scanned rfl, run_bind_of_scanned rfl, run_slice hslice, List.append_nil]
  rfl

/-- The end of the markup is where nothing is left. -/
theorem scans_atEnd (rest : List Char) : Scans atEnd rest rest.isEmpty rest := by
  refine ⟨[], rfl, fun front events => ⟨[], List.forall_mem_nil _, ?_⟩⟩
  have hend : decide (byteSize (front ++ rest) ≤ byteSize front) = rest.isEmpty := by
    cases rest with
    | nil => simp
    | cons c rest =>
      have hc := c.utf8Size_pos
      rw [byteSize_append, byteSize_cons, decide_eq_false (by omega)]
      rfl
  rw [List.append_nil, ← hend]
  rfl

/-- Moving on by the bytes of a part passes that part. -/
theorem scans_advance {bytes : Nat} {taken : List Char} (h : byteSize taken = bytes)
    (after : List Char) : Scans (advance bytes) (taken ++ after) () after := by
  refine ⟨taken, rfl, fun front events => ⟨[.moved (byteSize (front ++ taken))], ?_, ?_⟩⟩
  · intro event hevent
    rw [List.mem_singleton.mp hevent]
    exact ⟨front ++ taken, after, by simp, rfl⟩
  · rw [byteSize_append, h]
    rfl

/-- The first bytes are those of a first part. -/
theorem scans_takeBytes {bytes : Nat} {taken : List Char} (h : byteSize taken = bytes)
    (after : List Char) : Scans (takeBytes bytes) (taken ++ after) taken after := by
  have hslice : slice? 0 bytes (taken ++ after) = some taken :=
    slice?_eq_some_iff.mpr ⟨[], after, rfl, rfl, h⟩
  exact (scans_remaining _).bind ((scans_advance h after).bind (scans_slice hslice after))

/-- With the bytes of all that is left nothing is left behind. -/
theorem scans_takeBytes_all {bytes : Nat} (h : byteSize rest = bytes) :
    Scans (takeBytes bytes) rest rest [] := by
  have htaken := scans_takeBytes h []
  rwa [List.append_nil] at htaken

/-- Characters of a kind are taken as long as there are some. -/
theorem scans_takeWhile (kind : Char → Bool) (rest : List Char) :
    Scans (takeWhile kind) rest (rest.takeWhile kind) (rest.dropWhile kind) := by
  have htaken : Scans (takeBytes (byteSize (rest.takeWhile kind)))
      (rest.takeWhile kind ++ rest.dropWhile kind) (rest.takeWhile kind) (rest.dropWhile kind) :=
    scans_takeBytes rfl _
  rw [List.takeWhile_append_dropWhile] at htaken
  exact (scans_remaining rest).bind htaken

/-- Blanks are passed over. -/
theorem scans_skipBlanks (rest : List Char) : Scans skipBlanks rest () (rest.dropWhile isBlank) :=
  (scans_takeWhile isBlank rest).bind (scans_pure _ _)

section Marks

variable {mark : List Char} {bytes : Nat}

/-- The text up to a mark is taken. -/
theorem scans_takeUntil_of_some {before behind : List Char}
    (h : breakAt mark rest = some (before, behind)) (hmark : mark ≠ []) :
    Scans (takeUntil mark) rest before (mark ++ behind) := by
  obtain ⟨rfl, -⟩ := Text.of_breakAt_eq_some hmark h
  have hstop : byteSize before = (find? mark (before ++ (mark ++ behind))).getD
      (byteSize (before ++ (mark ++ behind))) := by
    rw [find?, h]
    rfl
  exact (scans_remaining _).bind (scans_takeBytes hstop (mark ++ behind))

/-- Without the mark all that is left is taken. -/
theorem scans_takeUntil_of_none (h : breakAt mark rest = none) :
    Scans (takeUntil mark) rest rest [] := by
  have hstop : byteSize rest = (find? mark rest).getD (byteSize rest) := by
    rw [find?, h]
    rfl
  exact (scans_remaining _).bind (scans_takeBytes_all hstop)

/-- A part of that many bytes is passed. -/
theorem scans_advanceWithin {taken : List Char} (h : byteSize taken = bytes) (after : List Char) :
    Scans (advanceWithin bytes) (taken ++ after) () after := by
  have hmin : byteSize taken = min bytes (byteSize (taken ++ after)) := by
    rw [byteSize_append]
    omega
  exact (scans_remaining _).bind (scans_advance hmin after)

/-- At the end there is nothing to pass. -/
theorem scans_advanceWithin_nil (bytes : Nat) : Scans (advanceWithin bytes) [] () [] := by
  have hmin : byteSize [] = min bytes (byteSize []) := (Nat.min_zero bytes).symm
  exact (scans_remaining _).bind (scans_advance hmin [])

/-- The text up to a mark is taken and the mark is passed. -/
theorem scans_takePast (hmark : mark ≠ []) (hbytes : byteSize mark = bytes) (rest : List Char) :
    Scans (takePast mark bytes) rest (upTo mark rest).1 (upTo mark rest).2 := by
  unfold upTo
  cases h : breakAt mark rest with
  | none =>
    exact (scans_takeUntil_of_none h).bind ((scans_advanceWithin_nil bytes).bind (scans_pure _ _))
  | some parts =>
    exact (scans_takeUntil_of_some h hmark).bind
      ((scans_advanceWithin hbytes parts.2).bind (scans_pure _ _))

end Marks

/-! ## Turns of a loop -/

/-- What a computation moves over can be cut out of the markup. -/
theorem scans_spanned {body : Scanner Unit} {taken : List Char}
    (h : Scans body (taken ++ after) () after) : Scans (spanned body) (taken ++ after) taken after := by
  obtain ⟨moved, hmoved, hbody⟩ := h
  obtain rfl := List.append_cancel_right hmoved
  refine ⟨moved, rfl, fun front events => ?_⟩
  obtain ⟨more, hmore, hrun⟩ := hbody front events
  refine ⟨more, hmore, ?_⟩
  have hslice : slice? (byteSize front) (byteSize (front ++ moved)) (front ++ (moved ++ after)) =
      some moved := slice?_eq_some_iff.mpr ⟨front, after, rfl, rfl, rfl⟩
  unfold spanned
  rw [run_bind_of_scanned rfl, run_bind_of_scanned hrun, run_bind_of_scanned rfl,
    run_bind_of_scanned rfl]
  exact run_slice hslice _ _

variable {look : Scanner Bool} {body : Scanner α} (loop : Loop)

/-- A turn with a pass that takes something. -/
theorem scans_turn_pass (hlook : Scans look rest true middle) (hbody : Scans body middle value after)
    (hless : after.length < rest.length) :
    Scans (turn loop look body) rest (some value) after := by
  obtain ⟨passed, rfl, hlook⟩ := hlook
  obtain ⟨taken, rfl, hbody⟩ := hbody
  refine ⟨passed ++ taken, List.append_assoc _ _ _, fun front events => ?_⟩
  obtain ⟨more, hmore, hrun⟩ := hlook front events
  obtain ⟨later, hlater, hrunBody⟩ := hbody (front ++ passed) (more ++ events)
  simp only [List.append_assoc] at hlater hrunBody
  let event : Event := .passed loop (byteSize front) (byteSize (front ++ (passed ++ taken)))
  refine ⟨event :: (later ++ more), ?_, ?_⟩
  · intro other hother
    rcases List.mem_cons.mp hother with rfl | hother
    · have hpos : 0 < byteSize (passed ++ taken) := by
        refine byteSize_pos fun hnil => ?_
        rw [List.append_eq_nil_iff] at hnil
        simp [hnil] at hless
      rw [Event.InOrder, byteSize_append]
      omega
    · rcases List.mem_append.mp hother with hm | hm
      · exact hlater other hm
      · exact hmore other hm
  · unfold turn
    rw [run_bind_of_scanned rfl, run_bind_of_scanned hrun, if_pos rfl, run_bind_of_scanned hrunBody]
    simp only [List.cons_append, List.append_assoc]
    rfl

/-- A turn at the end, where nothing is left. -/
theorem scans_turn_end (hlook : Scans look rest false []) :
    Scans (turn loop look body) rest none [] := by
  obtain ⟨passed, rfl, hlook⟩ := hlook
  refine ⟨passed, rfl, fun front events => ?_⟩
  obtain ⟨more, hmore, hrun⟩ := hlook front events
  refine ⟨.ended loop (byteSize (front ++ passed)) :: more, ?_, ?_⟩
  · intro event hevent
    rcases List.mem_cons.mp hevent with rfl | hm
    · rw [Event.InOrder, List.append_nil]
    · exact hmore event hm
  · unfold turn
    rw [run_bind_of_scanned rfl, run_bind_of_scanned hrun, if_neg Bool.false_ne_true]
    rfl

/-! ## Tags -/

/-- A closing quote is passed if it is there. -/
theorem scans_closingQuote {quote : Char} (hbytes : byteSize [quote] = 1) (rest : List Char) :
    Scans (advanceWithin 1) (rest.dropWhile (· != quote)) ()
      ((rest.dropWhile (· != quote)).drop 1) := by
  have hstop := startsNot_dropWhile (· != quote) rest
  cases hrest : rest.dropWhile (· != quote) with
  | nil => exact scans_advanceWithin_nil 1
  | cons c behind =>
    rw [hrest] at hstop
    obtain rfl : c = quote := by simpa using hstop c rfl
    exact scans_advanceWithin hbytes behind

/-- A value is taken as it is read. -/
theorem scans_readValue (rest : List Char) :
    Scans readValue rest (Markup.readValue rest).1 (Markup.readValue rest).2 := by
  unfold readValue
  refine (scans_remaining rest).bind ?_
  cases rest with
  | nil => exact scans_takeWhile isBareValueChar []
  | cons quote rest =>
    rw [Markup.readValue, List.head?_cons, Option.filter_some]
    by_cases hquote : quote = '"' || quote = '\''
    · have hbytes : byteSize [quote] = 1 := by
        rcases Bool.or_eq_true_iff.mp hquote with h | h <;> rw [of_decide_eq_true h] <;> rfl
      rw [if_pos hquote, if_pos hquote]
      refine (scans_advance hbytes rest).bind ((scans_takeWhile _ rest).bind ?_)
      exact (scans_closingQuote hbytes rest).bind (scans_pure _ _)
    · rw [if_neg hquote, if_neg hquote]
      exact scans_takeWhile isBareValueChar (quote :: rest)

/-- A value with its equals sign is taken as it is read. -/
theorem scans_readAssignment (rest : List Char) :
    Scans readAssignment rest (Markup.readAssignment rest).1 (Markup.readAssignment rest).2 := by
  unfold readAssignment
  refine (scans_remaining rest).bind ?_
  cases rest with
  | nil => exact scans_pure [] []
  | cons c rest =>
    by_cases hc : c = '='
    · subst hc
      have hequals : byteSize ['='] = 1 := rfl
      rw [if_pos (by simp)]
      refine (scans_advance hequals rest).bind ((scans_skipBlanks rest).bind ?_)
      exact scans_readValue (rest.dropWhile isBlank)
    · have hread : Markup.readAssignment (c :: rest) = ([], c :: rest) := by
        simp [Markup.readAssignment, hc]
      rw [if_neg (by simp [Ne.symm hc]), hread]
      exact scans_pure [] (c :: rest)

/-- What is read of a tag, given what a pass finds, what is left behind it and what is read of that. -/
def Found.before (behind : List Char) (read : List Attribute × Bool × List Char) :
    Found → List Attribute × Bool × List Char
  | assigned a => (a :: read.1, read.2)
  | junk => read
  | ending selfClosing => ([], selfClosing, behind)

/-- A pass in front of what is no blank finds what is read there first, and takes something. -/
structure Finds (text : List Char) (found : Found) (after : List Char) : Prop where
  scans : Scans readInTag text found after
  shorter : after.length < text.length
  read : ∀ start steps, start.dropWhile isBlank = text →
    Markup.readAttributes (steps + 1) start = found.before after (Markup.readAttributes steps after)

/-- The end of a tag with a slash is found. -/
theorem finds_slashAngle (rest : List Char) : Finds ('/' :: '>' :: rest) (.ending true) rest where
  scans := by
    have htwo : byteSize ['/', '>'] = 2 := rfl
    unfold readInTag
    refine (scans_remaining _).bind ?_
    rw [if_pos (by simp)]
    exact (scans_advance htwo rest).bind (scans_pure _ _)
  shorter := Nat.lt_add_of_pos_right Nat.two_pos
  read start steps hstart := by
    rw [Markup.readAttributes, hstart]
    rfl

/-- The end of a tag is found. -/
theorem finds_angle (rest : List Char) : Finds ('>' :: rest) (.ending false) rest where
  scans := by
    have hone : byteSize ['>'] = 1 := rfl
    unfold readInTag
    refine (scans_remaining _).bind ?_
    rw [if_neg (by simp), if_pos (by simp)]
    exact (scans_advance hone rest).bind (scans_pure _ _)
  shorter := Nat.lt_succ_self _
  read start steps hstart := by
    rw [Markup.readAttributes, hstart]
    rfl

/-- An attribute is found. -/
theorem exists_finds_name {c : Char} (hname : isAttributeNameChar c) (rest : List Char) :
    ∃ a after, Finds (c :: rest) (.assigned a) after := by
  have hangle : '>' ≠ c := by
    rintro rfl
    exact absurd hname (by decide)
  have hslash : '/' ≠ c := by
    rintro rfl
    exact absurd hname (by decide)
  let behindName := (c :: rest).dropWhile isAttributeNameChar
  let assigned := Markup.readAssignment (behindName.dropWhile isBlank)
  refine ⟨⟨.ofList ((c :: rest).takeWhile isAttributeNameChar), .ofList assigned.1⟩, assigned.2,
    ?_, ?_, fun start steps hstart => readAttributes_name hname hstart steps⟩
  · unfold readInTag
    refine (scans_remaining _).bind ?_
    rw [if_neg (by simp [hslash]), if_neg (by simp [hangle]), if_neg (by simp [hslash])]
    refine (scans_takeWhile isAttributeNameChar (c :: rest)).bind ?_
    rw [if_neg (by simp [hname])]
    refine (scans_skipBlanks behindName).bind ?_
    exact (scans_readAssignment _).bind (scans_pure _ _)
  · have hrest : behindName = rest.dropWhile isAttributeNameChar := List.dropWhile_cons_of_pos hname
    calc assigned.2.length ≤ (behindName.dropWhile isBlank).length := length_readAssignment_le _
      _ ≤ behindName.length := length_dropWhile_le isBlank _
      _ ≤ rest.length := hrest ▸ length_dropWhile_le isAttributeNameChar rest
      _ < (c :: rest).length := Nat.lt_succ_self _

/-- A stray slash or equals sign is passed. -/
theorem finds_junk {c : Char} (hjunk : c = '/' ∨ c = '=') {rest : List Char}
    (hend : ¬ ['/', '>'] <+: c :: rest) : Finds (c :: rest) .junk rest where
  scans := by
    have hname : ¬ isAttributeNameChar c := by rcases hjunk with rfl | rfl <;> decide
    have hangle : '>' ≠ c := by rcases hjunk with rfl | rfl <;> decide
    have hone : byteSize [c] = 1 := by rcases hjunk with rfl | rfl <;> rfl
    have hpass : Scans (do advance 1; return Found.junk) (c :: rest) .junk rest :=
      (scans_advance hone rest).bind (scans_pure _ _)
    unfold readInTag
    refine (scans_remaining _).bind ?_
    rw [if_neg (by simpa using hend), if_neg (by simp [hangle])]
    split_ifs
    · exact hpass
    · have hnone := scans_takeWhile isAttributeNameChar (c :: rest)
      rw [List.takeWhile_cons_of_neg hname, List.dropWhile_cons_of_neg hname] at hnone
      exact hnone.bind hpass
  shorter := Nat.lt_succ_self _
  read start steps hstart := by
    have hname : ¬ isAttributeNameChar c := by rcases hjunk with rfl | rfl <;> decide
    rw [Markup.readAttributes, hstart]
    split
    next hnil => exact absurd hnil (List.cons_ne_nil c rest)
    next htwo => exact absurd ⟨_, htwo.symm⟩ hend
    next hangle =>
      obtain ⟨rfl, -⟩ := List.cons.inj hangle
      exact absurd hjunk (by decide)
    next hcons =>
      obtain ⟨rfl, rfl⟩ := List.cons.inj hcons
      simp [hname, Found.before]

/-- In front of what is no blank something is found. -/
theorem exists_finds {c : Char} (hc : isBlank c = false) (rest : List Char) :
    ∃ found after, Finds (c :: rest) found after := by
  by_cases hend : ['/', '>'] <+: c :: rest
  · obtain ⟨after, hafter⟩ := hend
    rw [← hafter]
    exact ⟨_, _, finds_slashAngle after⟩
  by_cases hangle : c = '>'
  · subst hangle
    exact ⟨_, _, finds_angle rest⟩
  by_cases hname : isAttributeNameChar c
  · obtain ⟨a, after, hfinds⟩ := exists_finds_name hname rest
    exact ⟨_, _, hfinds⟩
  · -- What is neither a blank nor a part of a name and ends no tag is a slash or an equals sign.
    have hjunk : c = '/' ∨ c = '=' := by
      simpa [isJunk, hc] using isJunk_of_not_name (Bool.eq_false_iff.mpr hname) hc hangle
    exact ⟨_, _, finds_junk hjunk hend⟩

/-- Blanks are passed over, and then something is left or not. -/
theorem scans_lookInTag (rest : List Char) :
    Scans lookInTag rest (!(rest.dropWhile isBlank).isEmpty) (rest.dropWhile isBlank) :=
  (scans_skipBlanks rest).bind ((scans_remaining _).bind (scans_pure _ _))

/-- With a step for each character the attributes of a tag are taken as they are read. -/
theorem scans_readAttributes {steps enough : Nat} {rest : List Char} (hsteps : rest.length < steps)
    (henough : rest.length < enough) :
    let read := Markup.readAttributes enough rest
    Scans (readAttributes steps) rest (read.1, read.2.1) read.2.2 := by
  induction steps generalizing enough rest with
  | zero => exact absurd hsteps (Nat.not_lt_zero _)
  | succ steps ih =>
    obtain ⟨enough, rfl⟩ := Nat.exists_eq_succ_of_ne_zero (Nat.ne_zero_of_lt henough)
    have hlook := scans_lookInTag rest
    have hshorter := length_dropWhile_le isBlank rest
    rw [readAttributes]
    cases hrest : rest.dropWhile isBlank with
    | nil =>
      rw [hrest] at hlook
      have hread : Markup.readAttributes (enough + 1) rest = ([], false, []) := by
        rw [Markup.readAttributes, hrest]
      rw [hread]
      exact (scans_turn_end .attributes hlook).bind (scans_pure _ _)
    | cons c others =>
      rw [hrest] at hlook hshorter
      have hc : isBlank c = false := startsNot_dropWhile isBlank rest c (by rw [hrest]; rfl)
      obtain ⟨found, after, hfinds⟩ := exists_finds hc others
      have hafter := hfinds.shorter.trans_le hshorter
      have hturn := scans_turn_pass .attributes hlook hfinds.scans hafter
      have hbehind := @ih enough after (by omega) (by omega)
      rw [hfinds.read rest enough hrest]
      refine hturn.bind ?_
      cases found with
      | assigned a => exact hbehind.bind (scans_pure _ _)
      | junk => exact hbehind
      | ending selfClosing => exact scans_pure _ _

/-! ## Lexemes -/

/-- A character has as many bytes as its lower case. -/
theorem utf8Size_toLower (c : Char) : c.toLower.utf8Size = c.utf8Size := by
  unfold Char.toLower
  split
  next hupper =>
    have hc : c.utf8Size = 1 := by
      rw [Char.utf8Size_eq_one_iff]
      simp only [UInt32.le_iff_toNat_le, ge_iff_le, Char.reduceVal, UInt32.reduceToNat] at hupper ⊢
      omega
    rw [hc, Char.utf8Size_eq_one_iff]
    simp only [UInt32.le_iff_toNat_le, ge_iff_le, UInt32.toNat_add, Char.reduceVal,
      UInt32.reduceToNat, UInt32.reduceSub] at hupper ⊢
    omega
  · rfl

/-- A text has as many bytes as its copy in lower case. -/
theorem byteSize_map_toLower (text : List Char) : byteSize (text.map Char.toLower) = byteSize text := by
  induction text with
  | nil => rfl
  | cons c text ih => rw [List.map_cons, byteSize_cons, byteSize_cons, utf8Size_toLower, ih]

/-- Raw text is taken as it is read. -/
theorem scans_readRawText (name : String) (rest : List Char) :
    Scans (readRawText name) rest (Markup.readRawText name rest).1 (Markup.readRawText name rest).2 := by
  unfold readRawText Markup.readRawText
  refine (scans_remaining rest).bind ?_
  dsimp only
  cases hbreak : breakAt ('<' :: '/' :: name.toList) (rest.map Char.toLower) with
  | none =>
    have hstop : byteSize rest = (find? ('<' :: '/' :: name.toList) (rest.map Char.toLower)).getD
        (byteSize rest) := by
      rw [find?, hbreak]
      rfl
    exact (scans_takeBytes_all hstop).bind ((scans_atEnd []).bind (scans_pure _ _))
  | some parts =>
    obtain ⟨before, behind⟩ := parts
    obtain ⟨hlower, -⟩ := Text.of_breakAt_eq_some (by simp) hbreak
    have hbefore : (rest.take before.length).map Char.toLower = before := by
      rw [List.map_take, hlower, List.take_left]
    have hbehind : (rest.drop before.length).isEmpty = false := by
      have hlength := congrArg List.length hlower
      simp only [List.length_map, List.length_append, List.length_cons] at hlength
      rw [List.isEmpty_eq_false_iff, ← List.length_pos_iff, List.length_drop]
      omega
    -- The offset was found in the copy, where what stands before has as many bytes.
    have hstop : byteSize (rest.take before.length) =
        (find? ('<' :: '/' :: name.toList) (rest.map Char.toLower)).getD (byteSize rest) := by
      rw [find?, hbreak, ← byteSize_map_toLower, hbefore]
      rfl
    have htaken := scans_takeBytes hstop (rest.drop before.length)
    rw [List.take_append_drop] at htaken
    refine htaken.bind ((scans_atEnd _).bind ?_)
    rw [hbehind, if_neg Bool.false_ne_true]
    exact (scans_takePast (List.cons_ne_nil '>' []) rfl _).bind (scans_pure _ _)

/-- An opening tag is taken as it is read. -/
theorem scans_readOpening {steps : Nat} {rest : List Char} (hsteps : rest.length < steps) :
    Scans (readOpening steps) rest (Markup.readOpening rest).1 (Markup.readOpening rest).2 := by
  have hlength := length_dropWhile_le isTagNameChar rest
  have hattributes := scans_readAttributes (hlength.trans_lt hsteps)
    (Nat.lt_succ_self (rest.dropWhile isTagNameChar).length)
  unfold readOpening Markup.readOpening
  dsimp only at hattributes ⊢
  refine (scans_takeWhile isTagNameChar rest).bind (hattributes.bind ?_)
  dsimp only
  split_ifs
  · exact scans_pure _ _
  · exact (scans_readRawText _ _).bind (scans_pure _ _)
  · exact scans_pure _ _

/-- True where a letter follows a mark. -/
def startsTag (mark : List Char) (rest : List Char) : Bool :=
  (mark.isPrefixOf? rest).any fun behind => behind.head?.any Char.isAlpha

/-- What stands where a letter follows a mark. -/
theorem startsTag_iff {mark rest : List Char} :
    startsTag mark rest ↔ ∃ c behind, rest = mark ++ c :: behind ∧ c.isAlpha := by
  rw [startsTag, Option.any_eq_true]
  constructor
  · rintro ⟨behind, hmark, hbehind⟩
    obtain ⟨c, hhead, hc⟩ := (Option.any_eq_true _ _).mp hbehind
    obtain ⟨others, rfl⟩ := List.head?_eq_some_iff.mp hhead
    exact ⟨c, others, Text.isPrefixOf?_eq_some_iff.mp hmark, hc⟩
  · rintro ⟨c, behind, rfl, hc⟩
    exact ⟨c :: behind, Text.isPrefixOf?_eq_some_iff.mpr rfl, hc⟩

/-- A mark in front of a letter is seen without moving. -/
theorem scans_atTag {mark : List Char} {bytes : Nat} (hbytes : byteSize mark = bytes)
    (rest : List Char) : Scans (atTag mark bytes) rest (startsTag mark rest) rest := by
  unfold atTag startsTag
  refine (scans_remaining rest).bind ?_
  cases hmark : mark.isPrefixOf? rest with
  | none =>
    have hno : ¬ mark.isPrefixOf rest := by
      rw [List.isPrefixOf_iff_prefix]
      rintro ⟨behind, hbehind⟩
      exact nomatch hmark.symm.trans (Text.isPrefixOf?_eq_some_iff.mpr hbehind.symm)
    rw [if_neg hno]
    exact scans_pure _ _
  | some behind =>
    obtain rfl := Text.isPrefixOf?_eq_some_iff.mp hmark
    have hslice : slice? bytes (byteSize (mark ++ behind)) (mark ++ behind) = some behind :=
      slice?_eq_some_iff.mpr ⟨mark, [], by simp, hbytes, rfl⟩
    rw [if_pos (List.isPrefixOf_iff_prefix.mpr (List.prefix_append mark behind))]
    exact (scans_slice hslice _).bind (scans_pure _ _)

/-- The text up to a character is taken. -/
theorem scans_takeUntil_char (mark : Char) (rest : List Char) :
    Scans (takeUntil [mark]) rest (rest.takeWhile (· != mark)) (rest.dropWhile (· != mark)) := by
  have hmark : [mark] ≠ [] := List.cons_ne_nil mark []
  have hkind {text : List Char} (h : ¬ [mark] <:+: text) : ∀ c ∈ text, (c != mark) := by
    intro c hc
    rw [bne_iff_ne]
    rintro rfl
    obtain ⟨before, after, htext⟩ := List.append_of_mem hc
    exact h ⟨before, after, by simp [htext]⟩
  cases hbreak : breakAt [mark] rest with
  | none =>
    have hall := hkind (Text.of_breakAt_eq_none hmark hbreak)
    rw [List.takeWhile_eq_self_iff.mpr hall, List.dropWhile_eq_nil_iff.mpr hall]
    exact scans_takeUntil_of_none hbreak
  | some parts =>
    obtain ⟨hrest, hbefore⟩ := Text.of_breakAt_eq_some hmark hbreak
    have hall := hkind hbefore
    have hfound := scans_takeUntil_of_some hbreak hmark
    subst hrest
    rw [List.takeWhile_append_of_pos hall, List.dropWhile_append_of_pos hall]
    simpa using hfound

/-- What opens nothing is taken as a text. -/
theorem scans_readLexeme_text {c : Char} {rest : List Char} (h : c ≠ '<' ∨ opensNothing rest)
    (steps : Nat) :
    Scans (readLexeme steps) (c :: rest) (readText c rest).1 (readText c rest).2 := by
  have hopens {body : List Char} (hbody : c :: rest = '<' :: body) : ¬ Opens body := by
    obtain ⟨hc, rfl⟩ := List.cons.inj hbody
    exact opensNothing_iff.mp (h.resolve_left fun hne => hne hc)
  have hbang : ¬ ['<', '!'] <+: c :: rest := fun ⟨body, hbody⟩ => hopens hbody.symm (.exclamation body)
  have hcomment : ¬ ['<', '!', '-', '-'] <+: c :: rest := fun hmark =>
    hbang (List.IsPrefix.trans ⟨['-', '-'], rfl⟩ hmark)
  have hquestion : ¬ ['<', '?'] <+: c :: rest := fun ⟨body, hbody⟩ =>
    hopens hbody.symm (.question body)
  have hclosing : ¬ startsTag ['<', '/'] (c :: rest) := by
    rw [startsTag_iff]
    rintro ⟨d, behind, hrest, hd⟩
    exact hopens hrest (.closing behind hd)
  have hopening : ¬ startsTag ['<'] (c :: rest) := by
    rw [startsTag_iff]
    rintro ⟨d, behind, hrest, hd⟩
    exact hopens hrest (.letter behind hd)
  have hbody : Scans (do advance ((c :: rest).head?.elim 1 Char.utf8Size); let _ ← takeUntil ['<'])
      ((c :: rest.takeWhile (· != '<')) ++ rest.dropWhile (· != '<')) () (rest.dropWhile (· != '<')) := by
    rw [List.cons_append, List.takeWhile_append_dropWhile]
    have hfirst : byteSize [c] = c.utf8Size := rfl
    exact (scans_advance hfirst rest).bind ((scans_takeUntil_char '<' rest).bind (scans_pure _ _))
  have hspanned := scans_spanned hbody
  rw [List.cons_append, List.takeWhile_append_dropWhile] at hspanned
  unfold readLexeme
  refine (scans_remaining _).bind ?_
  rw [if_neg (by simpa using hcomment), if_neg (by simp [hbang, hquestion])]
  refine (scans_atTag rfl _).bind ?_
  rw [if_neg hclosing]
  refine (scans_atTag rfl _).bind ?_
  rw [if_neg hopening]
  exact hspanned.bind (scans_pure _ _)

/-- A declaration or processing instruction is taken as it is read. -/
theorem scans_readLexeme_declaration {mark : Char} {text : List Char}
    (h : mark = '!' ∧ ¬ ['-', '-'] <+: text ∨ mark = '?') (steps : Nat) :
    Scans (readLexeme steps) ('<' :: mark :: text) .declaration (upTo ['>'] text).2 := by
  have hcomment : ¬ ['<', '!', '-', '-'] <+: '<' :: mark :: text := by
    rcases h with ⟨rfl, hdashes⟩ | rfl
    · simpa using hdashes
    · simp
  have hpast := scans_takePast (List.cons_ne_nil '>' []) rfl ('<' :: mark :: text)
  have hmark : '>' ∉ ['<', mark] := by rcases h with ⟨rfl, -⟩ | rfl <;> decide
  rw [show '<' :: mark :: text = ['<', mark] ++ text from rfl, upTo_append hmark] at hpast
  unfold readLexeme
  refine (scans_remaining _).bind ?_
  rw [if_neg (by simpa using hcomment), if_pos (by rcases h with ⟨rfl, -⟩ | rfl <;> simp)]
  exact hpast.bind (scans_pure _ _)

/-- A lexeme is taken as it is read. -/
theorem scans_readLexeme {steps : Nat} (c : Char) {rest : List Char} (hsteps : rest.length < steps) :
    Scans (readLexeme steps) (c :: rest) (Markup.readLexeme c rest).1
      (Markup.readLexeme c rest).2 := by
  unfold Markup.readLexeme
  split_ifs with hc
  · exact scans_readLexeme_text (.inl (by simpa using hc)) steps
  obtain rfl : c = '<' := by simpa using hc
  split
  next rest =>
    have hfour : byteSize ['<', '!', '-', '-'] = 4 := rfl
    unfold readLexeme
    refine (scans_remaining _).bind ?_
    rw [if_pos (by simp)]
    refine (scans_advance hfour rest).bind ?_
    exact (scans_takePast (List.cons_ne_nil '-' _) rfl rest).bind (scans_pure _ _)
  next rest hcomment =>
    refine scans_readLexeme_declaration (.inl ⟨rfl, ?_⟩) steps
    rintro ⟨body, hbody⟩
    exact hcomment body hbody.symm
  next rest => exact scans_readLexeme_declaration (.inr rfl) steps
  next d rest =>
    split_ifs with hd
    · unfold readLexeme
      refine (scans_remaining _).bind ?_
      rw [if_neg (by simp), if_neg (by simp)]
      refine (scans_atTag rfl _).bind ?_
      have htag : startsTag ['<', '/'] ('<' :: '/' :: d :: rest) := startsTag_iff.mpr ⟨d, rest, rfl, hd⟩
      have htwo : byteSize ['<', '/'] = 2 := rfl
      rw [if_pos htag]
      refine (scans_advance htwo (d :: rest)).bind ((scans_takeWhile _ (d :: rest)).bind ?_)
      exact (scans_takePast (List.cons_ne_nil '>' _) rfl _).bind (scans_pure _ _)
    · exact scans_readLexeme_text (.inr (by simp [opensNothing, hd])) steps
  next d rest hcomment hbang hquestion hslash =>
    split_ifs with hd
    · have htag : startsTag ['<'] ('<' :: d :: rest) := startsTag_iff.mpr ⟨d, rest, rfl, hd⟩
      have hno : ¬ startsTag ['<', '/'] ('<' :: d :: rest) := by
        rw [startsTag_iff]
        rintro ⟨e, behind, hrest, -⟩
        obtain ⟨hslashed, hbehind⟩ := List.cons.inj (List.cons.inj hrest).2
        exact hslash e behind hslashed hbehind
      have hone : byteSize ['<'] = 1 := rfl
      unfold readLexeme
      refine (scans_remaining _).bind ?_
      rw [if_neg (by simp [Ne.symm hbang]), if_neg (by simp [Ne.symm hbang, Ne.symm hquestion])]
      refine (scans_atTag rfl _).bind ?_
      rw [if_neg hno]
      refine (scans_atTag rfl _).bind ?_
      rw [if_pos htag]
      exact (scans_advance hone (d :: rest)).bind (scans_readOpening hsteps)
    · exact scans_readLexeme_text (.inr (opensNothing_cons hd hbang hquestion hslash)) steps
  next => exact scans_readLexeme_text (.inr rfl) steps

/-- With a step for each character the lexemes of a markup are taken as they are read. -/
theorem scans_readLexemes {inner steps : Nat} {rest : List Char} (hinner : rest.length ≤ inner)
    (hsteps : rest.length < steps) :
    Scans (readLexemes inner steps) rest (lexemes rest) [] := by
  induction steps generalizing rest with
  | zero => exact absurd hsteps (Nat.not_lt_zero _)
  | succ steps ih =>
    have hlook : Scans (return !(← atEnd)) rest (!rest.isEmpty) rest :=
      (scans_atEnd rest).bind (scans_pure _ _)
    rw [readLexemes]
    cases rest with
    | nil => exact (scans_turn_end .lexemes hlook).bind (scans_pure _ _)
    | cons c rest =>
      rw [List.length_cons] at hinner hsteps
      have hshorter := length_readLexeme_le c rest
      have hpass := scans_readLexeme c hinner
      have hturn := scans_turn_pass .lexemes hlook hpass (by rw [List.length_cons]; omega)
      rw [lexemes_cons]
      exact hturn.bind ((ih (by omega) (by omega)).bind (scans_pure _ _))

end Scanner

/-! ## Whole runs -/

/-- Between the characters of a text and at its ends there are the valid places of a string. -/
theorem IsBoundary.isValid {markup : String} {offset : Nat} (h : IsBoundary markup.toList offset) :
    String.Pos.Raw.IsValid markup ⟨offset⟩ := by
  obtain ⟨first, rest, hmarkup, rfl⟩ := h
  exact Text.isValid_byteSize hmarkup

/-- A run over a markup gives the forest, and its record is in order. -/
theorem exists_scan_eq_ok (markup : String) :
    ∃ events, scan markup = .ok (parse markup, events) ∧
      ∀ event ∈ events, event.InOrder markup.toList := by
  let steps := byteSize markup.toList + 1
  have hsteps : markup.toList.length < steps := Nat.lt_succ_of_le (length_le_byteSize _)
  obtain ⟨taken, -, hscans⟩ := Scanner.scans_readLexemes (Nat.le_of_lt hsteps) hsteps
  obtain ⟨more, hmore, hrun⟩ := hscans [] [.moved 0]
  refine ⟨more ++ [.moved 0], ?_, ?_⟩
  · rw [List.nil_append, byteSize_nil] at hrun
    unfold scan
    dsimp only
    rw [hrun]
    rfl
  · intro event hevent
    rcases List.mem_append.mp hevent with hm | hm
    · exact hmore event hm
    · rw [List.mem_singleton.mp hm]
      exact ⟨[], markup.toList, rfl, rfl⟩

/-- Reading markup by bytes neither breaks down nor goes on for ever, and gives the forest. The
offset is never beyond the end of the markup or inside a character, each pass of a loop moves it on,
and where a loop finds nothing more to read, the markup ends. -/
theorem scan_inOrder (markup : String) :
    ∃ events, scan markup = .ok (parse markup, events) ∧
      (∀ offset, .moved offset ∈ events →
        offset ≤ markup.utf8ByteSize ∧ String.Pos.Raw.IsValid markup ⟨offset⟩) ∧
      (∀ loop start stop, .passed loop start stop ∈ events → start < stop) ∧
      ∀ loop offset, .ended loop offset ∈ events → offset = markup.utf8ByteSize := by
  obtain ⟨events, hscan, hevents⟩ := exists_scan_eq_ok markup
  refine ⟨events, hscan, fun offset hmoved => ?_, fun loop start stop hpassed => hevents _ hpassed,
    fun loop offset hended => ?_⟩
  · have hvalid := IsBoundary.isValid (hevents _ hmoved)
    exact ⟨hvalid.le_utf8ByteSize, hvalid⟩
  · have hend : offset = byteSize markup.toList := hevents _ hended
    rw [hend, byteSize_eq_utf8ByteSize, String.ofList_toList]

-- A letter of two bytes, then a tag that is not ended and has a stray equals sign.
example : (scan "é<a =").toOption.map Prod.snd = some
    [.ended .lexemes 6, .passed .lexemes 2 6, .ended .attributes 6, .moved 6, .passed .attributes 4 6,
      .moved 6, .moved 5, .moved 5, .moved 4, .moved 3, .passed .lexemes 0 2, .moved 2, .moved 2,
      .moved 0] := by decide +kernel

end DirectiveMarkup.Markup
