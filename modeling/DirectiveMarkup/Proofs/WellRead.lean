import DirectiveMarkup.Proofs.Trimming

/-!
# What reading yields

A forest that is read of any markup is canonical but for two things: a value may hold double
quotes, when it was written bare or between single quotes, and texts may stand next to each other,
where a declaration or a closing tag that closes nothing stood between them. The lexemes have this
property one by one, and every step of building a forest keeps it.
-/

namespace DirectiveMarkup.Markup

open DirectiveMarkup.Text (breakAt isBlank)

/-- True of an attribute that can have been read. -/
def Attribute.readable (a : Attribute) : Bool :=
  !a.name.isEmpty && a.name.toList.all isAttributeNameChar

/-- True of a tag that can have been read. -/
def Tag.readable (tag : Tag) : Bool :=
  (tag.name.toList.head?.any Char.isAlpha && tag.name.toList.all isTagNameChar) &&
    tag.attributes.all Attribute.readable

/-- True of a tag whose element may have any children. -/
def Tag.holdsNodes (tag : Tag) : Bool :=
  !isVoid tag.name && !isRawText tag.name

mutual

/-- True of a node that can have been read. -/
def Node.wellRead : Node → Bool
  | .text content => isOneText content.toList
  | .comment body => !decide (['-', '-', '>'] <:+: body.toList)
  | .element tag children =>
    tag.readable &&
      if isVoid tag.name then children.isEmpty
      else if isRawText tag.name then isRawContent tag.name children
      else wellReadForest children

/-- True of a forest that can have been read. -/
def wellReadForest : List Node → Bool
  | [] => true
  | node :: rest => node.wellRead && wellReadForest rest

end

/-- A forest can have been read when its nodes can. -/
theorem wellReadForest_iff {forest : List Node} :
    wellReadForest forest ↔ ∀ node ∈ forest, node.wellRead := by
  induction forest with
  | nil => simp [wellReadForest]
  | cons node rest ih => simp [wellReadForest, ih]

/-! ## Lexemes -/

/-- True of a lexeme as it is cut from markup. -/
def Lexeme.wellRead : Lexeme → Bool
  | .text content => isOneText content.toList
  | .comment body => !decide (['-', '-', '>'] <:+: body.toList)
  | .declaration => true
  | .closing _ => true
  | .opening tag => tag.readable && tag.holdsNodes
  | .leaf tag => tag.readable
  | .raw tag body =>
    tag.readable && !isVoid tag.name && isRawText tag.name &&
      !decide ('<' :: '/' :: (asciiLower tag.name).toList <:+: body.toList.map Char.toLower)

/-- What stands before a pattern does not hold it. -/
theorem not_infix_upTo {pattern : List Char} (hpattern : pattern ≠ []) (text : List Char) :
    ¬ pattern <:+: (upTo pattern text).1 := by
  unfold upTo
  cases h : breakAt pattern text with
  | none => exact Text.of_breakAt_eq_none hpattern h
  | some parts => exact (Text.of_breakAt_eq_some hpattern h).2

/-- A raw text does not hold the closing tag of its element. -/
theorem not_infix_readRawText (name : String) (text : List Char) :
    ¬ '<' :: '/' :: name.toList <:+: (readRawText name text).1.map Char.toLower := by
  unfold readRawText
  cases h : breakAt ('<' :: '/' :: name.toList) (text.map Char.toLower) with
  | none => exact Text.of_breakAt_eq_none (by simp) h
  | some parts =>
    obtain ⟨before, after⟩ := parts
    obtain ⟨htext, hbefore⟩ := Text.of_breakAt_eq_some (by simp) h
    dsimp only
    rwa [List.map_take, htext, List.take_left]

/-- A text that starts with no angle bracket, or with one that opens nothing, is read as one. -/
theorem wellRead_readText {c : Char} {rest : List Char} (h : c ≠ '<' ∨ opensNothing rest) :
    (readText c rest).1.wellRead := by
  have hbody : '<' ∉ rest.takeWhile (· != '<') := fun hmem => by
    simpa using List.mem_takeWhile_imp hmem
  have hopens := h.imp_right (opensNothing_of_begins (List.takeWhile_prefix (· != '<')))
  simpa [readText, Lexeme.wellRead, isOneText, hbody] using hopens

/-- Attributes that are read have names. -/
theorem readable_readAttributes (steps : Nat) (text : List Char) :
    (readAttributes steps text).1.all Attribute.readable := by
  induction steps generalizing text with
  | zero => rfl
  | succ steps ih =>
    rw [readAttributes]
    split
    next => rfl
    next => rfl
    next => rfl
    next c rest _ _ _ =>
      dsimp only
      split
      · exact ih rest
      next hname =>
        have hchars : ∀ d ∈ (c :: rest).takeWhile isAttributeNameChar, isAttributeNameChar d :=
          fun d hd => List.mem_takeWhile_imp hd
        rw [List.all_cons, ih, Bool.and_true, Attribute.readable, String.toList_ofList]
        simpa [List.all_eq_true.mpr hchars] using hname

/-- A letter may stand in a tag name. -/
theorem isTagNameChar_of_isAlpha {c : Char} (h : c.isAlpha) : isTagNameChar c := by
  have hcode : ('A'.val ≤ c.val ∧ c.val ≤ 'Z'.val) ∨ ('a'.val ≤ c.val ∧ c.val ≤ 'z'.val) := by
    rcases Bool.or_eq_true_iff.mp h with hupper | hlower
    · exact .inl (of_decide_eq_true hupper)
    · obtain ⟨hfirst, hlast⟩ := Bool.and_eq_true_iff.mp hlower
      exact .inr ⟨of_decide_eq_true hfirst, of_decide_eq_true hlast⟩
  simp only [UInt32.le_iff_toNat_le, Char.reduceVal, UInt32.reduceToNat] at hcode
  have hslash : c ≠ '/' := by
    rintro rfl
    exact absurd h (by decide)
  have hangle : c ≠ '>' := by
    rintro rfl
    exact absurd h (by decide)
  have hblank : isBlank c = false := by
    simp only [isBlank, Bool.or_eq_false_iff, Bool.and_eq_false_iff, decide_eq_false_iff_not,
      beq_eq_false_iff_ne, Char.toNat]
    omega
  simp [isTagNameChar, hslash, hangle, hblank]

/-- An opening tag that is read has a name and attributes with names, and a raw text in it does
not hold its closing tag. -/
theorem wellRead_readOpening {c : Char} (hc : c.isAlpha) (rest : List Char) :
    (readOpening (c :: rest)).1.wellRead := by
  have hchars : ∀ d ∈ (c :: rest).takeWhile isTagNameChar, isTagNameChar d :=
    fun d hd => List.mem_takeWhile_imp hd
  have hhead : ((c :: rest).takeWhile isTagNameChar).head?.any Char.isAlpha := by
    rw [List.takeWhile_cons_of_pos (isTagNameChar_of_isAlpha hc)]
    exact hc
  have hattributes := readable_readAttributes (((c :: rest).dropWhile isTagNameChar).length + 1)
    ((c :: rest).dropWhile isTagNameChar)
  rw [readOpening]
  dsimp only
  generalize readAttributes _ _ = read at hattributes ⊢
  generalize (c :: rest).takeWhile isTagNameChar = name at hchars hhead ⊢
  have hreadable : Tag.readable ⟨.ofList name, read.1⟩ := by
    rw [Tag.readable, String.toList_ofList, hhead, List.all_eq_true.mpr hchars, hattributes]
    rfl
  by_cases hleaf : read.2.1 || isVoid (asciiLower (.ofList name))
  · rw [if_pos hleaf]
    exact hreadable
  · rw [if_neg hleaf]
    simp only [isVoid_asciiLower, Bool.or_eq_true, not_or] at hleaf
    have hvoid : isVoid (.ofList name) = false := Bool.eq_false_iff.mpr hleaf.2
    split_ifs with hraw
    · have hclosing := not_infix_readRawText (asciiLower (.ofList name)) read.2.2
      rw [Lexeme.wellRead, hreadable, String.toList_ofList, decide_eq_false hclosing, isRawText,
        hraw, hvoid]
      rfl
    · rw [Lexeme.wellRead, hreadable, Tag.holdsNodes, isRawText, hvoid, Bool.eq_false_iff.mpr hraw]
      rfl

/-- An angle bracket opens nothing in front of a character that is no letter and no mark, or of a
slash at the end. -/
theorem opensNothing_cons {d : Char} {rest : List Char} (hd : ¬ d.isAlpha) (hbang : d ≠ '!')
    (hquestion : d ≠ '?') (hslash : ∀ e others, d = '/' → rest = e :: others → False) :
    opensNothing (d :: rest) := by
  by_cases hd' : d = '/'
  · subst hd'
    cases rest with
    | nil => rfl
    | cons e others => exact (hslash e others rfl rfl).elim
  · simp [opensNothing, hd, hbang, hquestion]

/-- The first lexeme of markup is well read. -/
theorem wellRead_readLexeme (c : Char) (rest : List Char) : (readLexeme c rest).1.wellRead := by
  unfold readLexeme
  split_ifs with hc
  · exact wellRead_readText (.inl (by simpa using hc))
  · split
    next rest =>
      have hend := @not_infix_upTo ['-', '-', '>'] (by simp) rest
      simp [Lexeme.wellRead, hend]
    next => rfl
    next => rfl
    next d rest =>
      split_ifs with hd
      · rfl
      · exact wellRead_readText (.inr (by simp [opensNothing, hd]))
    next d rest hcomment hbang hquestion hslash =>
      split_ifs with hd
      · exact wellRead_readOpening hd rest
      · exact wellRead_readText (.inr (opensNothing_cons hd hbang hquestion hslash))
    next => exact wellRead_readText (.inr rfl)

/-- All lexemes of markup are well read. -/
theorem wellRead_lexemes (markup : List Char) : ∀ lexeme ∈ lexemes markup, lexeme.wellRead := by
  suffices h : ∀ steps, ∀ lexeme ∈ lexemesWithin steps markup, lexeme.wellRead from h markup.length
  intro steps
  induction steps generalizing markup with
  | zero => simp [lexemesWithin]
  | succ steps ih =>
    cases markup with
    | nil => simp [lexemesWithin]
    | cons c rest =>
      rw [lexemesWithin, List.forall_mem_cons]
      exact ⟨wellRead_readLexeme c rest, ih (readLexeme c rest).2⟩

/-! ## Growth -/

/-- A growth of nodes that can have been read: what is open may have any children, and its
children, like the finished nodes, can have been read. -/
structure Growth.WellRead (g : Growth) : Prop where
  opened : ∀ e ∈ g.opened,
    (e.tag.readable ∧ e.tag.holdsNodes) ∧ ∀ node ∈ e.children, node.wellRead
  roots : ∀ node ∈ g.roots, node.wellRead

/-- The node that a lexeme adds can have been read. -/
theorem wellRead_of_push {lexeme : Lexeme} {node : Node} (h : lexeme.wellRead)
    (hstep : lexeme.step? = some (.push node)) : node.wellRead := by
  cases lexeme with
  | declaration => exact nomatch hstep
  | closing name => exact nomatch hstep
  | opening tag => exact nomatch hstep
  | text content =>
    obtain rfl := BuildStep.push.inj (Option.some.inj hstep)
    exact h
  | comment body =>
    obtain rfl := BuildStep.push.inj (Option.some.inj hstep)
    exact h
  | leaf tag =>
    obtain rfl := BuildStep.push.inj (Option.some.inj hstep)
    rw [Node.wellRead, show tag.readable = true from h]
    split_ifs <;> rfl
  | raw tag body =>
    obtain rfl := BuildStep.push.inj (Option.some.inj hstep)
    simp only [Lexeme.wellRead, Bool.and_eq_true, Bool.not_eq_true'] at h
    obtain ⟨⟨⟨htag, hvoid⟩, hraw⟩, hclosing⟩ := h
    rw [Node.wellRead, htag, hvoid, hraw]
    by_cases hempty : body.isEmpty
    · simp [hempty, isRawContent]
    · simpa [hempty, isRawContent] using hclosing

namespace Growth

variable {g : Growth}

/-- Nothing is a growth of nodes that can have been read. -/
theorem wellRead_empty : empty.WellRead :=
  ⟨List.forall_mem_nil _, List.forall_mem_nil _⟩

/-- Adding a node that can have been read keeps a growth well read. -/
theorem WellRead.push (h : g.WellRead) {node : Node} (hnode : node.wellRead) :
    (g.push node).WellRead := by
  obtain ⟨opened, roots⟩ := g
  cases opened with
  | nil => exact ⟨h.opened, List.forall_mem_cons.mpr ⟨hnode, h.roots⟩⟩
  | cons e outer =>
    obtain ⟨⟨htag, hchildren⟩, houter⟩ := List.forall_mem_cons.mp h.opened
    have hadded : ∀ child ∈ node :: e.children, child.wellRead :=
      List.forall_mem_cons.mpr ⟨hnode, hchildren⟩
    exact ⟨List.forall_mem_cons.mpr ⟨⟨htag, hadded⟩, houter⟩, h.roots⟩

/-- Opening an element that may have any children keeps a growth well read. -/
theorem WellRead.openElement (h : g.WellRead) {tag : Tag} (htag : tag.readable)
    (hholds : tag.holdsNodes) : (g.openElement tag).WellRead :=
  ⟨List.forall_mem_cons.mpr ⟨⟨⟨htag, hholds⟩, List.forall_mem_nil _⟩, h.opened⟩, h.roots⟩

/-- Closing an element keeps a growth well read. -/
theorem WellRead.closeInnermost (h : g.WellRead) : g.closeInnermost.WellRead := by
  obtain ⟨opened, roots⟩ := g
  cases opened with
  | nil => exact h
  | cons e outer =>
    obtain ⟨⟨⟨htag, hholds⟩, hchildren⟩, houter⟩ := List.forall_mem_cons.mp h.opened
    simp only [Tag.holdsNodes, Bool.and_eq_true, Bool.not_eq_true'] at hholds
    have hforest : wellReadForest e.children.reverse :=
      wellReadForest_iff.mpr fun node hmem => hchildren node (List.mem_reverse.mp hmem)
    have hnode : e.toNode.wellRead := by
      simp [OpenElement.toNode, Node.wellRead, htag, hholds, hforest]
    have hrest : WellRead ⟨outer, roots⟩ := ⟨houter, h.roots⟩
    exact hrest.push hnode

/-- Closing elements keeps a growth well read. -/
theorem WellRead.closeMany (h : g.WellRead) (count : Nat) : (closeMany count g).WellRead := by
  induction count generalizing g with
  | zero => exact h
  | succ count ih => exact ih h.closeInnermost

/-- Closing by name keeps a growth well read. -/
theorem WellRead.close (h : g.WellRead) (name : String) : (g.close name).WellRead := by
  unfold Growth.close
  split
  · exact h.closeMany _
  · exact h

/-- The step of a lexeme keeps a growth well read. -/
theorem WellRead.step (h : g.WellRead) {lexeme : Lexeme} (hlexeme : lexeme.wellRead)
    {step : BuildStep} (hstep : lexeme.step? = some step) : (g.step step).WellRead := by
  cases step with
  | push node => exact h.push (wellRead_of_push hlexeme hstep)
  | close name => exact h.close name
  | openElement tag =>
    cases lexeme with
    | opening other =>
      obtain rfl := BuildStep.openElement.inj (Option.some.inj hstep)
      simp only [Lexeme.wellRead, Bool.and_eq_true] at hlexeme
      exact h.openElement hlexeme.1 hlexeme.2
    | _ => simp [Lexeme.step?] at hstep

/-- The steps of lexemes keep a growth well read. -/
theorem WellRead.foldl_step (h : g.WellRead) {found : List Lexeme}
    (hfound : ∀ lexeme ∈ found, lexeme.wellRead) :
    ((found.filterMap Lexeme.step?).foldl Growth.step g).WellRead := by
  induction found generalizing g with
  | nil => exact h
  | cons lexeme found ih =>
    rw [List.forall_mem_cons] at hfound
    cases hstep : lexeme.step? with
    | none =>
      rw [List.filterMap_cons_none hstep]
      exact ih h hfound.2
    | some step =>
      rw [List.filterMap_cons_some hstep, List.foldl_cons]
      exact ih (h.step hfound.1 hstep) hfound.2

end Growth

/-- Every forest that is read can have been read. -/
theorem wellReadForest_parse (markup : String) : wellReadForest (parse markup) := by
  have hgrowth := Growth.wellRead_empty.foldl_step (wellRead_lexemes markup.toList)
  rw [wellReadForest_iff]
  intro node hmem
  exact (hgrowth.closeMany _).roots node (List.mem_reverse.mp hmem)

end DirectiveMarkup.Markup
