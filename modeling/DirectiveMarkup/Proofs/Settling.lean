import DirectiveMarkup.Proofs.Reading

/-!
# What reading back settles

Markup does not show where one text ends and the next begins, nor that a text is empty. What is
read back of a forest is the settled forest, in which neighbouring texts are joined and empty
ones are left out; nothing else changes.
-/

namespace DirectiveMarkup.Markup

/-! ## Settled forests -/

/-- Put a node in front of a forest. Texts are joined, and an empty text is left out. -/
def attach : Node → List Node → List Node
  | .text content, forest =>
    if content.isEmpty then forest
    else match forest with
      | .text next :: rest => .text (content ++ next) :: rest
      | forest => .text content :: forest
  | node, forest => node :: forest

mutual

/-- A node with the forests inside it settled. -/
def Node.settle : Node → Node
  | .element tag children => .element tag (settleForest children)
  | node => node

/-- A forest with neighbouring texts joined and empty texts left out. -/
def settleForest : List Node → List Node
  | [] => []
  | node :: rest => attach node.settle (settleForest rest)

end

/-- True of a text. -/
def Node.isText : Node → Bool
  | .text _ => true
  | _ => false

mutual

/-- True of a node whose settled form is read back as it is written. -/
def Node.legible : Node → Bool
  | .text content => !content.toList.contains '<'
  | .comment body => !decide (['-', '-', '>'] <:+: body.toList)
  | .element tag children =>
    tag.legible && legibleForest children && (!isVoid tag.name || children.isEmpty) &&
      (!isRawText tag.name || children.all Node.isText)

/-- True of a forest whose settled form is read back as it is written. -/
def legibleForest : List Node → Bool
  | [] => true
  | node :: rest => node.legible && legibleForest rest

end

/-- A forest is legible when its nodes are. -/
theorem legibleForest_iff {forest : List Node} :
    legibleForest forest ↔ ∀ node ∈ forest, node.legible := by
  induction forest with
  | nil => simp [legibleForest]
  | cons node rest ih => simp [legibleForest, ih]

/-- A text is left out when it is empty, joined to a text behind it, or put in front. -/
theorem attach_text (content : String) (forest : List Node) :
    (content = "" ∧ attach (.text content) forest = forest) ∨
    (content ≠ "" ∧ ∃ next rest, forest = .text next :: rest ∧
      attach (.text content) forest = .text (content ++ next) :: rest) ∨
    (content ≠ "" ∧ (∀ next rest, forest ≠ .text next :: rest) ∧
      attach (.text content) forest = .text content :: forest) := by
  by_cases hempty : content = ""
  · exact .inl ⟨hempty, by simp [attach, hempty]⟩
  · match forest with
    | .text next :: rest => exact .inr (.inl ⟨hempty, next, rest, rfl, by simp [attach, hempty]⟩)
    | [] => exact .inr (.inr ⟨hempty, by simp, by simp [attach, hempty]⟩)
    | .comment body :: rest => exact .inr (.inr ⟨hempty, by simp, by simp [attach, hempty]⟩)
    | .element tag children :: rest =>
      exact .inr (.inr ⟨hempty, by simp, by simp [attach, hempty]⟩)

/-- A node that is no text is put in front. -/
theorem attach_of_ne_text {node : Node} (h : ∀ content, node ≠ .text content)
    (forest : List Node) : attach node forest = node :: forest := by
  cases node with
  | text content => exact absurd rfl (h content)
  | comment body => rfl
  | element tag children => rfl

/-- What holds of a node and of all nodes of a forest, and of every text if it holds of one, holds
of all nodes when the node is attached. -/
theorem forall_mem_attach {P : Node → Prop} {node : Node} {forest : List Node}
    (htext : ∀ content joined, P (.text content) → P (.text joined)) (hnode : P node)
    (hforest : ∀ other ∈ forest, P other) : ∀ other ∈ attach node forest, P other := by
  have hfront : ∀ other ∈ node :: forest, P other := List.forall_mem_cons.mpr ⟨hnode, hforest⟩
  cases node with
  | text content =>
    rcases attach_text content forest with ⟨-, h⟩ | ⟨-, next, rest, rfl, h⟩ | ⟨-, -, h⟩
    · rwa [h]
    · rw [h]
      exact List.forall_mem_cons.mpr
        ⟨htext content _ hnode, fun other hmem => hforest other (List.mem_cons_of_mem _ hmem)⟩
    · rwa [h]
  | comment body => exact hfront
  | element tag children => exact hfront

/-- Attaching a node writes it in front. -/
theorem outerMarkup_attach (node : Node) (forest : List Node) :
    outerMarkup (attach node forest) = node.outer ++ outerMarkup forest := by
  cases node with
  | text content =>
    rcases attach_text content forest with ⟨rfl, h⟩ | ⟨-, next, rest, rfl, h⟩ | ⟨-, -, h⟩
    · simp [h, Node.outer]
    · simp [h, Node.outer, String.append_assoc]
    · simp [h]
  | comment body => simp [attach]
  | element tag children => simp [attach]

/-- The text of a forest is that of its nodes. -/
theorem textContent_cons (node : Node) (rest : List Node) :
    textContent (node :: rest) = node.textContent ++ textContent rest := by
  simp [textContent, textContents, String.join_cons]

/-- Attaching a node puts its text in front. -/
theorem textContent_attach (node : Node) (forest : List Node) :
    textContent (attach node forest) = node.textContent ++ textContent forest := by
  cases node with
  | text content =>
    rcases attach_text content forest with ⟨rfl, h⟩ | ⟨-, next, rest, rfl, h⟩ | ⟨-, -, h⟩
    · simp [h, Node.textContent]
    · simp [h, textContent_cons, Node.textContent, String.append_assoc]
    · simp [h, textContent_cons]
  | comment body => simp [attach, textContent_cons]
  | element tag children => simp [attach, textContent_cons]

mutual

/-- A settled node is written in the same way. -/
theorem outer_settle (node : Node) : node.settle.outer = node.outer := by
  match node with
  | .text content => rfl
  | .comment body => rfl
  | .element tag children =>
    rw [Node.settle, Node.outer_element, Node.outer_element, outerMarkup_settleForest children]

/-- A settled forest is written in the same way. -/
theorem outerMarkup_settleForest (forest : List Node) :
    outerMarkup (settleForest forest) = outerMarkup forest := by
  match forest with
  | [] => rfl
  | node :: rest =>
    rw [settleForest, outerMarkup_attach, outer_settle node, outerMarkup_settleForest rest,
      outerMarkup_cons]

end

mutual

/-- A settled node has the same text. -/
theorem textContent_settle (node : Node) : node.settle.textContent = node.textContent := by
  match node with
  | .text content => rfl
  | .comment body => rfl
  | .element tag children => exact textContent_settleForest children

/-- A settled forest has the same text. -/
theorem textContent_settleForest (forest : List Node) :
    textContent (settleForest forest) = textContent forest := by
  match forest with
  | [] => rfl
  | node :: rest =>
    rw [settleForest, textContent_attach, textContent_settle node, textContent_settleForest rest,
      textContent_cons]

end

/-! ## Settled forests are canonical -/

/-- A text without angle brackets that is not empty is read as one lexeme. -/
theorem isOneText_of_legible {content : String} (h : (Node.text content).legible)
    (hempty : content ≠ "") : isOneText content.toList := by
  simp only [Node.legible, Bool.not_eq_true', List.contains_eq_mem, decide_eq_false_iff_not] at h
  cases hcontent : content.toList with
  | nil => exact absurd (String.toList_eq_nil_iff.mp hcontent) hempty
  | cons c body =>
    rw [hcontent, List.mem_cons, not_or] at h
    simp [isOneText, h.2, Ne.symm h.1]

/-- Attaching keeps a forest legible. -/
theorem legibleForest_attach {node : Node} {forest : List Node} (hnode : node.legible)
    (hforest : legibleForest forest) : legibleForest (attach node forest) := by
  cases node with
  | text content =>
    rcases attach_text content forest with ⟨-, h⟩ | ⟨-, next, rest, rfl, h⟩ | ⟨-, -, h⟩
    · rwa [h]
    · rw [h]
      simp_all [legibleForest, Node.legible]
    · rw [h, legibleForest, hnode, hforest, Bool.and_self]
  | comment body => rw [attach_of_ne_text (by simp), legibleForest, hnode, hforest, Bool.and_self]
  | element tag children =>
    rw [attach_of_ne_text (by simp), legibleForest, hnode, hforest, Bool.and_self]

/-- Whether a text runs on is up to what follows it. -/
theorem runsOn_text (first second : String) (forest : List Node) :
    runsOn (.text first) forest = runsOn (.text second) forest := by
  cases forest with
  | nil => rfl
  | cons head rest => cases head <;> rfl

/-- A node runs on only as a text in front of a text. -/
theorem runsOn_of_ne_text {node : Node} {forest : List Node}
    (h : ∀ content next rest, node = .text content → forest ≠ .text next :: rest) :
    runsOn node forest = false := by
  cases node with
  | text content =>
    cases forest with
    | nil => rfl
    | cons head rest =>
      cases head with
      | text next => exact absurd rfl (h content next rest rfl)
      | comment body => rfl
      | element tag children => rfl
  | comment body => rfl
  | element tag children => rfl

/-- Attaching a legible node that is canonical, or a text, keeps a legible forest canonical. -/
theorem canonicalForest_attach {node : Node} {forest : List Node} (hnode : node.legible)
    (hcanonical : (∀ content, node ≠ .text content) → node.canonical)
    (hforest : legibleForest forest) (h : canonicalForest forest) :
    canonicalForest (attach node forest) := by
  have hother (hne : ∀ content, node ≠ .text content) : canonicalForest (node :: forest) := by
    have hrun : runsOn node forest = false :=
      runsOn_of_ne_text fun content _ _ hnode => absurd hnode (hne content)
    simp [canonicalForest, hcanonical hne, hrun, h]
  cases node with
  | text content =>
    rcases attach_text content forest with ⟨-, hattach⟩ | ⟨hne, next, rest, rfl, hattach⟩ |
      ⟨hne, hhead, hattach⟩
    · rwa [hattach]
    · have hjoined : (Node.text (content ++ next)).legible := by
        simp_all [legibleForest, Node.legible]
      have hone := isOneText_of_legible hjoined (by simp [hne])
      simp only [canonicalForest, Bool.and_eq_true] at h
      rw [hattach, canonicalForest, Node.canonical, hone, runsOn_text (content ++ next) next, h.1.2,
        h.2]
      rfl
    · have hrun : runsOn (.text content) forest = false :=
        runsOn_of_ne_text fun _ next rest _ => hhead next rest
      simp [hattach, canonicalForest, Node.canonical, isOneText_of_legible hnode hne, hrun, h]
  | comment body => exact hother (by simp)
  | element tag children => exact hother (by simp)

/-- Texts alone settle to one text that is not empty, or to nothing. -/
theorem settleForest_texts {forest : List Node} (h : forest.all Node.isText) :
    settleForest forest = [] ∨ ∃ body, body ≠ "" ∧ settleForest forest = [.text body] := by
  induction forest with
  | nil => exact .inl rfl
  | cons node rest ih =>
    simp only [List.all_cons, Bool.and_eq_true] at h
    have hrest := ih h.2
    cases node with
    | text content =>
      rw [settleForest, Node.settle.eq_2 _ (by simp)]
      rcases attach_text content (settleForest rest) with ⟨-, hattach⟩ |
        ⟨hne, next, other, hsettled, hattach⟩ | ⟨hne, hhead, hattach⟩
      · rwa [hattach]
      · rcases hrest with hnil | ⟨body, -, hbody⟩
        · simp [hnil] at hsettled
        · obtain ⟨-, rfl⟩ := List.cons.inj (hbody.symm.trans hsettled)
          exact .inr ⟨content ++ next, by simp [hne], hattach⟩
      · rcases hrest with hnil | ⟨body, -, hbody⟩
        · exact .inr ⟨content, hne, by rw [hattach, hnil]⟩
        · exact absurd hbody (hhead body [])
    | comment body => simp [Node.isText] at h
    | element tag children => simp [Node.isText] at h

mutual

/-- A settled node is legible when the node is. -/
theorem legible_settle (node : Node) (h : node.legible) : node.settle.legible := by
  match node with
  | .text content => exact h
  | .comment body => exact h
  | .element tag children =>
    simp only [Node.legible, Bool.and_eq_true, Bool.or_eq_true, Bool.not_eq_true'] at h
    obtain ⟨⟨⟨htag, hchildren⟩, hvoid⟩, hraw⟩ := h
    have hvoid' : isVoid tag.name = false ∨ (settleForest children).isEmpty := by
      refine hvoid.imp_right fun hempty => ?_
      rw [List.isEmpty_iff.mp hempty]
      rfl
    have hraw' : isRawText tag.name = false ∨ (settleForest children).all Node.isText := by
      refine hraw.imp_right fun htexts => ?_
      rcases settleForest_texts htexts with hnil | ⟨body, -, hbody⟩
      · simp [hnil]
      · simp [hbody, Node.isText]
    simp only [Node.settle, Node.legible, Bool.and_eq_true, Bool.or_eq_true, Bool.not_eq_true']
    exact ⟨⟨⟨htag, legibleForest_settle children hchildren⟩, hvoid'⟩, hraw'⟩

/-- A settled forest is legible when the forest is. -/
theorem legibleForest_settle (forest : List Node) (h : legibleForest forest) :
    legibleForest (settleForest forest) := by
  match forest with
  | [] => rfl
  | node :: rest =>
    simp only [legibleForest, Bool.and_eq_true] at h
    exact legibleForest_attach (legible_settle node h.1) (legibleForest_settle rest h.2)

end

/-- Texts alone settle to what a raw-text element can be read with. -/
theorem isRawContent_settleForest {forest : List Node} (h : legibleForest forest)
    (htexts : forest.all Node.isText) (name : String) : isRawContent name (settleForest forest) := by
  rcases settleForest_texts htexts with hnil | ⟨body, hne, hbody⟩
  · rw [hnil]
    rfl
  · have hlegible := legibleForest_settle forest h
    rw [hbody] at hlegible
    have hangle : '<' ∉ body.toList := by simpa [legibleForest, Node.legible] using hlegible
    have hlower : '<' ∉ body.toList.map Char.toLower := by
      intro hmem
      obtain ⟨c, hc, heq⟩ := List.mem_map.mp hmem
      exact toLower_ne_angle (fun e => hangle (e ▸ hc)) heq
    have hpart : ¬ '<' :: '/' :: (asciiLower name).toList <:+: body.toList.map Char.toLower :=
      fun hin => hlower (hin.subset List.mem_cons_self)
    simp [hbody, isRawContent, hne, hpart]

mutual

/-- A legible node that is no text is canonical when it is settled. -/
theorem canonical_settle (node : Node) (h : node.legible)
    (htext : ∀ content, node ≠ .text content) : node.settle.canonical := by
  match node with
  | .text content => exact absurd rfl (htext content)
  | .comment body => exact h
  | .element tag children =>
    simp only [Node.legible, Bool.and_eq_true, Bool.or_eq_true, Bool.not_eq_true'] at h
    obtain ⟨⟨⟨htag, hchildren⟩, hvoid⟩, hraw⟩ := h
    rw [Node.settle, Node.canonical, htag, Bool.true_and]
    split_ifs with hisVoid hisRaw
    · have hempty := hvoid.resolve_left (by simp [hisVoid])
      rw [List.isEmpty_iff.mp hempty]
      rfl
    · exact isRawContent_settleForest hchildren (hraw.resolve_left (by simp [hisRaw])) tag.name
    · exact canonicalForest_settle children hchildren

/-- A legible forest is canonical when it is settled. -/
theorem canonicalForest_settle (forest : List Node) (h : legibleForest forest) :
    canonicalForest (settleForest forest) := by
  match forest with
  | [] => rfl
  | node :: rest =>
    simp only [legibleForest, Bool.and_eq_true] at h
    refine canonicalForest_attach (legible_settle node h.1) (fun hne => ?_)
      (legibleForest_settle rest h.2) (canonicalForest_settle rest h.2)
    refine canonical_settle node h.1 fun content hnode => ?_
    subst hnode
    exact hne content rfl

end

/-- What is read back of a legible forest is the settled forest. -/
theorem parse_legible {forest : List Node} (h : legibleForest forest) :
    parse (outerMarkup forest) = settleForest forest := by
  rw [← outerMarkup_settleForest forest, parse_outerMarkup (canonicalForest_settle forest h)]

end DirectiveMarkup.Markup
