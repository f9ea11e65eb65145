import DirectiveMarkup.Proofs.Marking

/-!
# Readers in front of tokens

A text in which gaps stand between all tokens is followed from token to token. A reader either
takes some tokens, whatever follows among what it allows, or balks at them. Both are told of the
readers that are put together from others, and of those for one character and one word: the gap
behind a token ends it, so the next token alone tells which of two readers goes on.
-/

namespace DirectiveMarkup.Expression

/-! ## Places in a text -/

/-- What is left of a text behind the gap at its front. -/
def skip (text : List Char) : List Char :=
  text.dropWhile Text.isTokenGap

/-- True of a text that is empty or starts with a gap. -/
def Detached (text : List Char) : Prop :=
  ∀ c ∈ text.head?, Text.isTokenGap c

/-- A text starts with the first of its tokens, with gaps between them. -/
def At : List Token → List Char → Prop
  | [], text => text = []
  | token :: tokens, text => ∃ after, text = token ++ after ∧ Detached after ∧ At tokens (skip after)

/-- Behind the gap at its front a text starts with the first of its tokens. -/
def Stands (tokens : List Token) (text : List Char) : Prop :=
  At tokens (skip text)

/-- Skipping twice is skipping once. -/
@[simp] theorem skip_skip (text : List Char) : skip (skip text) = skip text := by
  induction text with
  | nil => rfl
  | cons c rest ih =>
    by_cases hc : Text.isTokenGap c
    · simpa [skip, hc] using ih
    · simp [skip, hc]

/-- Skipping a gap does not move a text. -/
@[simp] theorem stands_skip {tokens : List Token} {text : List Char} :
    Stands tokens (skip text) ↔ Stands tokens text := by
  rw [Stands, skip_skip, Stands]

namespace Reader

variable {α β ι : Type}

/-- Where some tokens stand, and an allowed rest behind them, a reader takes them for a value. -/
def Takes (Place : List Token → List Char → Prop) (allowed : List Token → Prop) (reader : Reader α)
    (tokens : List Token) (value : α) : Prop :=
  ∀ rest text, allowed rest → Place (tokens ++ rest) text →
    ∃ after, reader text = .done value after ∧ Stands rest after

/-- Where some tokens stand, a reader is stuck. -/
def Balks (Place : List Token → List Char → Prop) (reader : Reader α) (tokens : List Token) : Prop :=
  ∀ text, Place tokens text → ∃ after, reader text = .stuck after

section Combinators

variable {Place : List Token → List Char → Prop} {allowed allowed' : List Token → Prop}
  {tokens tokens' : List Token}

/-- A reader takes its tokens before fewer rests too. -/
theorem Takes.mono {reader : Reader α} {a : α} (h : reader.Takes Place allowed tokens a)
    (hallowed : ∀ rest, allowed' rest → allowed rest) : reader.Takes Place allowed' tokens a :=
  fun rest text hrest => h rest text (hallowed rest hrest)

/-- A second reader goes on behind the first. -/
theorem Takes.andThen {first : Reader α} {next : α → Reader β} {a : α} {b : β}
    (hfirst : first.Takes Place allowed tokens a) (hnext : (next a).Takes Stands allowed' tokens' b)
    (hallowed : ∀ rest, allowed' rest → allowed (tokens' ++ rest)) :
    (first.andThen next).Takes Place allowed' (tokens ++ tokens') b := by
  intro rest text hrest hplace
  rw [List.append_assoc] at hplace
  obtain ⟨middle, hread, hmiddle⟩ := hfirst _ text (hallowed rest hrest) hplace
  obtain ⟨after, hread', hafter⟩ := hnext rest middle hrest hmiddle
  exact ⟨after, by simp only [Reader.andThen, hread, hread'], hafter⟩

/-- Changing what was read takes the same tokens. -/
theorem Takes.map {reader : Reader α} {a : α} (h : reader.Takes Place allowed tokens a) (f : α → β) :
    (reader.map f).Takes Place allowed tokens (f a) := by
  intro rest text hrest hplace
  obtain ⟨after, hread, hafter⟩ := h rest text hrest hplace
  exact ⟨after, by simp only [Reader.map, Reader.andThen, hread, succeed], hafter⟩

/-- Of two readers in a row the second is kept. -/
theorem Takes.before {first : Reader α} {second : Reader β} {a : α} {b : β}
    (hfirst : first.Takes Place allowed tokens a) (hsecond : second.Takes Stands allowed' tokens' b)
    (hallowed : ∀ rest, allowed' rest → allowed (tokens' ++ rest)) :
    (first.before second).Takes Place allowed' (tokens ++ tokens') b :=
  hfirst.andThen hsecond hallowed

/-- Of two readers in a row the first is kept. -/
theorem Takes.followedBy {first : Reader α} {second : Reader β} {a : α} {b : β}
    (hfirst : first.Takes Place allowed tokens a) (hsecond : second.Takes Stands allowed' tokens' b)
    (hallowed : ∀ rest, allowed' rest → allowed (tokens' ++ rest)) :
    (first.followedBy second).Takes Place allowed' (tokens ++ tokens') a :=
  hfirst.andThen (hsecond.map _) hallowed

/-- What stands behind a gap is read behind it. -/
theorem Takes.spaced {reader : Reader α} {a : α} (h : reader.Takes At allowed tokens a) :
    (spaced reader).Takes Stands allowed tokens a := by
  intro rest text hrest hplace
  obtain ⟨after, hread, hafter⟩ := h rest (skip text) hrest hplace
  exact ⟨skip after, by rw [Reader.spaced, ← skip, hread, skip], stands_skip.mpr hafter⟩

/-- An optional part that can be taken is. -/
theorem Takes.optional {reader : Reader α} {a : α} (h : reader.Takes Place allowed tokens a) :
    (optional reader).Takes Place allowed tokens (some a) := by
  intro rest text hrest hplace
  obtain ⟨after, hread, hafter⟩ := h rest text hrest hplace
  exact ⟨after, by rw [Reader.optional, hread], hafter⟩

/-- An optional part that does not fit is left out. -/
theorem Balks.optional {reader : Reader α} (h : ∀ rest, allowed rest → reader.Balks Stands rest) :
    (optional reader).Takes Stands allowed [] none := by
  intro rest text hrest hplace
  obtain ⟨after, hread⟩ := h rest hrest text hplace
  exact ⟨text, by rw [Reader.optional, hread], hplace⟩

/-- Reading nothing takes no tokens. -/
theorem takes_succeed (value : α) : (succeed value).Takes Stands allowed [] value :=
  fun _ text _ hplace => ⟨text, rfl, hplace⟩

/-- A reader that is stuck cannot be gone on with. -/
theorem Balks.andThen {first : Reader α} (h : first.Balks Place tokens) (next : α → Reader β) :
    (first.andThen next).Balks Place tokens := by
  intro text hplace
  obtain ⟨after, hread⟩ := h text hplace
  exact ⟨after, by rw [Reader.andThen, hread]⟩

/-- What is stuck behind a gap is stuck before it. -/
theorem Balks.spaced {reader : Reader α} (h : reader.Balks At tokens) :
    (spaced reader).Balks Stands tokens := by
  intro text hplace
  obtain ⟨after, hread⟩ := h (skip text) hplace
  exact ⟨after, by rw [Reader.spaced, ← skip, hread]⟩

/-- The first side of an alternative is taken where it fits. -/
theorem Takes.orElse {first : Reader α} {a : α} (h : first.Takes Place allowed tokens a)
    (second : Reader α) : (first.orElse second).Takes Place allowed tokens a := by
  intro rest text hrest hplace
  obtain ⟨after, hread, hafter⟩ := h rest text hrest hplace
  exact ⟨after, by rw [Reader.orElse, hread], hafter⟩

/-- The second side of an alternative is taken where the first is stuck. -/
theorem Takes.orElse_of_balks {first second : Reader α} {a : α}
    (hfirst : ∀ rest, allowed rest → first.Balks Place (tokens ++ rest))
    (hsecond : second.Takes Place allowed tokens a) :
    (first.orElse second).Takes Place allowed tokens a := by
  intro rest text hrest hplace
  obtain ⟨stuck, hread⟩ := hfirst rest hrest text hplace
  obtain ⟨after, hread', hafter⟩ := hsecond rest text hrest hplace
  exact ⟨after, by rw [Reader.orElse, hread, hread'], hafter⟩

/-- An alternative is stuck when both sides are. -/
theorem Balks.orElse {first second : Reader α} (hfirst : first.Balks Place tokens)
    (hsecond : second.Balks Place tokens) : (first.orElse second).Balks Place tokens := by
  intro text hplace
  obtain ⟨stuck, hread⟩ := hfirst text hplace
  obtain ⟨after, hread'⟩ := hsecond text hplace
  exact ⟨after, by rw [Reader.orElse, hread, hread']⟩

/-- Of several alternatives one is taken when those before it are stuck. -/
theorem takes_oneOf {earlier later : List (Reader α)} {reader : Reader α} {a : α}
    (hearlier : ∀ other ∈ earlier, ∀ rest, allowed rest → other.Balks Place (tokens ++ rest))
    (h : reader.Takes Place allowed tokens a) :
    (oneOf (earlier ++ reader :: later)).Takes Place allowed tokens a := by
  induction earlier with
  | nil =>
    cases later with
    | nil => exact h
    | cons next later => exact h.orElse _
  | cons other earlier ih =>
    have hrest := ih fun other hm => hearlier other (List.mem_cons_of_mem _ hm)
    have hother := hearlier other List.mem_cons_self
    cases hlist : earlier ++ reader :: later with
    | nil => simp at hlist
    | cons next rest =>
      rw [hlist] at hrest
      rw [List.cons_append, hlist]
      exact .orElse_of_balks hother hrest

/-- Several alternatives are stuck when each is. -/
theorem balks_oneOf {readers : List (Reader α)} (h : ∀ reader ∈ readers, reader.Balks Place tokens) :
    (oneOf readers).Balks Place tokens := by
  induction readers with
  | nil => exact fun text _ => ⟨text, rfl⟩
  | cons reader readers ih =>
    have hrest := ih fun other hm => h other (List.mem_cons_of_mem _ hm)
    cases readers with
    | nil => exact h reader List.mem_cons_self
    | cons next readers => exact (h reader List.mem_cons_self).orElse hrest

end Combinators

/-! ## Characters and words -/

/-- The first of some tokens, if there is one, starts with a character of a class. -/
def StartsIn (p : Char → Bool) (tokens : List Token) : Prop :=
  ∀ token ∈ tokens.head?, ∃ c rest, token = c :: rest ∧ p c

/-- A token tells what the tokens from it on start with. -/
theorem startsIn_cons {p : Char → Bool} {c : Char} (hc : p c) (token : List Char)
    (tokens : List Token) : StartsIn p ((c :: token) :: tokens) := by
  rintro _ ⟨⟩
  exact ⟨c, token, rfl, hc⟩

/-- What tokens start with, their text starts with. -/
theorem StartsIn.head {p : Char → Bool} {tokens : List Token} {text : List Char}
    (h : StartsIn p tokens) (hplace : At tokens text) : ∀ c ∈ text.head?, p c := by
  cases tokens with
  | nil => simp [show text = [] from hplace]
  | cons token tokens =>
    obtain ⟨c, rest, rfl, hc⟩ := h token rfl
    obtain ⟨after, rfl, -⟩ := hplace
    simpa using hc

/-- A character of one class is none of another. -/
theorem balks_satisfying {p q : Char → Bool} {tokens : List Token} (h : StartsIn q tokens)
    (hq : ∀ c, q c → p c = false) : (satisfying p).Balks At tokens := by
  intro text hplace
  have hhead := h.head hplace
  cases text with
  | nil => exact ⟨[], rfl⟩
  | cons c rest =>
    exact ⟨c :: rest, by simp [satisfying, hq c (hhead c rfl)]⟩

/-- A character is taken as a token. -/
theorem takes_char (c : Char) : (char c).Takes At (fun _ => True) [[c]] c := by
  rintro rest text - ⟨after, rfl, -, hafter⟩
  exact ⟨after, by simp [char, satisfying], hafter⟩

/-- A word without gaps that begins a token and what is behind it begins the token. -/
theorem prefix_of_prefix_append {word token text : List Char} (h : word <+: token ++ text)
    (hword : ∀ c ∈ word, Text.isTokenGap c = false) (htext : Detached text) : word <+: token := by
  induction token generalizing word with
  | nil =>
    cases word with
    | nil => exact List.nil_prefix
    | cons c word =>
      obtain ⟨after, rfl⟩ := h
      have hgap := htext c rfl
      rw [hword c List.mem_cons_self] at hgap
      exact absurd hgap (by decide)
  | cons d token ih =>
    cases word with
    | nil => exact List.nil_prefix
    | cons c word =>
      rw [List.cons_append, List.cons_prefix_cons] at h
      exact List.cons_prefix_cons.mpr
        ⟨h.1, ih h.2 fun c hc => hword c (List.mem_cons_of_mem _ hc)⟩

/-- A word is taken as a token. -/
theorem takes_word (letters : String) :
    (word letters).Takes At (fun _ => True) [letters.toList] () := by
  rintro rest text - ⟨after, rfl, -, hafter⟩
  exact ⟨after, by simp only [word, Text.isPrefixOf?_eq_some_iff.mpr rfl], hafter⟩

/-- A word is stuck at a token that it does not begin. -/
theorem balks_word {letters : String} {tokens : List Token}
    (hletters : letters.toList ≠ [] ∧ ∀ c ∈ letters.toList, Text.isTokenGap c = false)
    (h : ∀ token ∈ tokens.head?, ¬letters.toList <+: token) : (word letters).Balks At tokens := by
  intro text hplace
  have hnone : letters.toList.isPrefixOf? text = none := by
    by_contra hsome
    obtain ⟨after, hafter⟩ := Option.ne_none_iff_exists'.mp hsome
    have hprefix : letters.toList <+: text := ⟨after, (Text.isPrefixOf?_eq_some_iff.mp hafter).symm⟩
    cases tokens with
    | nil =>
      rw [show text = [] from hplace] at hprefix
      exact hletters.1 (List.prefix_nil.mp hprefix)
    | cons token tokens =>
      obtain ⟨rest, rfl, hdetached, -⟩ := hplace
      exact h token rfl (prefix_of_prefix_append hprefix hletters.2 hdetached)
  exact ⟨text, by simp only [word, hnone]⟩

/-- A token of one character starts with it. -/
theorem startsIn_char (c : Char) (rest : List Token) : StartsIn (· = c) ([c] :: rest) :=
  startsIn_cons (by simp) [] rest

/-- One character is stuck at another. -/
theorem balks_char {c d : Char} (hne : d ≠ c) (rest : List Token) : (char c).Balks At ([d] :: rest) :=
  balks_satisfying (startsIn_char _ rest) (by simpa using hne)

/-- What stands between two brackets is taken with them. -/
theorem takes_between {α : Type} {Place : List Token → List Char → Prop} {opening closing : Reader Char}
    {inner : Reader α} {before behind : Char} {tokens : List Token} {value : α}
    {allowed : List Token → Prop} (hopening : opening.Takes Place (fun _ => True) [[before]] before)
    (hinner : inner.Takes Stands allowed tokens value)
    (hclosing : closing.Takes Stands (fun _ => True) [[behind]] behind)
    (hallowed : ∀ rest, allowed ([behind] :: rest)) :
    ((opening.before inner).followedBy closing).Takes Place (fun _ => True)
      ([before] :: (tokens ++ [[behind]])) value :=
  (hopening.before hinner fun _ _ => trivial).followedBy hclosing fun rest _ => hallowed rest

end Reader

/-! ## Separated tokens -/

/-- A text that consists of tokens, with a gap between any two of them. -/
inductive Separated : List Token → List Char → Prop where
  | nil {gap : List Char} : IsGap gap → Separated [] gap
  | cons {gap text : List Char} {token : Token} {tokens : List Token} :
      IsGap gap → Detached text → Separated tokens text →
      Separated (token :: tokens) (gap ++ (token ++ text))

/-- Separated tokens are laid out. -/
theorem Separated.laidOut {tokens : List Token} {text : List Char} (h : Separated tokens text) :
    LaidOut tokens text := by
  induction h with
  | nil hgap => exact .nil hgap
  | cons hgap _ _ ih => exact .cons hgap ih

/-- Tokens with the same gap behind each are separated. -/
theorem separated_flatMap {gap : List Char} (hgap : IsGap gap) (hne : gap ≠ [])
    (tokens : List Token) : Separated tokens (tokens.flatMap (· ++ gap)) := by
  have hlead : ∀ lead, IsGap lead → Separated tokens (lead ++ tokens.flatMap (· ++ gap)) := by
    induction tokens with
    | nil =>
      intro lead hlead
      rw [List.flatMap_nil, List.append_nil]
      exact .nil hlead
    | cons token tokens ih =>
      intro lead hlead
      rw [List.flatMap_cons, List.append_assoc]
      refine .cons hlead ?_ (ih gap hgap)
      obtain ⟨c, rest, rfl⟩ := List.exists_cons_of_ne_nil hne
      rintro _ ⟨⟩
      exact hgap c List.mem_cons_self
  exact hlead [] fun _ hc => absurd hc List.not_mem_nil

/-- A token is not empty and does not start with a gap. -/
def IsToken (token : Token) : Prop :=
  ∃ c rest, token = c :: rest ∧ Text.isTokenGap c = false

/-- Where separated tokens are laid out they stand, and there are no more than characters. -/
theorem Separated.stands {tokens : List Token} {text : List Char} (h : Separated tokens text)
    (htokens : ∀ token ∈ tokens, IsToken token) :
    Stands tokens text ∧ tokens.length ≤ text.length := by
  have hskip {gap rest : List Char} (hgap : IsGap gap) : skip (gap ++ rest) = skip rest :=
    List.dropWhile_append_of_pos hgap
  induction h with
  | @nil gap hgap =>
    have hall : skip (gap ++ []) = skip [] := hskip hgap
    rw [List.append_nil] at hall
    exact ⟨hall, Nat.zero_le _⟩
  | @cons gap text token tokens hgap hdetached _ ih =>
    obtain ⟨c, rest, rfl, hc⟩ := htokens _ List.mem_cons_self
    obtain ⟨hstands, hlength⟩ := ih fun token htoken => htokens token (List.mem_cons_of_mem _ htoken)
    refine ⟨?_, by simp only [List.length_append, List.length_cons]; omega⟩
    rw [Stands, hskip hgap, List.cons_append, skip, List.dropWhile_cons_of_neg (by simp [hc])]
    exact ⟨text, rfl, hdetached, hstands⟩

end DirectiveMarkup.Expression
