/-!
# Named values

A finite assignment of values to names, as a list. Names are ordered by code point, and binding a
name keeps ascending names ascending, so that each occurs once.
-/

namespace DirectiveMarkup.Expression

/-- Pairs of a name and a value. -/
abbrev Fields (α : Type) := List (String × α)

namespace Fields

variable {α : Type}

/-- The value bound to a name. -/
def find? : Fields α → String → Option α
  | [], _ => none
  | (other, held) :: rest, name => if name = other then some held else find? rest name

/-- Bind a name, replacing the value that it had. -/
def bind (name : String) (value : α) : Fields α → Fields α
  | [] => [(name, value)]
  | (other, held) :: rest =>
    if name < other then (name, value) :: (other, held) :: rest
    else if name = other then (name, value) :: rest
    else (other, held) :: bind name value rest

/-- Bind several names in turn; of two bindings of one name the later stays. -/
def bindAll (fields : Fields α) (bindings : List (String × α)) : Fields α :=
  bindings.foldl (fun fields binding => bind binding.1 binding.2 fields) fields

/-- The assignment that a list of bindings makes. -/
def ofBindings (bindings : List (String × α)) : Fields α :=
  bindAll [] bindings

/-- The name just bound has the new value, and every other name the value that it had. -/
theorem find?_bind (name other : String) (value : α) (fields : Fields α) :
    (bind name value fields).find? other = if other = name then some value else fields.find? other := by
  induction fields with
  | nil => simp [bind, find?]
  | cons pair rest ih =>
    obtain ⟨key, held⟩ := pair
    simp only [bind]
    split
    · simp [find?]
    · split
      · subst_vars
        by_cases h : other = key <;> simp [find?, h]
      · rename_i _ hne
        by_cases h : other = key
        · simp [find?, h, Ne.symm hne]
        · simp [find?, h, ih]

/-! ## Ascending names -/

/-- The names are ascending, so that each occurs once. -/
def Ascending (fields : Fields α) : Prop :=
  fields.Pairwise fun first second => first.1 < second.1

/-- The names after a binding are the name that was bound and those before. -/
theorem eq_or_mem_of_mem_bind {name : String} {value : α} {fields : Fields α} {pair : String × α}
    (h : pair ∈ bind name value fields) : pair.1 = name ∨ pair ∈ fields := by
  induction fields with
  | nil => exact .inl (congrArg Prod.fst (List.mem_singleton.mp h))
  | cons first rest ih =>
    unfold bind at h
    split at h
    · rcases List.mem_cons.mp h with rfl | hmem
      · exact .inl rfl
      · exact .inr hmem
    split at h
    · rcases List.mem_cons.mp h with rfl | hmem
      · exact .inl rfl
      · exact .inr (List.mem_cons_of_mem _ hmem)
    · rcases List.mem_cons.mp h with rfl | hmem
      · exact .inr List.mem_cons_self
      · exact (ih hmem).imp_right (List.mem_cons_of_mem _)

/-- Binding a name keeps the names ascending. -/
theorem Ascending.bind {fields : Fields α} (h : fields.Ascending) (name : String) (value : α) :
    (fields.bind name value).Ascending := by
  induction fields with
  | nil => exact List.pairwise_singleton _ _
  | cons first rest ih =>
    obtain ⟨hfirst, hrest⟩ := List.pairwise_cons.mp h
    unfold Fields.bind
    split
    case isTrue hless =>
      refine List.pairwise_cons.mpr ⟨?_, h⟩
      exact List.forall_mem_cons.mpr
        ⟨hless, fun pair hpair => String.lt_trans hless (hfirst pair hpair)⟩
    case isFalse hless =>
      split
      case isTrue heq => exact List.pairwise_cons.mpr ⟨heq ▸ hfirst, hrest⟩
      case isFalse heq =>
        refine List.pairwise_cons.mpr ⟨fun pair hpair => ?_, ih hrest⟩
        rcases eq_or_mem_of_mem_bind hpair with hname | hmem
        · exact hname ▸ Std.lt_of_le_of_ne (String.not_lt.mp hless) (Ne.symm heq)
        · exact hfirst pair hmem

/-- Binding several names keeps the names ascending. -/
theorem Ascending.bindAll {fields : Fields α} (h : fields.Ascending)
    (bindings : List (String × α)) : (fields.bindAll bindings).Ascending := by
  induction bindings generalizing fields with
  | nil => exact h
  | cons binding bindings ih => exact ih (h.bind binding.1 binding.2)

end Fields

end DirectiveMarkup.Expression
