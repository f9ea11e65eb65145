/-!
# Tables of character codes

A Unicode property is stored as an ascending list of ranges of character codes and looked up
by bisection. The tables leave out the ASCII characters, which every test decides first.
-/

namespace DirectiveMarkup.Text

/-- The character codes from `first` to `last`, both included. -/
structure CodeRange where
  first : Nat
  last : Nat

/-- Bisect an ascending table of entries between the positions `low` and `high`. Each step
halves the interval, so `steps` need only reach the binary logarithm of its length. -/
def bisect {α : Type} (range : α → CodeRange) (table : Array α) (code : Nat) :
    (steps low high : Nat) → Option α
  | 0, _, _ => none
  | steps + 1, low, high =>
    if high ≤ low then none else
      let middle := (low + high) / 2
      match table[middle]? with
      | none => none
      | some entry =>
        if code < (range entry).first then bisect range table code steps low middle
        else if (range entry).last < code then bisect range table code steps (middle + 1) high
        else some entry

/-- The entry of an ascending table whose range holds the code. -/
def findEntry {α : Type} (range : α → CodeRange) (table : Array α) (code : Nat) : Option α :=
  bisect range table code (table.size.log2 + 1) 0 table.size

/-- True when some range of an ascending table holds the code. -/
def holdsCode (table : Array CodeRange) (code : Nat) : Bool :=
  (findEntry id table code).isSome

end DirectiveMarkup.Text
