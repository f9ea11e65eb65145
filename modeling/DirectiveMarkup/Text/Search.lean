/-!
# Occurrences of a pattern in a text

Finding, splitting at and replacing a pattern, on character sequences. Occurrences are taken
from the left and do not overlap. The accumulating forms keep what they have passed in
reverse, so that a text of many million characters needs no deep recursion.
-/

namespace DirectiveMarkup.Text

/-- Search for the pattern with the characters already passed kept in reverse. -/
def breakAfter (pattern : List Char) (passed : List Char) :
    List Char → Option (List Char × List Char)
  | [] => if pattern.isEmpty then some (passed.reverse, []) else none
  | c :: rest =>
    match pattern.isPrefixOf? (c :: rest) with
    | some after => some (passed.reverse, after)
    | none => breakAfter pattern (c :: passed) rest

/-- What stands before and after the first occurrence of the pattern, if it occurs. -/
def breakAt (pattern text : List Char) : Option (List Char × List Char) :=
  breakAfter pattern [] text

/-- True when the pattern occurs in the text. -/
def occursIn (pattern text : List Char) : Bool :=
  (breakAt pattern text).isSome

/-- Split with the finished parts and the current part kept in reverse. While `skip` is
positive the characters still belong to an occurrence that has been recognised. -/
def splitAfter (separator : List Char) (parts : List (List Char)) (current : List Char)
    (skip : Nat) : List Char → List (List Char)
  | [] => (current.reverse :: parts).reverse
  | c :: rest =>
    match skip with
    | skip + 1 => splitAfter separator parts current skip rest
    | 0 =>
      if separator.isPrefixOf (c :: rest) then
        splitAfter separator (current.reverse :: parts) [] (separator.length - 1) rest
      else splitAfter separator parts (c :: current) 0 rest

/-- The parts of the text between the occurrences of a separator, which is not empty. -/
def splitOn (separator text : List Char) : List (List Char) :=
  splitAfter separator [] [] 0 text

/-- Put the separator between the parts. -/
def joinWith (separator : List Char) (parts : List (List Char)) : List Char :=
  separator.intercalate parts

/-- Replace every occurrence of a pattern, which is not empty. -/
def replaceAll (pattern replacement text : List Char) : List Char :=
  joinWith replacement (splitOn pattern text)

/-- Replace the first occurrence of the pattern, if there is one. -/
def replaceFirst (pattern replacement text : List Char) : List Char :=
  match breakAt pattern text with
  | some (before, after) => before ++ replacement ++ after
  | none => text

/-- Letters compare equal when they differ at most in ASCII case. -/
def sameIgnoringCase (a b : String) : Bool :=
  a.toList.map Char.toLower == b.toList.map Char.toLower

/-- Comparison without regard to case is reflexive. -/
@[simp] theorem sameIgnoringCase_self (a : String) : sameIgnoringCase a a = true := by
  simp [sameIgnoringCase]

/-- An empty text has one part, and it is empty. -/
@[simp] theorem splitOn_nil (separator : List Char) : splitOn separator [] = [[]] := rfl

end DirectiveMarkup.Text
