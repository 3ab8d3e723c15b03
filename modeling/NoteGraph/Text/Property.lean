/-!
# Properties of characters

A property that holds on intervals of code points is given by the ascending list of
the code points at which it begins or ceases to hold. A character has the property
when an odd number of these lie at or below it.
-/

namespace NoteGraph.Text

/-- A property of characters, as the ascending code points where it changes. -/
structure Property where
  changes : List Nat

/-- A character has a property when the number of changes up to it is odd. -/
def Property.holds (p : Property) (c : Char) : Bool :=
  (p.changes.takeWhile (· ≤ c.toNat)).length % 2 == 1

end NoteGraph.Text
