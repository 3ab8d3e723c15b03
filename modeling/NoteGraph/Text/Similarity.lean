import NoteGraph.Keyed
import NoteGraph.Text.Quoted

/-!
# Similar words

Two words are alike as far as they have blocks of letters in common, in the same order.
The longest common block is found first, then the blocks on both sides of it. A word
that is not known is answered with the known words that are most like it.
-/

namespace NoteGraph.Text

/-- The length of the longest common start of two words. -/
def commonStart : List Char → List Char → Nat
  | a :: as, b :: bs => if a = b then commonStart as bs + 1 else 0
  | _, _ => 0

/-- A block of letters that two words have in common, and where it starts in each. -/
structure CommonBlock where
  first : Nat
  second : Nat
  size : Nat

/-- The longest common block; of several the one that starts first in the first word,
then the one that starts first in the second. -/
def longestBlock (a b : List Char) : CommonBlock :=
  let blocks := (List.range a.length).flatMap fun i => (List.range b.length).map fun j =>
    ⟨i, j, commonStart (a.drop i) (b.drop j)⟩
  blocks.foldl (fun best block => if best.size < block.size then block else best) ⟨0, 0, 0⟩

/-- How many letters the common blocks of two words hold together. -/
def commonLetters (a b : List Char) : Nat :=
  match longestBlock a b with
  | ⟨first, second, size⟩ =>
    if 0 < size ∧ first < a.length then
      commonLetters (a.take first) (b.take second) + size +
        commonLetters (a.drop (first + size)) (b.drop (second + size))
    else 0
termination_by a.length
decreasing_by all_goals (simp only [List.length_take, List.length_drop]; omega)

/-- A word with its likeness to another: the common letters out of the letters of both,
counted twice. -/
structure Likeness where
  word : String
  common : Nat
  letters : Nat

namespace Likeness

/-- The likeness of a word to another one. -/
def of (word other : String) : Likeness :=
  let a := word.toList
  let b := other.toList
  let letters := a.length + b.length
  if 10 * min a.length b.length < 3 * letters then ⟨word, 0, letters⟩
  else ⟨word, commonLetters a b, letters⟩

/-- Whether three letters in five are common. -/
def isClose (l : Likeness) : Bool := 3 * l.letters ≤ 10 * l.common

/-- Whether a likeness is at least another; of equal ones the later word counts more. -/
def atLeast (l m : Likeness) : Bool :=
  if l.common * m.letters = m.common * l.letters then decide (¬ l.word < m.word)
  else m.common * l.letters < l.common * m.letters

end Likeness

/-- The at most three known words that are most like a word, in ascending order. -/
def similarWords (known : List String) (word : String) : List String :=
  let close := (known.map fun k => Likeness.of k word).filter Likeness.isClose
  sortNames (((close.mergeSort Likeness.atLeast).take 3).map (·.word))

/-- The suggestion of some words in place of one that is not known. -/
def suggestion (words : List String) : String :=
  let shown := ", ".intercalate (words.map quoted)
  match words with
  | [] => ""
  | [_] => " Did you mean " ++ shown ++ "?"
  | _ => " (Did you mean one of: " ++ shown ++ "?)"

end NoteGraph.Text
