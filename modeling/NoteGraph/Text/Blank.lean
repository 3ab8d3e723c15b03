/-!
# Blanks

A blank is a character that shows nothing but space: the space itself, tabs and line
ends, the four information separators, and the space characters of all scripts. Texts
are trimmed of blanks and cut into words at them.
-/

namespace NoteGraph.Text

/-- A space, tab, line end, information separator or other space character. -/
def isBlank (c : Char) : Bool :=
  let n := c.toNat
  (9 ≤ n && n ≤ 13) || (28 ≤ n && n ≤ 32) || n == 0x85 || n == 0xA0 || n == 0x1680 ||
    (0x2000 ≤ n && n ≤ 0x200A) || n == 0x2028 || n == 0x2029 || n == 0x202F ||
    n == 0x205F || n == 0x3000

/-- A text without the blanks at its start. -/
def trimLeft (cs : List Char) : List Char := cs.dropWhile isBlank

/-- A text without the characters of `p` at its end. -/
def dropWhileRight (p : Char → Bool) (cs : List Char) : List Char :=
  (cs.reverse.dropWhile p).reverse

/-- A text without the blanks at its end. -/
def trimRight (cs : List Char) : List Char := dropWhileRight isBlank cs

/-- A text without the blanks at both ends. -/
def trim (cs : List Char) : List Char := trimRight (trimLeft cs)

/-- The blank-free runs of a text, in order. -/
def words (cs : List Char) : List (List Char) :=
  (cs.splitOnP isBlank).filter fun w => !w.isEmpty

/-- The lines of a text: the pieces between its line ends, one more than these. -/
def lines (cs : List Char) : List (List Char) := cs.splitOn '\n'

/-- The string of a trimmed text. -/
def trimmed (cs : List Char) : String := String.ofList (trim cs)

end NoteGraph.Text
