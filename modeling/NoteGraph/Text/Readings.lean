import NoteGraph.Text.Blank

/-!
# Readings

A line can often be cut in several ways. Some functions list what is left of a text after
a run of characters at its front, in order of preference, and a recogniser takes the
first that it can read; others look for the shortest run after which the rest can be
read.
-/

namespace NoteGraph.Text

/-- What is left after a run of `p`-characters at the front, the shortest run first. -/
def restsFrom (p : Char → Bool) : List Char → List (List Char)
  | [] => [[]]
  | c :: rest => (c :: rest) :: if p c then restsFrom p rest else []

/-- What is left after a run of `p`-characters at the front, the longest run first. -/
def restsAfter (p : Char → Bool) (cs : List Char) : List (List Char) :=
  (restsFrom p cs).reverse

/-- What is left after a run of at least one `p`-character, the longest run first. -/
def restsAfterSome (p : Char → Bool) : List Char → List (List Char)
  | [] => []
  | c :: rest => if p c then restsAfter p rest else []

/-- The shortest run of `p`-characters at the front after which `read` can read the rest,
and what it reads. -/
def shortestBefore? {β : Type} (p : Char → Bool) (read : List Char → Option β)
    (cs : List Char) : Option (List Char × β) :=
  match read cs with
  | some value => some ([], value)
  | none =>
    match cs with
    | [] => none
    | c :: rest =>
      if p c then (shortestBefore? p read rest).map fun (run, value) => (c :: run, value)
      else none

/-- The same for runs of at least one character. -/
def someBefore? {β : Type} (p : Char → Bool) (read : List Char → Option β) :
    List Char → Option (List Char × β)
  | [] => none
  | c :: rest =>
    if p c then (shortestBefore? p read rest).map fun (run, value) => (c :: run, value)
    else none

/-- A character that does not end a line. -/
def inLine (c : Char) : Bool := c != '\n'

/-- The end of a text, or the line end that closes it. -/
def atEnd (cs : List Char) : Bool := cs.isEmpty || cs == ['\n']

/-- The whole text when it is one line, without the line end that may close it. -/
def oneLine? (cs : List Char) : Option (List Char) :=
  if atEnd (cs.dropWhile inLine) then some (cs.takeWhile inLine) else none

/-- The whole text when it is one line and not empty. -/
def someLine? (cs : List Char) : Option (List Char) :=
  (oneLine? cs).filter fun line => !line.isEmpty

/-- The line that follows at least one blank, the most blanks skipped that leave one. -/
def lineAfterBlanks? (cs : List Char) : Option (List Char) :=
  (restsAfterSome isBlank cs).findSome? someLine?

/-- What follows `front` in a text that starts with it. -/
def after? (front : List Char) (cs : List Char) : Option (List Char) :=
  if front.isPrefixOf cs then some (cs.drop front.length) else none

/-- The runs of at least one `p`-character at the front that a mark ends, the shortest
first, and what follows the mark. -/
def runsBefore (p : Char → Bool) (mark : List Char) :
    List Char → List (List Char × List Char)
  | [] => []
  | c :: rest =>
    if p c then
      ((after? mark rest).toList.map fun more => ([c], more)) ++
        (runsBefore p mark rest).map fun (run, more) => (c :: run, more)
    else []

/-- A run of `p`-characters, at least one, and what follows it. -/
def run? (p : Char → Bool) (cs : List Char) : Option (List Char × List Char) :=
  let run := cs.takeWhile p
  if run.isEmpty then none else some (run, cs.dropWhile p)

end NoteGraph.Text
