import NoteGraph.Ledger.Amount
import NoteGraph.Ledger.Basic
import NoteGraph.Text.Lowercase

/-!
# Reading a ledger

A ledger is read line by line. Up to a line of three dashes it declares accounts and
lists transactions in rows of cells between bars, with header and separator rows left
out; after that line it asks for reports. Blank lines and comments are skipped
everywhere, and a line that cannot be read is a problem of its own and does not hinder
the others.
-/

namespace NoteGraph.Ledger

open Text

/-! ### Rows -/

/-- The cells of a row: the trimmed texts between the bars, the first and last of which
start and end the row. -/
def cells? (line : List Char) : Option (List (List Char)) :=
  match (after? ['|'] line).bind oneLine? with
  | none => none
  | some inner =>
    if inner.getLast? = some '|' && !inner.dropLast.isEmpty then
      some ((inner.dropLast.splitOn '|').map trim)
    else none

/-- The first cells of header rows. -/
def headerWords : List (List Char) :=
  ["date".toList, "description".toList, "amount".toList]

/-- Whether cells are those of a header row. -/
def isHeader (cells : List (List Char)) : Bool :=
  3 ≤ cells.length && cells.head?.any fun first => headerWords.contains (lower first)

/-- Whether a line is a separator row: blanks, dashes, colons and bars between two
bars. -/
def isSeparator (line : List Char) : Bool :=
  match after? ['|'] line with
  | none => false
  | some inner =>
    inner.getLast? = some '|' && !inner.dropLast.isEmpty &&
      inner.dropLast.all fun c => isBlank c || c = '-' || c = ':' || c = '|'

/-- Whether a cell is a date with dashes that the calendar has. -/
def isDate (cell : List Char) : Bool :=
  match cell with
  | [_, _, _, _, '-', _, _, '-', _, _] => (Date.read (String.ofList cell)).isOk
  | _ => false

/-- The accounts on both sides of the first arrow that has text on both sides. -/
def cutArrow? : List Char → Option (List Char × List Char)
  | [] => none
  | c :: rest =>
    match after? ['-', '>'] rest with
    | some (t :: target) => some ([c], t :: target)
    | _ => (cutArrow? rest).map fun (source, target) => (c :: source, target)

/-- The words of a text that start with a hash, without it. -/
def tags (cs : List Char) : List String :=
  (words cs).filterMap fun word => (after? ['#'] word).map String.ofList

/-- The transaction that a row states. -/
def Transaction.ofLine? (line : List Char) (number : Option Nat) :
    Option (Transaction Number) :=
  match cells? line with
  | some (date :: description :: amount :: account :: rest) =>
    if isDate date then
      match leadingNumber (String.ofList amount) with
      | .ok (some amount) =>
        let (source, target) := match cutArrow? account with
          | some (source, target) => (trimmed source, some (trimmed target))
          | none => (String.ofList account, none)
        some
          { date := String.ofList date
            description := String.ofList description
            amount
            account := source
            target
            categories := rest.flatMap tags
            line := number }
      | _ => none
    else none
  | _ => none

/-! ### Accounts -/

/-- The plain fraction that ends a line after at least one blank. -/
def finalAmount? (cs : List Char) : Option Number :=
  let amount := cs.dropWhile isBlank
  if cs.head?.any isBlank && isPlainFraction amount then
    (Number.readNumeral? amount).map .float
  else none

/-- The account that a line declares: a name and a plain fraction, with blanks before,
between and, if the name would be empty otherwise, in the name. -/
def Account.ofLine? (line : List Char) : Option (Account Number) :=
  (after? "@account".toList line).bind fun rest =>
    (restsAfterSome isBlank rest).findSome? fun rest =>
      (someBefore? inLine finalAmount? rest).map fun (name, opening) =>
        ⟨String.ofList name, opening⟩

/-! ### Directives -/

/-- The directive that a line gives. -/
def Directive.ofLine? (line : List Char) : Option Directive :=
  match (words line).map String.ofList with
  | "balance" :: _ => some .balance
  | "summary" :: rest => some (.summary (rest.flatMap fun word => tags word.toList))
  | "chart" :: kind :: rest =>
    (ChartKind.ofName? kind).bind fun kind =>
      (Period.ofName? (rest.head?.getD Period.categories.name)).map (.chart kind)
  | _ => none

/-! ### Lines -/

/-- What a line says. -/
inductive Line where
  | skipped
  /-- The line after which reports are asked for. -/
  | divider
  | account (account : Account Number)
  | transaction (transaction : Transaction Number)
  | directive (directive : Directive)
  | problem (problem : Problem)
  deriving DecidableEq

/-- Whether a trimmed line is a comment. -/
def isComment (line : List Char) : Bool :=
  (after? ['#'] line).any fun rest => rest.head?.any isBlank

/-- What a line before the divider says, if it is neither blank nor a comment. -/
def Line.ofEntry (number : Nat) (line : List Char) : Line :=
  if isSeparator line then .skipped
  else
    match Account.ofLine? line with
    | some a => .account a
    | none =>
      if (cells? line).any isHeader then .skipped
      else
        match Transaction.ofLine? line (some number) with
        | some t => .transaction t
        | none => .problem ⟨.unreadable, number, String.ofList line⟩

/-- What a line after the divider says, if it is neither blank nor a comment. -/
def Line.ofRequest (number : Nat) (line : List Char) : Line :=
  match Directive.ofLine? line with
  | some d => .directive d
  | none => .problem ⟨.unknownDirective, number, String.ofList line⟩

/-- What a line says; `divided` tells whether it comes after a divider. -/
def Line.read (divided : Bool) (number : Nat) (raw : List Char) : Line :=
  let line := trim raw
  if line.isEmpty || isComment line then .skipped
  else if line = ['-', '-', '-'] then .divider
  else if divided then ofRequest number line
  else ofEntry number line

/-- What the lines say from one with a number on. -/
def readLines (divided : Bool) (number : Nat) : List (List Char) → List Line
  | [] => []
  | raw :: rest =>
    let line := Line.read divided number raw
    line :: readLines (divided || line = .divider) (number + 1) rest

/-! ### The ledger -/

/-- The account of a line. -/
def Line.account? : Line → Option (Account Number)
  | account a => some a
  | _ => none

/-- The transaction of a line. -/
def Line.transaction? : Line → Option (Transaction Number)
  | transaction t => some t
  | _ => none

/-- The directive of a line. -/
def Line.directive? : Line → Option Directive
  | directive d => some d
  | _ => none

/-- The problem of a line. -/
def Line.problem? : Line → Option Problem
  | problem p => some p
  | _ => none

/-- The ledger of some lines; transactions are put in the order of their dates. -/
def ofLines (lines : List Line) : Ledger Number :=
  { accounts := lines.filterMap Line.account?
    transactions := (lines.filterMap Line.transaction?).mergeSort fun s t =>
      decide (s.date ≤ t.date)
    directives := lines.filterMap Line.directive?
    problems := lines.filterMap Line.problem? }

/-- The ledger that a text states. -/
def ofText (text : String) : Ledger Number := ofLines (readLines false 1 (lines text.toList))

end NoteGraph.Ledger
