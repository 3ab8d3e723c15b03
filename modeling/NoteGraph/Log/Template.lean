import NoteGraph.Json.Plain
import NoteGraph.Number.Layout
import NoteGraph.Number.Numeral

/-!
# Message templates

A template is a text with places for values. A place starts with a percent sign and
ends with the letter of a conversion; flags, a width and a precision may stand between
them, and a name in parentheses takes the value from a field instead of from the list.
A star takes a width or precision from the list as well. Every value of the list must be
used. A filled template is a list of code points, since a value may be half of a
surrogate pair, which is no character.
-/

namespace NoteGraph.Log

open Number (isPlainDigit digitsValue)

/-! ### Errors -/

/-- Why a template cannot be filled in. -/
inductive TemplateError where
  | incomplete
  | incompleteName
  | unknownConversion (letter : Char) (position : Nat)
  | tooFewValues
  | tooManyValues
  | noFields
  | missingField (name : String)
  /-- A star stands for something else than a whole number. -/
  | starNotWhole
  /-- A star stands for a number that is no size of the named kind. -/
  | starTooLarge (kind : String)
  | widthTooLarge
  | precisionTooLarge
  /-- A precision that leaves no room for the sign and the mark of a base. -/
  | digitsTooMany
  /-- More characters than can be kept. -/
  | noRoom
  | notReal (letter : Char) (kind : String)
  | notWhole (letter : Char) (kind : String)
  | notFraction (kind : String)
  | outOfRange (error : Number.RangeError)
  | notCharacter
  | characterOutOfRange
  deriving DecidableEq

/-- A character as an error shows it: only ASCII is shown. -/
def shownLetter (c : Char) : Char := if 31 ≤ c.toNat && c.toNat < 127 then c else '?'

/-- What is reported of a template that cannot be filled in. -/
def TemplateError.message : TemplateError → String
  | incomplete => "incomplete format"
  | incompleteName => "incomplete format key"
  | unknownConversion c position =>
    "unsupported format character '" ++ (shownLetter c).toString ++ "' (0x" ++
      String.ofList (Nat.toDigits 16 c.toNat) ++ ") at index " ++ toString position
  | tooFewValues => "not enough arguments for format string"
  | tooManyValues => "not all arguments converted during string formatting"
  | noFields => "format requires a mapping"
  | missingField name => name
  | starNotWhole => "* wants int"
  | starTooLarge kind => "Python int too large to convert to C " ++ kind
  | widthTooLarge => "width too big"
  | precisionTooLarge => "precision too big"
  | digitsTooMany => "precision too large"
  | noRoom => ""
  | notReal c kind =>
    "%" ++ c.toString ++ " format: a real number is required, not " ++ kind
  | notWhole c kind => "%" ++ c.toString ++ " format: an integer is required, not " ++ kind
  | notFraction kind => "must be real number, not " ++ kind
  | outOfRange e => e.message
  | notCharacter => "%c requires int or char"
  | characterOutOfRange => "%c arg not in range(0x110000)"

/-! ### Values -/

/-- The values for a template: those that are still to be used, and maybe fields that
are taken by their names. -/
structure Values where
  items : List Json
  fields : Option (List (String × Json)) := none

namespace Values

/-- The values that are given: a single object that is not empty gives its fields, and
itself. -/
def ofItems : List Json → Values
  | [.object (field :: fields)] =>
    { items := [.object (field :: fields)], fields := some (field :: fields) }
  | items => { items }

/-- The next value, and those after it. -/
def next (v : Values) : Except TemplateError (Json × Values) :=
  match v.items with
  | [] => .error .tooFewValues
  | j :: rest => .ok (j, { v with items := rest })

/-- The values once a field is chosen: it is the only one to be used. -/
def choose (v : Values) (fields : List (String × Json)) (name : String) :
    Except TemplateError Values :=
  match Json.field? fields name with
  | some j => .ok { v with items := [j] }
  | none => .error (.missingField name)

/-- Nothing is left over; an object need not be used. -/
def isUsed (v : Values) : Bool := v.items.isEmpty || v.fields.isSome

end Values

/-! ### Places -/

/-- The flags of a place. -/
structure Flags where
  left : Bool := false
  zeros : Bool := false
  plus : Bool := false
  gap : Bool := false
  alternate : Bool := false
  deriving DecidableEq

/-- Flags with one more. -/
def Flags.add (f : Flags) : Char → Flags
  | '-' => { f with left := true }
  | '0' => { f with zeros := true }
  | '+' => { f with plus := true }
  | ' ' => { f with gap := true }
  | _ => { f with alternate := true }

/-- A flag of a place. -/
def isFlag (c : Char) : Bool := c = '-' || c = '0' || c = '+' || c = ' ' || c = '#'

/-- A place in a template, up to the letter of its conversion. -/
structure Place where
  flags : Flags
  width : Nat
  precision : Option Nat
  letter : Char
  deriving DecidableEq

/-- The name in parentheses after a percent sign; parentheses in it are paired. -/
def cutName? (depth : Nat) : List Char → Option (List Char × List Char)
  | [] => none
  | ')' :: rest =>
    match depth with
    | 0 => some ([], rest)
    | depth + 1 => (cutName? depth rest).map fun (name, rest) => (')' :: name, rest)
  | '(' :: rest => (cutName? (depth + 1) rest).map fun (name, rest) => ('(' :: name, rest)
  | c :: rest => (cutName? depth rest).map fun (name, rest) => (c :: name, rest)

/-- The values for a place, once the field that it names is chosen, and the rest. -/
def readName (v : Values) : List Char → Except TemplateError (Values × List Char)
  | '(' :: inner =>
    match v.fields, cutName? 0 inner with
    | none, _ => .error .noFields
    | some _, none => .error .incompleteName
    | some fields, some (name, rest) =>
      (v.choose fields (String.ofList name)).map fun v => (v, rest)
  | cs => .ok (v, cs)

/-- The largest width, and the largest precision. -/
def maxWidth : Nat := 0x7FFFFFFFFFFFFFFF
def maxPrecision : Nat := 0x7FFFFFFF

/-- The whole number that a star stands for; `largest` bounds the sizes of a kind. -/
def starValue (kind : String) (largest : Nat) (j : Json) : Except TemplateError Int := do
  let n ← match j with
    | .bool b => pure (if b then 1 else 0)
    | .number (.int n) => pure n
    | _ => throw .starNotWhole
  if n < -(largest : Int) - 1 || (largest : Int) < n then throw (.starTooLarge kind)
  return n

/-- The width of a place: the value of a star, digits, or nothing. A width below zero
aligns to the left; the one that has no counterpart above zero is no width. -/
def readWidth (v : Values) (flags : Flags) (cs : List Char) :
    Except TemplateError (Flags × Nat × Values × List Char) := do
  match cs with
  | '*' :: rest =>
    let (j, v) ← v.next
    let n ← starValue "ssize_t" maxWidth j
    let width := if maxWidth < n.natAbs then 0 else n.natAbs
    return (if n < 0 then { flags with left := true } else flags, width, v, rest)
  | _ =>
    let width := digitsValue (cs.takeWhile isPlainDigit)
    if maxWidth < width then throw .widthTooLarge
    return (flags, width, v, cs.dropWhile isPlainDigit)

/-- The precision of a place after a point: the value of a star or digits. A precision
below zero is none at all, and a point alone stands for zero. -/
def readPrecision (v : Values) (cs : List Char) :
    Except TemplateError (Option Nat × Values × List Char) := do
  match cs with
  | '.' :: '*' :: rest =>
    let (j, v) ← v.next
    return (some (← starValue "int" maxPrecision j).toNat, v, rest)
  | '.' :: after =>
    let precision := digitsValue (after.takeWhile isPlainDigit)
    if maxPrecision < precision then throw .precisionTooLarge
    return (some precision, v, after.dropWhile isPlainDigit)
  | _ => return (none, v, cs)

/-- A text without the letter for a size before a conversion. -/
def dropSize : List Char → List Char
  | c :: rest => if c = 'h' || c = 'l' || c = 'L' then rest else c :: rest
  | [] => []

/-- The place after a percent sign, the values for it, and the rest. -/
def Place.read (v : Values) (cs : List Char) :
    Except TemplateError (Place × Values × List Char) := do
  let (v, cs) ← readName v cs
  let flags := (cs.takeWhile isFlag).foldl Flags.add {}
  let (flags, width, v, cs) ← readWidth v flags (cs.dropWhile isFlag)
  let (precision, v, cs) ← readPrecision v cs
  match dropSize cs with
  | [] => throw .incomplete
  | letter :: rest => return ({ flags, width, precision, letter }, v, rest)

/-! ### Conversions -/

/-- How a value is written. -/
inductive Conversion where
  | plain
  | quoted
  | ascii
  | decimal
  | octal
  | hexadecimal
  | fraction (layout : Number.Layout)
  | character
  deriving DecidableEq

/-- The conversions by their letters. A capital writes capital letters. -/
def conversions : List (Char × Conversion) :=
  [('s', .plain), ('r', .quoted), ('a', .ascii), ('d', .decimal), ('i', .decimal),
   ('u', .decimal), ('o', .octal), ('x', .hexadecimal), ('X', .hexadecimal),
   ('e', .fraction .scientific), ('E', .fraction .scientific), ('f', .fraction .fixed),
   ('F', .fraction .fixed), ('g', .fraction .general), ('G', .fraction .general),
   ('c', .character)]

/-- The whole part of a number. -/
def wholePart (letter : Char) : Json → Except TemplateError Int
  | .bool b => .ok (if b then 1 else 0)
  | .number n => n.wholePart.mapError .outOfRange
  | j => .error (.notReal letter j.kindName)

/-- A whole number. -/
def wholeValue (letter : Char) : Json → Except TemplateError Int
  | .bool b => .ok (if b then 1 else 0)
  | .number (.int n) => .ok n
  | j => .error (.notWhole letter j.kindName)

/-- A floating-point number. -/
def fractionValue : Json → Except TemplateError Number.Binary64
  | .bool b => .ok (.ofInt (if b then 1 else 0))
  | .number n => if n.isTooLarge then .error (.outOfRange .tooLarge) else .ok n.toBinary64
  | j => .error (.notFraction j.kindName)

/-- The code point of a text of one character, or a whole number as a code point. -/
def codePoint (j : Json) : Except TemplateError Nat :=
  let ofInt (n : Int) : Except TemplateError Nat :=
    if n < 0 || 0x10FFFF < n then .error .characterOutOfRange else .ok n.toNat
  match j with
  | .string s =>
    match s.toList with
    | [c] => .ok c.toNat
    | _ => .error .notCharacter
  | .bool b => ofInt (if b then 1 else 0)
  | .number (.int n) => ofInt n
  | _ => .error .notCharacter

/-! ### Writing values -/

/-- Some equal code points. -/
structure Run where
  count : Nat
  point : Nat

/-- One code point. -/
def Run.single (point : Nat) : Run := ⟨1, point⟩

/-- A value before it is brought to a width. -/
inductive Written where
  | text (points : List Nat)
  /-- A sign and the mark of a base, and digits. -/
  | number (front digits : List Char)

namespace Place

/-- A text cut to the precision. -/
def cut (p : Place) (s : List Char) : Written :=
  .text ((match p.precision with
    | some n => s.take n
    | none => s).map Char.toNat)

/-- Letters as the letter of the conversion has them. -/
def inCase (p : Place) (s : List Char) : List Char :=
  if p.letter.isUpper then s.map Char.toUpper else s

/-- A number with its sign. -/
def signed (p : Place) (negative : Bool) (mark digits : List Char) : Written :=
  let sign :=
    if negative then ['-'] else if p.flags.plus then ['+'] else if p.flags.gap then [' '] else []
  .number (sign ++ p.inCase mark) (p.inCase digits)

/-- A whole number in a base, with zeros before it up to the precision. -/
def whole (p : Place) (mark : List Char) (base : Nat) (n : Int) :
    Except TemplateError Written := do
  let precision := p.precision.getD 0
  if maxPrecision - 3 < precision then throw .digitsTooMany
  return p.signed (n < 0) (if p.flags.alternate then mark else [])
    ((Nat.toDigits base n.natAbs).leftpad precision '0')

/-- A value as a place asks for it; `position` is that of the conversion's letter. -/
def write (p : Place) (position : Nat) (j : Json) : Except TemplateError Written := do
  match conversions.lookup p.letter with
  | none => throw (.unknownConversion p.letter position)
  | some .plain => return p.cut j.plainText.toList
  | some .quoted => return p.cut j.quotedText.toList
  | some .ascii => return p.cut (Text.asciiOnly j.quotedText.toList)
  | some .decimal => p.whole [] 10 (← wholePart p.letter j)
  | some .octal => p.whole ['0', 'o'] 8 (← wholeValue p.letter j)
  | some .hexadecimal => p.whole ['0', 'x'] 16 (← wholeValue p.letter j)
  | some (.fraction layout) =>
    let x ← fractionValue j
    return p.signed x.isNegative []
      (Number.layOut layout p.flags.alternate (p.precision.getD 6) x)
  | some .character => return .text [← codePoint j]

/-- Widths that no memory has room for. -/
def widthLimit : Nat := 0x1000000000

/-- A written value brought to the width by blanks, or by zeros before its digits. -/
def align (p : Place) (w : Written) : Except TemplateError (List Run) := do
  if widthLimit < p.width then throw .noRoom
  let (front, points) := match w with
    | .text points => ([], points)
    | .number front digits => (front.map Char.toNat, digits.map Char.toNat)
  let missing := p.width - (front.length + points.length)
  let (before, between, after) :=
    if p.flags.left then (0, 0, missing)
    else match w with
      | .text _ => (missing, 0, 0)
      | .number .. => if p.flags.zeros then (0, missing, 0) else (missing, 0, 0)
  return ⟨before, 32⟩ :: front.map Run.single ++ ⟨between, 48⟩ :: points.map Run.single ++
    [⟨after, 32⟩]

end Place

/-! ### Filling in -/

/-- A template filled in; `size` is the length of the whole template, and `fuel` bounds
the number of its characters that are left. -/
def fillFrom (size : Nat) : Nat → Values → List Char → Except TemplateError (List Run)
  | 0, _, _ => .ok []
  | _ + 1, v, [] => if v.isUsed then .ok [] else .error .tooManyValues
  | fuel + 1, v, '%' :: '%' :: rest => return .single 37 :: (← fillFrom size fuel v rest)
  | fuel + 1, v, '%' :: rest => do
    let (place, v, rest) ← Place.read v rest
    let (j, v) ← v.next
    let front ← place.align (← place.write (size - rest.length - 1) j)
    return front ++ (← fillFrom size fuel v rest)
  | fuel + 1, v, c :: rest => return .single c.toNat :: (← fillFrom size fuel v rest)

/-- A template filled in with values; without values it is left as it is. -/
def fill (template : String) (values : List Json) : Except TemplateError (List Nat) :=
  let cs := template.toList
  if values.isEmpty then .ok (cs.map Char.toNat)
  else
    (fillFrom cs.length (cs.length + 1) (.ofItems values) cs).map fun runs =>
      runs.flatMap fun run => List.replicate run.count run.point

end NoteGraph.Log
