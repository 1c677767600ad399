import ArenaSql.Text.Numeral
import ArenaSql.Value.Basic

/-!
# Reading documents

A document is JSON text. Beyond the standard grammar the words `NaN`, `Infinity` and `-Infinity` are numbers.
A number with a fraction or an exponent is a floating-point number, any other an integer. Of two fields with
one name the later value wins, at the place of the earlier. A text that cannot be read has one problem, at an
offset counted in characters.
-/

namespace ArenaSql.Document

/-! ## Problems -/

inductive Problem where
  | expectedValue
  | extraData
  | expectedName
  | expectedColon
  | expectedComma
  | unterminatedString
  | controlCharacter
  | invalidEscape
  | invalidUnicodeEscape
  | byteOrderMark
  deriving DecidableEq

def Problem.text : Problem → String
  | .expectedValue => "Expecting value"
  | .extraData => "Extra data"
  | .expectedName => "Expecting property name enclosed in double quotes"
  | .expectedColon => "Expecting ':' delimiter"
  | .expectedComma => "Expecting ',' delimiter"
  | .unterminatedString => "Unterminated string starting at"
  | .controlCharacter => "Invalid control character at"
  | .invalidEscape => "Invalid \\escape"
  | .invalidUnicodeEscape => "Invalid \\uXXXX escape"
  | .byteOrderMark => "Unexpected UTF-8 BOM (decode using utf-8-sig)"

inductive ReadError where
  | malformed (problem : Problem) (offset : Nat)
  /-- An integer with more digits than are read. -/
  | tooManyDigits (count : Nat)
  deriving DecidableEq

/-- The line and column of an offset, both counted from one. -/
def position (text : List Char) (offset : Nat) : Nat × Nat :=
  let before := text.take offset
  (before.count '\n' + 1, (before.reverse.takeWhile (· != '\n')).length + 1)

def ReadError.message (text : String) : ReadError → String
  | .malformed problem offset =>
    let (line, column) := position text.toList offset
    s!"{problem.text}: line {line} column {column} (char {offset})"
  | .tooManyDigits count => Text.LengthError.message (.reading count)

/-! ## Cursors -/

/-- What is left of a text, and where it starts. -/
structure Cursor where
  rest : List Char
  offset : Nat

def Cursor.advance (c : Cursor) (n : Nat) : Cursor :=
  ⟨c.rest.drop n, c.offset + n⟩

def isDocumentBlank (c : Char) : Bool :=
  c == ' ' || c == '\t' || c == '\n' || c == '\r'

def Cursor.skipBlanks (c : Cursor) : Cursor :=
  c.advance (c.rest.takeWhile isDocumentBlank).length

def Cursor.fail {α : Type} (c : Cursor) (problem : Problem) : Except ReadError α :=
  .error (.malformed problem c.offset)

/-! ## Strings -/

def hexDigit? (c : Char) : Option Nat :=
  if c.isDigit then some (c.toNat - 0x30)
  else if 'a' ≤ c ∧ c ≤ 'f' then some (c.toNat - 0x61 + 10)
  else if 'A' ≤ c ∧ c ≤ 'F' then some (c.toNat - 0x41 + 10)
  else none

def hexValue? (digits : List Char) : Option Nat :=
  digits.foldl (fun n c => do return 16 * (← n) + (← hexDigit? c)) (some 0)

def simpleEscape? : Char → Option Char
  | '"' => some '"'
  | '\\' => some '\\'
  | '/' => some '/'
  | 'b' => some (Char.ofNat 8)
  | 'f' => some (Char.ofNat 12)
  | 'n' => some '\n'
  | 'r' => some '\r'
  | 't' => some '\t'
  | _ => none

/-- The four hexadecimal digits behind a `u`. A text never ends with them, as a quote has to follow. -/
def unicodeUnit (c : Cursor) : Except ReadError Nat :=
  if (c.rest.drop 5).isEmpty then c.fail .invalidUnicodeEscape
  else match hexValue? ((c.rest.drop 1).take 4) with
    | some n => .ok n
    | none => c.fail .invalidUnicodeEscape

/-- The character of the escape whose backslash the cursor stands at, and the length of that escape. Two
escapes that form a surrogate pair are one character. -/
def escaped (start : Nat) (c : Cursor) : Except ReadError (Char × Nat) :=
  match c.rest.drop 1 with
  | [] => .error (.malformed .unterminatedString start)
  | 'u' :: _ => do
    let unit ← unicodeUnit (c.advance 1)
    let next := c.advance 6
    if 0xD800 ≤ unit && unit < 0xDC00 && !(next.rest.drop 6).isEmpty &&
        next.rest.take 2 == ['\\', 'u'] then
      let low ← unicodeUnit (next.advance 1)
      if 0xDC00 ≤ low && low < 0xE000 then
        return (Char.ofNat (0x10000 + (unit - 0xD800) * 0x400 + (low - 0xDC00)), 12)
    return (if 0xD800 ≤ unit && unit < 0xE000 then Char.ofNat 0xFFFD else Char.ofNat unit, 6)
  | e :: _ =>
    match simpleEscape? e with
    | some ch => .ok (ch, 2)
    | none => c.fail .invalidEscape

/-- The characters up to the closing quote. `start` is the offset of the opening quote, and the first `skip`
characters belong to an escape that is already read. -/
def characters (start : Nat) :
    (rest : List Char) → (offset skip : Nat) → (read : List Char) → Except ReadError (String × Cursor)
  | [], _, _, _ => .error (.malformed .unterminatedString start)
  | _ :: rest, offset, skip + 1, read => characters start rest (offset + 1) skip read
  | '"' :: rest, offset, 0, read => .ok (String.ofList read.reverse, ⟨rest, offset + 1⟩)
  | '\\' :: rest, offset, 0, read => do
    let (ch, length) ← escaped start ⟨'\\' :: rest, offset⟩
    characters start rest (offset + 1) (length - 1) (ch :: read)
  | ch :: rest, offset, 0, read =>
    if ch.toNat < 0x20 then .error (.malformed .controlCharacter offset)
    else characters start rest (offset + 1) 0 (ch :: read)

/-- A string; the cursor stands at its opening quote. -/
def string (c : Cursor) : Except ReadError (String × Cursor) :=
  characters c.offset (c.rest.drop 1) (c.offset + 1) 0 []

/-! ## Numbers and words -/

/-- The digits behind a point. A point without digits is not part of the number. -/
def fraction : List Char → List Char
  | '.' :: rest => rest.takeWhile Char.isDigit
  | _ => []

/-- The exponent and its length. A mark without digits is not part of the number. -/
def exponent : List Char → Option (Int × Nat)
  | [] => none
  | mark :: rest =>
    if mark == 'e' || mark == 'E' then
      let (negative, body) := Text.splitSign rest
      let signs := (rest.take 1).countP fun c => c == '+' || c == '-'
      let digits := body.takeWhile Char.isDigit
      if digits.isEmpty then none
      else some (Text.signed negative (Text.digitsValue digits), 1 + signs + digits.length)
    else none

/-- The digits before the point: a zero alone, or digits that start with no zero. -/
def wholeDigits : List Char → List Char
  | '0' :: _ => ['0']
  | cs => cs.takeWhile Char.isDigit

def number (c : Cursor) : Except ReadError (Value × Cursor) :=
  let negative := c.rest.head? == some '-'
  let body := if negative then c.advance 1 else c
  let whole := wholeDigits body.rest
  let places := fraction (body.rest.drop whole.length)
  let afterPlaces := body.advance (whole.length + if places.isEmpty then 0 else places.length + 1)
  if whole.isEmpty then c.fail .expectedValue
  else match exponent afterPlaces.rest, places.isEmpty with
    | none, true =>
      if Text.maxDigits < whole.length then .error (.tooManyDigits whole.length)
      else .ok (.int (Text.signed negative (Text.digitsValue whole)), afterPlaces)
    | power, _ =>
      let (e, length) := power.getD (0, 0)
      let digits := Text.digitsValue (whole ++ places)
      .ok (.float (Binary64.ofDecimal negative digits (e - places.length)), afterPlaces.advance length)

/-- The words that stand for a value. -/
def words : List (String × Value) :=
  [("null", .null), ("true", .bool true), ("false", .bool false), ("NaN", .float Binary64.nan),
   ("Infinity", .float (Binary64.infinity false)), ("-Infinity", .float (Binary64.infinity true))]

def scalar (c : Cursor) : Except ReadError (Value × Cursor) :=
  match words.find? fun (word, _) => word.toList.isPrefixOf c.rest with
  | some (word, v) => .ok (v, c.advance word.length)
  | none => number c

/-! ## Lists, objects and whole documents -/

mutual

/-- The value the cursor stands at. Each level uses up a unit of fuel, and so does each item of a list or an
object, hence twice the length of the text suffices. -/
def value : Nat → Cursor → Except ReadError (Value × Cursor)
  | 0, c => c.fail .expectedValue
  | fuel + 1, c =>
    match c.rest with
    | '"' :: _ => do
      let (s, c) ← string c
      return (.str s, c)
    | '[' :: _ =>
      let c := (c.advance 1).skipBlanks
      if c.rest.head? == some ']' then .ok (.list [], c.advance 1) else items fuel c []
    | '{' :: _ =>
      let c := (c.advance 1).skipBlanks
      if c.rest.head? == some '}' then .ok (.object [], c.advance 1) else members fuel c []
    | _ => scalar c

/-- The items of a list, from the one the cursor stands at. -/
def items : Nat → Cursor → List Value → Except ReadError (Value × Cursor)
  | 0, c, _ => c.fail .expectedValue
  | fuel + 1, c, read => do
    let (v, c) ← value fuel c
    let c := c.skipBlanks
    match c.rest with
    | ']' :: _ => return (.list (read.reverse ++ [v]), c.advance 1)
    | ',' :: _ => items fuel (c.advance 1).skipBlanks (v :: read)
    | _ => c.fail .expectedComma

/-- The fields of an object, from the one the cursor stands at. -/
def members : Nat → Cursor → Fields → Except ReadError (Value × Cursor)
  | 0, c, _ => c.fail .expectedName
  | fuel + 1, c, read => do
    if c.rest.head? != some '"' then c.fail .expectedName
    let (name, c) ← string c
    let c := c.skipBlanks
    if c.rest.head? != some ':' then c.fail .expectedColon
    let (v, c) ← value fuel (c.advance 1).skipBlanks
    let c := c.skipBlanks
    let read := Fields.insert name v read
    match c.rest with
    | '}' :: _ => return (.object read, c.advance 1)
    | ',' :: _ => members fuel (c.advance 1).skipBlanks read
    | _ => c.fail .expectedComma

end

/-- Reads a whole text as one document. -/
def read (text : String) : Except ReadError Value := do
  let start : Cursor := ⟨text.toList, 0⟩
  if start.rest.head? == some (Char.ofNat 0xFEFF) then start.fail .byteOrderMark
  let (v, c) ← value (2 * start.rest.length + 2) start.skipBlanks
  let c := c.skipBlanks
  if c.rest.isEmpty then return v else c.fail .extraData

end ArenaSql.Document
