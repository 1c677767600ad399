import ArenaSql.Text.Blank
import ArenaSql.Text.DecimalDigit

/-!
# Integers written as text

A numeral is an optional sign and a run of digits in which single underscores may stand between two digits.
Which characters are digits is left to the reader of the numeral.
-/

namespace ArenaSql.Text

/-- Texts longer than this many digits are not read as integers. -/
def maxDigits : Nat := 4300

/-- Why an integer is not converted from or to text. -/
inductive LengthError where
  /-- A text of so many digits is not read. -/
  | reading (digits : Nat)
  /-- A number with more than `maxDigits` digits is not written. -/
  | writing
  deriving DecidableEq

def LengthError.message (e : LengthError) : String :=
  let count := match e with
    | .reading digits => s!": value has {digits} digits"
    | .writing => ""
  s!"Exceeds the limit ({maxDigits} digits) for integer string conversion{count}; " ++
    "use sys.set_int_max_str_digits() to increase the limit"

/-- The digits of a run, without the single underscores that may stand between two of them. -/
def groupedDigits? (isDigit : Char → Bool) : List Char → Option (List Char)
  | [] => none
  | [c] => if isDigit c then some [c] else none
  | c :: '_' :: rest => if isDigit c then (groupedDigits? isDigit rest).map (c :: ·) else none
  | c :: rest => if isDigit c then (groupedDigits? isDigit rest).map (c :: ·) else none

/-- Whether a text starts with a minus sign, and what follows its sign. -/
def splitSign : List Char → Bool × List Char
  | '-' :: rest => (true, rest)
  | '+' :: rest => (false, rest)
  | cs => (false, cs)

def signed (negative : Bool) (n : Nat) : Int :=
  if negative then -(n : Int) else n

/-- Reads an integer whose digits may be of any script. Blanks around it are skipped, and at most
`maxDigits` digits are accepted. -/
def integer? (s : String) : Option Int :=
  let (negative, body) := splitSign (trim s.toList)
  match groupedDigits? isDecimalDigit body with
  | some digits => if digits.length ≤ maxDigits then some (signed negative (digitsValue digits)) else none
  | none => none

end ArenaSql.Text
