import ArenaSql.Text.Numeral

/-!
# Integers written as text

Where a document should have an integer it may have a numeral: a sign, ASCII digits with single underscores
between them, and a fraction of zeros, with blanks around. Zeros may stand in front, with underscores among
them. A numeral without a sign may also have its minus sign behind those zeros, and one underscore behind the
sign.
-/

namespace ArenaSql.Decode

/-- Whether a text starts with an integer of too many digits. Only an integer in plain form counts: a minus
sign or none, and no zero in front. -/
def startsOversized (cs : List Char) : Bool :=
  let digits := (match cs with
    | '-' :: rest => rest
    | cs => cs).takeWhile Char.isDigit
  digits.head? != some '0' && Text.maxDigits < digits.length

/-- A numeral that starts with a zero, without that zero and the zeros and underscores behind it. The last of
them stays if nothing else or only a fraction follows. -/
def withoutZeros (cs : List Char) : List Char :=
  let zeros := cs.takeWhile fun c => c == '0' || c == '_'
  match cs.drop zeros.length with
  | [] => zeros.drop (zeros.length - 1)
  | '.' :: rest => zeros.drop (zeros.length - 1) ++ '.' :: rest
  | rest => rest

/-- The digits before a fraction of zeros, or all of them if there is no fraction. -/
def withoutFraction? (cs : List Char) : Option (List Char) :=
  let whole := cs.takeWhile (· != '.')
  match cs.drop whole.length with
  | [] => some whole
  | _ :: places => if !places.isEmpty && places.all (· == '0') then some whole else none

/-- A number in plain form, which may have underscores between its digits. -/
def magnitude? (cs : List Char) : Option Nat := do
  let digits ← Text.groupedDigits? Char.isDigit cs
  if digits.length ≤ Text.maxDigits && (digits.head? != some '0' || digits.length == 1) then
    some (Text.digitsValue digits)
  else none

/-- Reads a numeral. -/
def integer? (cs : List Char) : Option Int := do
  let trimmed := Text.trim cs
  let (negative, body) := Text.splitSign trimmed
  match body with
  | '0' :: _ =>
    match ← withoutFraction? (withoutZeros body) with
    | '-' :: '_' :: rest => if negative then none else (magnitude? rest).map (Text.signed true)
    | '-' :: rest => if negative then none else (magnitude? rest).map (Text.signed true)
    | rest => (magnitude? rest).map (Text.signed negative)
  | _ => (magnitude? (← withoutFraction? body)).map (Text.signed negative)

end ArenaSql.Decode
