import ArenaSql.Decimal.Shortest

/-!
# Text of floating-point numbers

A number is written with its shortest digits. The exponent of its first digit decides on the layout: within
the positional range the point stands in place and at least one digit follows it, outside it the text has one
digit before the point and an exponent.
-/

namespace ArenaSql.Decimal

/-- How a number is laid out. -/
structure Layout where
  /-- Least exponent of the first digit that is written positionally. -/
  positionalFrom : Int
  /-- First exponent of the first digit that is not written positionally any more. -/
  positionalUntil : Int
  /-- Least number of exponent digits. -/
  exponentWidth : Nat
  nan : String
  infinity : String

/-- Positional from 0.0001 up to 10 ^ 16, and exponents of at least two digits. -/
def standard : Layout where
  positionalFrom := -4
  positionalUntil := 16
  exponentWidth := 2
  nan := "nan"
  infinity := "inf"

def padLeft (width : Nat) (digits : List Char) : List Char :=
  List.replicate (width - digits.length) '0' ++ digits

/-- An exponent with its sign. -/
def Layout.exponent (l : Layout) (e : Int) : List Char :=
  'e' :: (if e < 0 then '-' else '+') :: padLeft l.exponentWidth (Nat.toDigits 10 e.natAbs)

/-- The digits with the point after the first `e + 1` of them. -/
def positional (digits : List Char) (e : Int) : List Char :=
  if e < 0 then '0' :: '.' :: List.replicate (-e - 1).toNat '0' ++ digits
  else
    let whole := digits.take (e + 1).toNat
    let rest := digits.drop (e + 1).toNat
    whole ++ List.replicate ((e + 1).toNat - whole.length) '0' ++ '.' :: if rest.isEmpty then ['0'] else rest

def Layout.scientific (l : Layout) (digits : List Char) (e : Int) : List Char :=
  match digits with
  | [] => []
  | [d] => d :: l.exponent e
  | d :: rest => d :: '.' :: rest ++ l.exponent e

/-- A digit text without its trailing zeros. -/
def stripZeros (digits : List Char) : List Char :=
  (digits.reverse.dropWhile (· == '0')).reverse

def Layout.magnitude (l : Layout) (d : Decimal) : List Char :=
  let all := Nat.toDigits 10 d.digits
  let e : Int := d.exponent + all.length - 1
  let digits := stripZeros all
  if l.positionalFrom ≤ e && e < l.positionalUntil then positional digits e else l.scientific digits e

def Layout.text (l : Layout) (x : Binary64) : String :=
  let sign := if x.isNegative then "-" else ""
  match x.kind with
  | .nan => l.nan
  | .infinite => sign ++ l.infinity
  | .finite 0 _ => sign ++ "0.0"
  | .finite m q => sign ++ String.ofList (l.magnitude (shortest m q))

end ArenaSql.Decimal
