import ArenaSql.Decimal.Binary64

/-!
# Shortest decimals

Every finite number has a shortest decimal that reads back as the number. Among the decimals of that length
the one nearest to the number is taken. The reals that read back as `m · 2 ^ q` form an interval, whose ends
belong to it when `m` is even; on each decimal grid only the two neighbours of the number need a test.
-/

namespace ArenaSql

/-- `digits · 10 ^ exponent`. -/
structure Decimal where
  digits : Nat
  exponent : Int
  deriving DecidableEq

namespace Decimal

open Binary64 (twoTo tenTo)

/-- The reals that read back as `significand · 2 ^ exponent`, in units of `1 / den`: from `low` to `high`
around `value`, ends included if `closed`. -/
structure Interval where
  low : Nat
  value : Nat
  high : Nat
  den : Nat
  closed : Bool

/-- The lower neighbour of a power of two is half as far away as the upper one, unless both are at the least
exponent. -/
def Interval.around (significand : Nat) (exponent : Int) : Interval :=
  let below := if significand = twoTo 52 && exponent != -1074 then 1 else 2
  let up := if 0 ≤ exponent then twoTo exponent.toNat else 1
  let den := 4 * if 0 ≤ exponent then 1 else twoTo (-exponent).toNat
  { low := (4 * significand - below) * up
    value := 4 * significand * up
    high := (4 * significand + 2) * up
    den := den
    closed := significand % 2 == 0 }

/-- Whether the decimal `n · (num / unit)` lies in the interval. -/
def Interval.contains (i : Interval) (n num unit : Nat) : Bool :=
  let x := n * num * i.den
  if i.closed then i.low * unit ≤ x && x ≤ i.high * unit
  else i.low * unit < x && x < i.high * unit

/-- The nearest multiple of `10 ^ place` in the interval, as its coefficient. -/
def Interval.onGrid (i : Interval) (place : Int) : Option Nat :=
  let num := if 0 ≤ place then tenTo place.toNat else 1
  let unit := if 0 ≤ place then 1 else tenTo (-place).toNat
  let lower := i.value * unit / (num * i.den)
  match i.contains lower num unit, i.contains (lower + 1) num unit with
  | true, true =>
    let below := i.value * unit - lower * num * i.den
    let above := (lower + 1) * num * i.den - i.value * unit
    if below < above || (below == above && lower % 2 == 0) then some lower else some (lower + 1)
  | true, false => some lower
  | false, true => some (lower + 1)
  | false, false => none

/-- Tries ever finer grids, from `place` downwards. -/
def Interval.search (i : Interval) : Nat → Int → Decimal
  | 0, place => ⟨0, place⟩
  | tries + 1, place =>
    match i.onGrid place with
    | some n => if n = 0 then i.search tries (place - 1) else ⟨n, place⟩
    | none => i.search tries (place - 1)

/-- The shortest decimal of `significand · 2 ^ exponent`, for a significand other than zero. The first grid
is coarser than the number, and seventeen digits always suffice. -/
def shortest (significand : Nat) (exponent : Int) : Decimal :=
  let i := Interval.around significand exponent
  let top : Int := (Nat.toDigits 10 (i.value / i.den)).length
  let first : Int :=
    if i.den ≤ i.value then top else 1 - (Nat.toDigits 10 (i.den / i.value)).length
  i.search 20 first

end Decimal

end ArenaSql
