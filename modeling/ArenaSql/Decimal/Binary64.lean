/-!
# Binary floating point of 64 bits

A number is held as its interchange bits: a sign, eleven exponent bits and 52 fraction bits. A finite number
is `m · 2 ^ q` up to sign, with `m < 2 ^ 53` and `q ≥ -1074`. Reading a decimal rounds to nearest, a tie to
the even significand.
-/

namespace ArenaSql

structure Binary64 where
  bits : UInt64
  deriving DecidableEq

namespace Binary64

def twoTo (n : Nat) : Nat :=
  Nat.pow 2 n

def tenTo (n : Nat) : Nat :=
  Nat.pow 10 n

/-- What the bits stand for. -/
inductive Kind where
  | nan
  | infinite
  | finite (significand : Nat) (exponent : Int)
  deriving DecidableEq

def isNegative (x : Binary64) : Bool :=
  x.bits.toNat / twoTo 63 == 1

def kind (x : Binary64) : Kind :=
  let exponent : Nat := x.bits.toNat / twoTo 52 % twoTo 11
  let fraction : Nat := x.bits.toNat % twoTo 52
  if exponent = 2047 then if fraction = 0 then .infinite else .nan
  else if exponent = 0 then .finite fraction (-1074)
  else .finite (twoTo 52 + fraction) ((exponent : Int) - 1075)

/-- The integer that equals a number, if there is one. -/
def toInt? (x : Binary64) : Option Int :=
  match x.kind with
  | .finite m q =>
    let sign : Int := if x.isNegative then -1 else 1
    if 0 ≤ q then some (sign * (m * twoTo q.toNat : Nat))
    else if m % twoTo (-q).toNat = 0 then some (sign * (m / twoTo (-q).toNat : Nat))
    else none
  | _ => none

/-- The integer part of a finite number. -/
def truncate? (x : Binary64) : Option Int :=
  match x.kind with
  | .finite m q =>
    let sign : Int := if x.isNegative then -1 else 1
    if 0 ≤ q then some (sign * (m * twoTo q.toNat : Nat)) else some (sign * (m / twoTo (-q).toNat : Nat))
  | _ => none

def isZero (x : Binary64) : Bool :=
  match x.kind with
  | .finite m _ => m == 0
  | _ => false

def isFinite (x : Binary64) : Bool :=
  match x.kind with
  | .finite .. => true
  | _ => false

/-! ## Rounding -/

/-- `num / den` rounded to the nearest natural number, a tie to the even one. -/
def roundDiv (num den : Nat) : Nat :=
  let quotient := num / den
  let twice := 2 * (num % den)
  if den < twice || (twice == den && quotient % 2 == 1) then quotient + 1 else quotient

/-- The fraction `num / den` in units of `2 ^ q`. -/
def scaled (num den : Nat) (q : Int) : Nat × Nat :=
  if 0 ≤ q then (num, den * twoTo q.toNat) else (num * twoTo (-q).toNat, den)

/-- The exponent of the last place of the number nearest to `num / den`: 53 significant bits, but never
below `-1074`. -/
def lastPlace (num den : Nat) : Int :=
  let guess : Int := (num.log2 : Int) - den.log2 - 52
  let (n, d) := scaled num den guess
  max (-1074) (if n / d < twoTo 52 then guess - 1 else guess)

def infinityBits : Nat := 2047 * twoTo 52

def nan : Binary64 := ⟨UInt64.ofNat (infinityBits + twoTo 51)⟩

def ofMagnitude (negative : Bool) (bits : Nat) : Binary64 :=
  ⟨UInt64.ofNat (min bits infinityBits + if negative then twoTo 63 else 0)⟩

def infinity (negative : Bool) : Binary64 :=
  ofMagnitude negative infinityBits

/-- The number nearest to `num / den`. A carry out of the significand raises the exponent, as the fields are
adjacent. -/
def ofRatio (negative : Bool) (num den : Nat) : Binary64 :=
  if num = 0 then ofMagnitude negative 0
  else
    let q := lastPlace num den
    let (n, d) := scaled num den q
    ofMagnitude negative ((q + 1074).toNat * twoTo 52 + roundDiv n d)

/-- The number nearest to `digits · 10 ^ exponent`. From 2 ^ 1024 on everything is infinite and below 2 ^ -1080
everything is zero; as a power of ten is at least the same power of eight, a huge exponent costs nothing. -/
def ofDecimal (negative : Bool) (digits : Nat) (exponent : Int) : Binary64 :=
  let magnitude : Int := digits.log2 + 3 * exponent
  if digits = 0 then ofMagnitude negative 0
  else if 0 ≤ exponent then
    if 1024 ≤ magnitude then infinity negative else ofRatio negative (digits * tenTo exponent.toNat) 1
  else if magnitude < -1080 then ofMagnitude negative 0
  else ofRatio negative digits (tenTo (-exponent).toNat)

end Binary64

end ArenaSql
