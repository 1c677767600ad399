import ArenaSql.Value.Equality
import ArenaSql.Value.Printer

/-!
# Record indices

The index of a wanted record is counted from one, or from the other end if it is negative. Documents have whole
indices; an edit may also set a fractional one, which is then calculated with as it is.
-/

namespace ArenaSql

namespace Binary64

/-- The number nearest to `x - 1`, for `x` above one. -/
def pred (x : Binary64) : Binary64 :=
  match x.kind with
  | .finite m q =>
    if 0 ≤ q then ofRatio false (m * twoTo q.toNat - 1) 1
    else ofRatio false (m - twoTo (-q).toNat) (twoTo (-q).toNat)
  | _ => x

def exceedsOne (x : Binary64) : Bool :=
  match x.kind with
  | .finite m q => !x.isNegative && (if 0 ≤ q then 1 < m * twoTo q.toNat else twoTo (-q).toNat < m)
  | .infinite => !x.isNegative
  | .nan => false

def neg (x : Binary64) : Binary64 :=
  ⟨x.bits ^^^ UInt64.ofNat (twoTo 63)⟩

end Binary64

inductive RecordIndex where
  | whole (n : Int)
  | fractional (x : Binary64)
  deriving DecidableEq

namespace RecordIndex

def toValue : RecordIndex → Value
  | .whole n => .int n
  | .fractional x => .float x

def isZero : RecordIndex → Bool
  | .whole n => n == 0
  | .fractional x => x.isZero

/-- Whether the index counts from the other end. -/
def isNegative : RecordIndex → Bool
  | .whole n => n < 0
  | .fractional x => x.isNegative && !x.isZero && x.kind != .nan

def neg : RecordIndex → RecordIndex
  | .whole n => .whole (-n)
  | .fractional x => .fractional x.neg

/-- How many records come before the wanted one, if any do. -/
def offset? : RecordIndex → Option String
  | .whole n => if 1 < n then some (toString (n - 1)) else none
  | .fractional x => if x.exceedsOne then some (Value.text (.float x.pred)) else none

end RecordIndex

end ArenaSql
