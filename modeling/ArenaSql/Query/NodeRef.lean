import ArenaSql.Value.Equality
import ArenaSql.Value.Printer

/-!
# References into the arena

A reference gives a position of the arena as an integer, which need not be the position of a node. An edit may
put any value in the place of a reference. A truth value then stands for position zero or one, and other values
for no position at all.
-/

namespace ArenaSql

inductive NodeRef where
  | index (i : Int)
  | other (given : Value)
  deriving DecidableEq

namespace NodeRef

/-- The position that a reference gives, unless that is negative. -/
def position? : NodeRef → Option Nat
  | .index i => i.toNat?
  | .other (.bool b) => some (if b then 1 else 0)
  | .other _ => none

/-- The position that a reference equals. A whole floating-point number equals one, though it leads to no
node. -/
def equalPosition? : NodeRef → Option Nat
  | .other (.float x) => x.toInt?.bind Int.toNat?
  | ref => ref.position?

/-- The reference, where a negative integer counts from the end of an arena of `size` nodes. -/
def fromEnd (size : Nat) : NodeRef → NodeRef
  | .index i => .index (if i < 0 then i + size else i)
  | ref => ref

/-- The reference that a value is when it is put in the place of one. -/
def ofAny : Value → NodeRef
  | .int i => .index i
  | given => .other given

def toValue : NodeRef → Value
  | .index i => .int i
  | .other given => given

def text (ref : NodeRef) : String :=
  ref.toValue.text

/-- Whether null stands in the place of the reference. -/
def isNull : NodeRef → Bool
  | .other .null => true
  | _ => false

@[simp] theorem position?_natCast (i : Nat) : position? (.index i) = some i := rfl

@[simp] theorem equalPosition?_index (i : Int) : equalPosition? (.index i) = position? (.index i) := rfl

end NodeRef

end ArenaSql
