import ArenaSql.Dialect.Basic
import ArenaSql.Value.Equality
import ArenaSql.Value.Printer

/-!
# Operators

The words in expressions, each with its spelling in documents and in SQL. Documents have the words of a closed
set; an edit may put any other value in the place of a word, and that value is then written as it is.
-/

namespace ArenaSql

/-- The word that a value spells, or what stands for that value if it spells none. -/
def spelled {α : Type} (all : List α) (spelling : α → String) (other : Value → α) (v : Value) : α :=
  (all.find? fun word => .str (spelling word) = v).getD (other v)

inductive CalcOp where
  | add
  | sub
  | mul
  | div
  | mod
  | other (given : Value)
  deriving DecidableEq

namespace CalcOp

def all : List CalcOp := [.add, .sub, .mul, .div, .mod]

def toValue : CalcOp → Value
  | .add => .str "+"
  | .sub => .str "-"
  | .mul => .str "*"
  | .div => .str "/"
  | .mod => .str "%"
  | .other given => given

def text (op : CalcOp) : String :=
  op.toValue.text

def ofAny : Value → CalcOp :=
  spelled all text .other

end CalcOp

inductive CmpOp where
  | eq
  | ne
  | lt
  | le
  | gt
  | ge
  | like (op : LikeOp)
  | other (given : Value)
  deriving DecidableEq

namespace CmpOp

def all : List CmpOp := [.eq, .ne, .lt, .le, .gt, .ge, .like .like, .like .ilike]

def toValue : CmpOp → Value
  | .eq => .str "="
  | .ne => .str "!="
  | .lt => .str "<"
  | .le => .str "<="
  | .gt => .str ">"
  | .ge => .str ">="
  | .like op => .str op.text
  | .other given => given

def text (op : CmpOp) : String :=
  op.toValue.text

def ofAny : Value → CmpOp :=
  spelled all text .other

/-- How the operator reads when its right side is null, if it has such a reading. -/
def nullTest? : CmpOp → Option String
  | .eq => some "IS NULL"
  | .ne => some "IS NOT NULL"
  | _ => none

end CmpOp

inductive CondOp where
  | conj
  | disj
  | neg
  | other (given : Value)
  deriving DecidableEq

namespace CondOp

def all : List CondOp := [.conj, .disj, .neg]

def toValue : CondOp → Value
  | .conj => .str "AND"
  | .disj => .str "OR"
  | .neg => .str "NOT"
  | .other given => given

def text (op : CondOp) : String :=
  op.toValue.text

def ofAny : Value → CondOp :=
  spelled all text .other

end CondOp

inductive Direction where
  | asc
  | desc
  | other (given : Value)
  deriving DecidableEq

namespace Direction

def all : List Direction := [.asc, .desc]

def toValue : Direction → Value
  | .asc => .str "ASC"
  | .desc => .str "DESC"
  | .other given => given

def text (direction : Direction) : String :=
  direction.toValue.text

def ofAny : Value → Direction :=
  spelled all text .other

/-- Whatever is not descending is reversed to descending. -/
def reverse : Direction → Direction
  | .desc => .asc
  | _ => .desc

end Direction

/-- How a nested query is embedded: as a test whether it has rows, as the value it yields, or otherwise as a
table. -/
inductive Embedding where
  | presence
  | scalar
  | other (given : Value)
  deriving DecidableEq

namespace Embedding

def all : List Embedding := [.presence, .scalar]

def toValue : Embedding → Value
  | .presence => .str "exists"
  | .scalar => .str "expr"
  | .other given => given

def text (embedding : Embedding) : String :=
  embedding.toValue.text

def ofAny : Value → Embedding :=
  spelled all text .other

end Embedding

end ArenaSql
