import ArenaSql.Config
import ArenaSql.Query.Tree
import ArenaSql.Text.Numeral

/-!
# Paging

A query may ask for one record by its index and for a number of records by its count option. A negative index
counts from the other end: it is made positive, and the ordering is reversed. Index zero asks for nothing.
-/

namespace ArenaSql.Query

/-- Reverses the sort node at a position. What is no sort node stays as it is. -/
def reverseAt (q : Query) (index : Nat) : Query :=
  match q.expr? (.index index) with
  | some (.sort expr direction) => q.setExpr index (.sort expr direction.reverse)
  | _ => q

/-- Reverses sort nodes one after another, up to a reference that dangles. -/
def reverseEach : List NodeRef → Query → Query × Option CompileError
  | [], q => (q, none)
  | ref :: rest, q =>
    match locate? q.nodes ref with
    | none => (q, some (.arena (.outside ref q.nodes.length)))
    | some (index, _) => reverseEach rest (q.reverseAt index)

/-- Makes the record index positive or absent. -/
def settleIndex (q : Query) : Query × Option CompileError :=
  match q.recordIndex with
  | none => (q, none)
  | some index =>
    let forms := Fields.erase "record_index" q.forms
    if index.isZero then ({ q with recordIndex := none, forms }, none)
    else if index.isNegative then reverseEach q.order { q with recordIndex := some index.neg, forms }
    else (q, none)

/-- The positive number that the count option gives. -/
def count? (q : Query) (option : String) : Option Int := do
  let args ← q.option? option
  let count ← Text.integer? (← args.head?)
  if 0 < count then some count else none

/-- The limiting clause: the count, or one record if only an index is given. -/
def limit? (q : Query) (option : String) : Option String :=
  match q.count? option, q.recordIndex with
  | none, none => none
  | some count, none => some s!"LIMIT {count}"
  | count?, some index =>
    let count := count?.getD 1
    match index.offset? with
    | some offset => some s!"LIMIT {count} OFFSET {offset}"
    | none => some s!"LIMIT {count}"

end ArenaSql.Query
