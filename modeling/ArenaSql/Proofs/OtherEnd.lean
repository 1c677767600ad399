import ArenaSql.Proofs.Recompile
import Mathlib.Algebra.Group.Nat.Even

/-!
# Counting from the other end

A record index that counts from the other end asks for the same record as the positive index does in a reversed
ordering. The ordering is reversed in the arena, though, term by term: a sort node is reversed as often as the ordering
leads to it, so that a node that stands there twice keeps its direction. Compiling the query with the one index yields
all that compiling the query with the other one yields, if its sort nodes are reversed that often.
-/

namespace ArenaSql

/-! ## Directions -/

/-- A direction is back after two turns, unless it was none at first. -/
theorem Direction.reverse_reverse_reverse (direction : Direction) :
    direction.reverse.reverse.reverse = direction.reverse := by
  cases direction <;> rfl

theorem Direction.iterate_reverse_of_odd {n : Nat} (h : Odd n) (direction : Direction) :
    Direction.reverse^[n] direction = direction.reverse := by
  obtain ⟨k, rfl⟩ := h
  induction k with
  | zero => rfl
  | succ k ih =>
    rw [show 2 * (k + 1) + 1 = 2 * k + 1 + 1 + 1 by omega, Function.iterate_succ_apply', Function.iterate_succ_apply',
      ih, reverse_reverse_reverse]

/-- The sort node at a position, with its direction reversed a number of times. -/
def Expr.turned (times : Nat → Nat) (i : Nat) : Expr → Expr
  | .sort ref direction => .sort ref (Direction.reverse^[times i] direction)
  | expr => expr

namespace Query

/-- The query that asks for a record by its index. -/
def withIndex (q : Query) (index : RecordIndex) : Query :=
  { q with recordIndex := some index, forms := Fields.erase "record_index" q.forms }

/-- The query with its sort nodes reversed, each a number of times. -/
def turned (times : Nat → Nat) (q : Query) : Query :=
  q.mapExprs (Expr.turned times)

/-- How often references lead to a position. -/
def timesAt (refs : List NodeRef) (i : Nat) : Nat :=
  refs.countP (·.position? == some i)

/-! ## Reversing the ordering -/

theorem turned_zero (q : Query) : q.turned (fun _ => 0) = q :=
  mapExprs_eq_self fun _ expr _ => by cases expr <;> rfl

/-- Reversing one more node adds one to its turns. -/
theorem reverseAt_turned (times : Nat → Nat) (i : Nat) (q : Query) :
    (q.turned times).reverseAt i = q.turned fun j => times j + if j = i then 1 else 0 := by
  rw [reverseAt_eq, turned, mapExprs_mapExprs, turned]
  congr 1
  funext j expr
  cases expr with
  | sort ref direction =>
    simp only [Expr.turned, reversedAt]
    split
    · rw [Function.iterate_succ_apply']
    · rfl
  | _ => rfl

/-- Reversing nodes one after another adds to the turns of each how often it occurs. -/
theorem reverseEach_turned (times : Nat → Nat) {refs : List NodeRef} {q : Query}
    (h : ∀ ref ∈ refs, (q.expr? ref).isSome) :
    (q.turned times).reverseEach refs = (q.turned fun i => times i + timesAt refs i, none) := by
  induction refs generalizing times with
  | nil => rfl
  | cons ref rest ih =>
    rw [List.forall_mem_cons] at h
    obtain ⟨expr, hexpr⟩ := Option.isSome_iff_exists.mp h.1
    obtain ⟨i, node, hlocate, -⟩ := expr?_eq_some_iff.mp hexpr
    have hposition : ref.position? = some i := (locate?_eq_some_iff.mp hlocate).1
    have hturned : locate? (q.turned times).nodes ref = some (i, { node with expr := node.expr.turned times i }) := by
      rw [turned, locate?_mapExprs, hlocate]
      rfl
    rw [reverseEach, hturned]
    dsimp only
    rw [reverseAt_turned, ih _ h.2]
    congr 2
    funext j
    have hcount : timesAt (ref :: rest) j = timesAt rest j + if j = i then 1 else 0 := by
      simp [timesAt, List.countP_cons, hposition, eq_comm (a := j)]
    rw [hcount]
    omega

/-- Settling an index that counts from the other end turns each sort node as often as it occurs in the ordering. -/
theorem settleIndex_withIndex {q : Query} {index : RecordIndex} (hzero : index.isZero = false)
    (hnegative : index.isNegative) (horder : ∀ ref ∈ q.order, (q.expr? ref).isSome) :
    (q.withIndex index).settleIndex = ((q.turned (timesAt q.order)).withIndex index.neg, none) := by
  have herase : Fields.erase "record_index" (Fields.erase "record_index" q.forms) = Fields.erase "record_index" q.forms := by
    simp [Fields.erase]
  have hreverse := reverseEach_turned (fun _ => 0) (q := q.withIndex index.neg) horder
  simp only [turned_zero, Nat.zero_add] at hreverse
  rw [settleIndex, withIndex]
  simp only [hzero, hnegative, Bool.false_eq_true, if_false, if_true, herase]
  exact hreverse

end Query

/-! ## Compiling -/

/-- Compiling starts from the settled index, if it can be settled. -/
theorem Query.compileWith_settleIndex (context inner : Context) {q : Query} (h : q.settleIndex.2 = none) :
    q.compileWith context inner = q.settleIndex.1.compileWith context inner := by
  have hsettled := settleIndex_of_settled q.settled_settleIndex.1
  have hquery : q.settleIndex = (q.settleIndex.1, none) := Prod.ext rfl h
  have hpasses : ∀ scope : Scope, scope.passes.run { query := q, requested := 0 } =
      scope.passes.run { query := q.settleIndex.1, requested := 0 } := by
    intro scope
    rw [Scope.passes_eq, DraftM.run_bind, DraftM.run_bind, DraftM.run_onQuery, DraftM.run_onQuery]
    dsimp only
    rw [hsettled, hquery]
  rw [compileWith, compileWith, Context.scopeWith, Context.scopeWith, nesting_settleIndex]
  simp only [Scope.compile, Scope.statement, DraftM.run_bind, hpasses]

/-- A query that asks for the record with an index from the other end compiles like the query that asks for the record
with that index, where each sort node is reversed as often as it occurs in the ordering. If the sort nodes occur there
an odd number of times, then that is the query where each of them is reversed once. -/
theorem Query.compileWith_fromOtherEnd (context inner : Context) {q : Query} {n : Int} (hn : 1 ≤ n)
    (horder : ∀ ref ∈ q.order, (q.expr? ref).isSome) :
    (q.withIndex (.whole (-n))).compileWith context inner =
        ((q.turned (timesAt q.order)).withIndex (.whole n)).compileWith context inner ∧
      ((∀ (i : Nat) ref direction, q.expr? (.index i) = some (.sort ref direction) → 0 < timesAt q.order i →
          Odd (timesAt q.order i)) →
        (q.withIndex (.whole (-n))).compileWith context inner =
          ((q.turned fun i => min 1 (timesAt q.order i)).withIndex (.whole n)).compileWith context inner) := by
  have hsettle : (q.withIndex (.whole (-n))).settleIndex =
      ((q.turned (timesAt q.order)).withIndex (.whole n), none) := by
    have hzero : (RecordIndex.whole (-n)).isZero = false := by
      simp only [RecordIndex.isZero, beq_eq_false_iff_ne]
      omega
    have hnegative : (RecordIndex.whole (-n)).isNegative := by
      simp only [RecordIndex.isNegative, decide_eq_true_eq]
      omega
    rw [settleIndex_withIndex hzero hnegative horder, RecordIndex.neg, Int.neg_neg]
  have hturned : (q.withIndex (.whole (-n))).compileWith context inner =
      ((q.turned (timesAt q.order)).withIndex (.whole n)).compileWith context inner := by
    rw [compileWith_settleIndex context inner (by rw [hsettle]), hsettle]
  refine ⟨hturned, fun hodd => ?_⟩
  have honce : q.turned (timesAt q.order) = q.turned fun i => min 1 (timesAt q.order i) := by
    refine mapExprs_congr fun i expr hexpr => ?_
    cases expr with
    | sort ref direction =>
      simp only [Expr.turned]
      rcases Nat.eq_zero_or_pos (timesAt q.order i) with hnever | hoccurs
      · simp only [hnever, Nat.min_zero]
      · rw [Direction.iterate_reverse_of_odd (hodd i ref direction hexpr hoccurs), Nat.min_eq_left hoccurs,
          Function.iterate_one]
    | _ => rfl
  rw [hturned, honce]

/-- The regions of the customers, by region and number as the ordering says. -/
def Query.regionsBy (order : List NodeRef) : Query where
  nodes :=
    [{ expr := .field { name := .text "region" } }, { expr := .sort (.index 0) .asc },
     { expr := .field { name := .text "id" } }, { expr := .sort (.index 2) .desc }]
  select := [.index 0]
  order := order
  ordered := true
  tables := { table := "customers" }

/-- Where the ordering has the region three times and the number once, each of the two is reversed. -/
theorem Query.compileWith_fromOtherEnd_regionsBy :
    let q := regionsBy [.index 1, .index 3, .index 1, .index 1]
    ((q.withIndex (.whole (-2))).compileWith .customers .customers).result.toOption.map Statement.text =
        some ("SELECT addresses.region FROM customers LEFT JOIN addresses ON customers.aid = addresses.id " ++
          "ORDER BY addresses.region DESC, customers.id ASC, addresses.region DESC, addresses.region DESC " ++
          "LIMIT 1 OFFSET 1") ∧
      (q.withIndex (.whole (-2))).compileWith .customers .customers =
        ((q.turned fun i => min 1 (timesAt q.order i)).withIndex (.whole 2)).compileWith .customers .customers := by
  intro q
  have horder : ∀ ref ∈ q.order, (q.expr? ref).isSome := by decide
  refine ⟨by decide +kernel, (compileWith_fromOtherEnd .customers .customers (by decide) horder).2 ?_⟩
  intro i ref direction hexpr hoccurs
  match i with
  | 0 | 2 => cases hexpr
  | 1 | 3 => decide
  | i + 4 => cases hexpr

/-- Where the ordering has the region twice, it is not reversed. -/
theorem Query.compileWith_fromOtherEnd_twice :
    let q := regionsBy [.index 1, .index 1]
    (∀ ref ∈ q.order, (q.expr? ref).isSome) ∧
      ((q.withIndex (.whole (-1))).compileWith .customers .customers).result.toOption.map Statement.text =
        some ("SELECT addresses.region FROM customers LEFT JOIN addresses ON customers.aid = addresses.id " ++
          "ORDER BY addresses.region ASC, addresses.region ASC LIMIT 1") ∧
      (((q.turned fun i => min 1 (timesAt q.order i)).withIndex (.whole 1)).compileWith .customers
          .customers).result.toOption.map Statement.text =
        some ("SELECT addresses.region FROM customers LEFT JOIN addresses ON customers.aid = addresses.id " ++
          "ORDER BY addresses.region DESC, addresses.region DESC LIMIT 1") := by
  decide +kernel

end ArenaSql
