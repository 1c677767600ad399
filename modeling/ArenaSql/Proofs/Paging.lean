import ArenaSql.Proofs.Resolved
import ArenaSql.Query.Paging

/-!
# Settling the record index

Making the record index positive touches the index itself and the directions of sort nodes, and is done once for
all. It fails only if the index counts from the other end and a term of the ordering dangles.
-/

namespace ArenaSql

/-- The replacement at most gives sort nodes another of the two directions. -/
def Expr.KeepsButDirections (f : Nat → Expr → Expr) : Prop :=
  ∀ i expr, f i expr = expr ∨ ∃ ref direction, ∃ direction' ∈ Direction.all,
    expr = .sort ref direction ∧ f i expr = .sort ref direction'

namespace Expr.KeepsButDirections

variable {f g : Nat → Expr → Expr}

theorem refl : KeepsButDirections fun _ expr => expr :=
  fun _ _ => Or.inl rfl

theorem comp (hf : KeepsButDirections f) (hg : KeepsButDirections g) :
    KeepsButDirections fun i expr => g i (f i expr) := by
  intro i expr
  rcases hf i expr with h | ⟨ref, d, d', hd, rfl, h⟩
  · simp only [h]
    exact hg i expr
  · simp only [h]
    rcases hg i (.sort ref d') with h' | ⟨ref', e, e', he, heq, h'⟩
    · exact Or.inr ⟨ref, d, d', hd, rfl, h'⟩
    · cases heq
      exact Or.inr ⟨ref, d, e', he, rfl, h'⟩

theorem leaf? (hf : KeepsButDirections f) (i : Nat) (expr : Expr) : (f i expr).leaf? i = expr.leaf? i := by
  rcases hf i expr with h | ⟨ref, d, d', -, rfl, h⟩ <;> rw [h]
  rfl

theorem children (hf : KeepsButDirections f) (i : Nat) (expr : Expr) : (f i expr).children = expr.children := by
  rcases hf i expr with h | ⟨ref, d, d', -, rfl, h⟩ <;> rw [h]
  rfl

theorem leaves (hf : KeepsButDirections f) (q : Query) (roots : List NodeRef) :
    (q.mapExprs f).leaves roots = q.leaves roots := by
  have htree : ∀ root, ((q.mapExprs f).tree root).leaves = (q.tree root).leaves := by
    intro root
    have hmap := Query.leaves_tree_mapExprs (q := q) (f := f) id (fun i expr _ => by simp [hf.leaf?])
      (fun i expr _ => hf.children i expr) (fun _ => rfl) root
    rwa [List.map_id] at hmap
  simp only [Query.leaves, htree]

end Expr.KeepsButDirections

namespace Query

def reversedAt (i : Nat) (j : Nat) (expr : Expr) : Expr :=
  match expr with
  | .sort ref direction => if j = i then .sort ref direction.reverse else expr
  | _ => expr

theorem keepsButDirections_reversedAt (i : Nat) : Expr.KeepsButDirections (reversedAt i) := by
  intro j expr
  cases expr with
  | sort ref direction =>
    rw [reversedAt]
    split
    · exact Or.inr ⟨ref, direction, direction.reverse, by cases direction <;> simp [Direction.reverse, Direction.all], rfl, rfl⟩
    · exact Or.inl rfl
  | _ => exact Or.inl rfl

theorem reverseAt_eq (q : Query) (i : Nat) : q.reverseAt i = q.mapExprs (reversedAt i) := by
  rw [reverseAt]
  split
  · rename_i ref direction hexpr
    refine setExpr_eq_mapExprs hexpr (by simp [reversedAt]) fun j expr hj => ?_
    cases expr <;> simp [reversedAt, hj]
  · rename_i hnot
    refine (mapExprs_eq_self fun j expr hexpr => ?_).symm
    cases expr with
    | sort ref direction =>
      rw [reversedAt, if_neg]
      rintro rfl
      exact hnot ref direction hexpr
    | _ => rfl

theorem isSome_locate?_mapExprs (f : Nat → Expr → Expr) (q : Query) (ref : NodeRef) :
    (locate? (q.mapExprs f).nodes ref).isSome = (locate? q.nodes ref).isSome := by
  rw [locate?_mapExprs, Option.isSome_map]

/-- Reversing changes directions at most, and succeeds unless a reference dangles. -/
theorem reverseEach_eq (refs : List NodeRef) (q : Query) :
    (∃ f, Expr.KeepsButDirections f ∧ (q.reverseEach refs).1 = q.mapExprs f) ∧
      ((q.reverseEach refs).2 = none ↔ ∀ ref ∈ refs, (locate? q.nodes ref).isSome) := by
  induction refs generalizing q with
  | nil => exact ⟨⟨_, .refl, (mapExprs_eq_self fun _ _ _ => rfl).symm⟩, by simp [reverseEach]⟩
  | cons ref rest ih =>
    rw [reverseEach]
    cases hlocate : locate? q.nodes ref with
    | none => exact ⟨⟨_, .refl, (mapExprs_eq_self fun _ _ _ => rfl).symm⟩, by simp [hlocate]⟩
    | some found =>
      obtain ⟨i, node⟩ := found
      obtain ⟨⟨f, hf, hquery⟩, hnone⟩ := ih (q.reverseAt i)
      dsimp only
      rw [reverseAt_eq] at hquery hnone ⊢
      refine ⟨⟨_, (keepsButDirections_reversedAt i).comp hf, hquery.trans (mapExprs_mapExprs _ _ q)⟩, ?_⟩
      rw [hnone, List.forall_mem_cons, hlocate]
      simp only [isSome_locate?_mapExprs, Option.isSome_some, true_and]

/-- Settling the record index changes the index and directions at most. -/
theorem settleIndex_eq (q : Query) :
    ∃ f recordIndex forms, Expr.KeepsButDirections f ∧
      q.settleIndex.1 = { q.mapExprs f with recordIndex := recordIndex, forms := forms } := by
  have hsame : q.mapExprs (fun _ expr => expr) = q := mapExprs_eq_self fun _ _ _ => rfl
  rw [settleIndex]
  cases hindex : q.recordIndex with
  | none =>
    refine ⟨_, q.recordIndex, q.forms, .refl, ?_⟩
    rw [hsame]
    cases q
    rfl
  | some index =>
    dsimp only
    split
    · exact ⟨_, none, Fields.erase "record_index" q.forms, .refl, by rw [hsame]⟩
    · split
      · obtain ⟨⟨f, hf, hquery⟩, -⟩ := reverseEach_eq q.order
          { q with recordIndex := some index.neg, forms := Fields.erase "record_index" q.forms }
        exact ⟨f, _, _, hf, hquery⟩
      · refine ⟨_, q.recordIndex, q.forms, .refl, ?_⟩
        rw [hsame]
        cases q
        rfl

theorem expr?_settleIndex_subquery {q query : Query} {embedding : Embedding} {i : Nat} :
    q.settleIndex.1.expr? (.index i) = some (.subquery query embedding) ↔
      q.expr? (.index i) = some (.subquery query embedding) := by
  obtain ⟨f, recordIndex, forms, hf, hquery⟩ := q.settleIndex_eq
  have hexpr : q.settleIndex.1.expr? (.index i) = (q.expr? (.index i)).map (f i) := by
    rw [hquery]
    exact q.expr?_mapExprs_index f i
  rw [hexpr]
  cases q.expr? (.index i) with
  | none => rfl
  | some expr =>
    rcases hf i expr with hsame | ⟨ref, d, d', -, rfl, hsort⟩
    · rw [Option.map_some, hsame]
    · simp [hsort]

theorem settleIndex_eq_none_iff (q : Query) :
    q.settleIndex.2 = none ↔
      ∀ index, q.recordIndex = some index → index.isZero = false → index.isNegative = true →
        ∀ ref ∈ q.order, (locate? q.nodes ref).isSome := by
  rw [settleIndex]
  cases hindex : q.recordIndex with
  | none => simp
  | some index =>
    dsimp only
    split
    · rename_i hzero
      simp [hzero]
    · rename_i hzero
      split
      · rename_i hnegative
        rw [(reverseEach_eq q.order _).2]
        simp [hzero, hnegative]
      · rename_i hnegative
        simp [hnegative]

/-! ## Changes elsewhere -/

/-- A change of parts of a query other than its arena and its sources, which does not look at these either. -/
structure Aside (change : Query → Query) : Prop where
  nodes : ∀ q, (change q).nodes = q.nodes
  tables : ∀ q, (change q).tables = q.tables
  setExpr : ∀ q i expr, (change q).setExpr i expr = change (q.setExpr i expr)
  setTables : ∀ (q : Query) tables, { change q with tables := tables } = change { q with tables := tables }

namespace Aside

variable {change : Query → Query} (h : Aside change)

include h

theorem expr? (q : Query) (ref : NodeRef) : (change q).expr? ref = q.expr? ref := by
  rw [Query.expr?, Query.expr?, node?, node?, h.nodes]

/-- Sort nodes are reversed in the same way, whatever is changed elsewhere. -/
theorem reverseEach (refs : List NodeRef) (q : Query) :
    Query.reverseEach refs (change q) = (change (Query.reverseEach refs q).1, (Query.reverseEach refs q).2) := by
  induction refs generalizing q with
  | nil => rfl
  | cons ref rest ih =>
    have hreverse : ∀ i, (change q).reverseAt i = change (q.reverseAt i) := by
      intro i
      rw [reverseAt, reverseAt, h.expr?]
      split
      · exact h.setExpr q i _
      · rfl
    rw [Query.reverseEach, Query.reverseEach, h.nodes]
    cases locate? q.nodes ref with
    | none => rfl
    | some found =>
      dsimp only
      rw [hreverse, ih]

/-- Fields are resolved in the same way, whatever is changed elsewhere. -/
theorem resolveLeaves (schema : Schema) (type : JoinType) (leaves : List Leaf) (q : Query) :
    (change q).resolveLeaves schema type leaves =
      (change (q.resolveLeaves schema type leaves).1, (q.resolveLeaves schema type leaves).2) := by
  induction leaves generalizing q with
  | nil => rfl
  | cons leaf rest ih =>
    cases leaf with
    | field i =>
      have hresolve : (change q).resolveAt schema type i = (q.resolveAt schema type i).map change := by
        rw [resolveAt, resolveAt, h.expr?, h.tables]
        split
        · rename_i f _
          cases f.resolve schema type q.tables with
          | error e => rfl
          | ok found =>
            dsimp only
            rw [h.setExpr]
            exact congrArg Except.ok (h.setTables (q.setExpr i (.field found.1)) found.2)
        · rfl
      rw [Query.resolveLeaves, Leaf.visitAll, Leaf.visitAll, hresolve]
      cases q.resolveAt schema type i with
      | error e => rfl
      | ok q' => exact ih q'
    | broken fault => rfl
    | value | subquery | unknown => exact ih q

end Aside

end Query

end ArenaSql
