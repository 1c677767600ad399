import ArenaSql.Proofs.Resolved

/-!
# Joins

Resolving fields joins the lookups they need. A field that was resolved on the way needs nothing any more when it is
met again, but then its lookup is joined already; so the joins are those of the lookups that the fields need as they
are given, each where it is first needed.
-/

namespace ArenaSql

/-! ## Joining several lookups -/

/-- The join through a lookup. -/
def Lookup.join (type : JoinType) (l : Lookup) : Join :=
  ⟨l.key, l.toTable, l.fromCol, l.toCol, type⟩

namespace Sources

variable {type : JoinType}

/-- Joins lookups one after another. -/
def joinAll (s : Sources) (type : JoinType) (lookups : List Lookup) : Sources :=
  lookups.foldl (·.join type ·) s

theorem join_of_hasJoin {s : Sources} {l : Lookup} (h : s.hasJoin l.key) : s.join type l = s := by
  simp [join, h]

theorem hasJoin_join (s : Sources) (l : Lookup) (key : String) :
    (s.join type l).hasJoin key = (s.hasJoin key || l.key == key) := by
  by_cases h : s.hasJoin l.key
  · rw [join_of_hasJoin h]
    by_cases hkey : l.key = key
    · simp [← hkey, h]
    · simp [hkey]
  · rw [join, if_neg h]
    simp [hasJoin]

theorem hasJoin_joinAny {s : Sources} {key : String} (h : s.hasJoin key) (lookup : Option Lookup) :
    (s.joinAny type lookup).hasJoin key := by
  cases lookup with
  | none => exact h
  | some l => rw [joinAny, hasJoin_join, h, Bool.true_or]

theorem hasJoin_joinAny_self (s : Sources) (l : Lookup) : (s.joinAny type (some l)).hasJoin l.key := by
  rw [joinAny, hasJoin_join]
  simp

/-- What is joined already may be asked for or not. -/
theorem foldl_joinAny_congr {α : Type} {need need' : α → Option Lookup} (items : List α) {s : Sources}
    (h : ∀ a ∈ items, need a = need' a ∨ need a = none ∧ ∀ l ∈ need' a, s.hasJoin l.key) :
    items.foldl (fun s a => s.joinAny type (need a)) s = items.foldl (fun s a => s.joinAny type (need' a)) s := by
  induction items generalizing s with
  | nil => rfl
  | cons a rest ih =>
    have hstep : s.joinAny type (need a) = s.joinAny type (need' a) := by
      rcases h a List.mem_cons_self with hsame | ⟨hnone, hjoined⟩
      · rw [hsame]
      · rw [hnone]
        cases hneed : need' a with
        | none => rfl
        | some l => exact (join_of_hasJoin (hjoined l hneed)).symm
    rw [List.foldl_cons, List.foldl_cons, ← hstep]
    refine ih fun b hb => (h b (List.mem_cons_of_mem _ hb)).imp_right fun hjoined => ?_
    exact ⟨hjoined.1, fun l hl => hasJoin_joinAny (hjoined.2 l hl) _⟩

theorem table_joinAll (lookups : List Lookup) (s : Sources) : (s.joinAll type lookups).table = s.table := by
  induction lookups generalizing s with
  | nil => rfl
  | cons l rest ih =>
    have hjoin : (s.join type l).table = s.table := by
      rw [join]
      split <;> rfl
    exact (ih _).trans hjoin

theorem joinAll_filterMap {α : Type} (need : α → Option Lookup) (items : List α) (s : Sources) :
    s.joinAll type (items.filterMap need) = items.foldl (fun s a => s.joinAny type (need a)) s := by
  induction items generalizing s with
  | nil => rfl
  | cons a rest ih =>
    rw [List.foldl_cons, ← ih, List.filterMap_cons]
    cases need a <;> rfl

/-- Lookups that are told apart by their keys are joined where they first occur, unless they are joined before. -/
theorem joins_joinAll {lookups : List Lookup} (s : Sources)
    (hkeys : ∀ l ∈ lookups, ∀ l' ∈ lookups, l.key = l'.key → l = l') :
    (s.joinAll type lookups).joins =
      s.joins ++ (lookups.filter fun l => !s.hasJoin l.key).eraseDups.map (Lookup.join type) := by
  induction lookups generalizing s with
  | nil => simp [joinAll]
  | cons l rest ih =>
    have hrest := fun s : Sources => ih s fun a ha b hb => hkeys a (List.mem_cons_of_mem _ ha) b (List.mem_cons_of_mem _ hb)
    by_cases h : s.hasJoin l.key
    · rw [joinAll, List.foldl_cons, join_of_hasJoin h, ← joinAll, hrest, List.filter_cons_of_neg (by simp [h])]
    · have hjoins : (s.join type l).joins = s.joins ++ [l.join type] := by simp [join, h, Lookup.join]
      have hfilter : (rest.filter fun a => !(s.join type l).hasJoin a.key) =
          (rest.filter fun a => !s.hasJoin a.key).filter fun a => !a == l := by
        rw [List.filter_filter]
        refine List.filter_congr fun a ha => ?_
        have hsame : (l.key == a.key) = (a == l) := by
          rw [Bool.eq_iff_iff, beq_iff_eq, beq_iff_eq]
          exact ⟨fun hkey => (hkeys l List.mem_cons_self a (List.mem_cons_of_mem _ ha) hkey).symm, fun h => by rw [h]⟩
        rw [hasJoin_join, hsame]
        cases s.hasJoin a.key <;> simp
      rw [joinAll, List.foldl_cons, ← joinAll, hrest, hjoins, hfilter, List.filter_cons_of_pos (by simp [h]),
        List.eraseDups_cons, List.map_cons, List.append_assoc, List.singleton_append]

end Sources

/-! ## Fields among leaves -/

/-- What the fields of a tree hold, left to right. -/
def Tree.fieldList : Tree → List Field
  | .field _ f => [f]
  | .func _ args | .cond _ args | .summarise args => fieldListAll args
  | .calc _ left right | .cmp _ left right => (left ()).fieldList ++ (right ()).fieldList
  | .sort expr _ => (expr ()).fieldList
  | .value _ | .subquery .. | .unknown _ | .broken _ => []
where
  fieldListAll : List (Unit → Tree) → List Field
    | [] => []
    | t :: rest => (t ()).fieldList ++ fieldListAll rest

theorem Tree.fieldListAll_map {α : Type} (f : α → Tree) (items : List α) :
    fieldList.fieldListAll (items.map fun item _ => f item) = items.flatMap fun item => (f item).fieldList := by
  induction items with
  | nil => rfl
  | cons item rest ih => rw [List.map_cons, fieldList.fieldListAll, ih, List.flatMap_cons]

/-- The field that an expression is. -/
def Expr.field? : Expr → Option Field
  | .field f => some f
  | _ => none

theorem Expr.fieldList_treeWith (index : Nat) (sub : NodeRef → Tree) (expr : Expr) :
    (expr.treeWith index sub).fieldList = expr.field?.toList ++ expr.children.flatMap fun ref => (sub ref).fieldList := by
  cases expr with
  | func | cond | summarise => exact Tree.fieldListAll_map sub _
  | _ => simp [treeWith, field?, children, Tree.fieldList]

namespace Query

variable {schema : Schema} {type : JoinType}

/-- The field that a leaf stands for. -/
def field? (q : Query) : Leaf → Option Field
  | .field i => q.fieldAt? i
  | _ => none

/-- What the fields among some leaves hold. -/
def fieldsOf (q : Query) (leaves : List Leaf) : List Field :=
  leaves.filterMap q.field?

/-- The fields of a tree are those that its leaves stand for. -/
theorem fieldsOf_leaves_tree (q : Query) (ref : NodeRef) : q.fieldsOf (q.tree ref).leaves = (q.tree ref).fieldList := by
  have hunfold : ∀ n ref, q.fieldsOf (Tree.unfold q.nodes n ref).leaves = (Tree.unfold q.nodes n ref).fieldList := by
    intro n
    induction n with
    | zero => exact fun _ => rfl
    | succ n ih =>
      intro ref
      cases hlocate : locate? q.nodes ref with
      | none =>
        rw [Tree.unfold_of_none n hlocate]
        rfl
      | some found =>
        obtain ⟨i, node⟩ := found
        have hown : q.fieldsOf (node.expr.leaf? i).toList = node.expr.field?.toList := by
          have hexpr := expr?_index_of_locate? hlocate
          cases hnode : node.expr with
          | field f =>
            rw [hnode] at hexpr
            simp [fieldsOf, Expr.leaf?, Expr.field?, field?, fieldAt?_eq_some_iff.mpr hexpr]
          | _ => rfl
        rw [Tree.unfold_of_some n hlocate, Expr.leaves_treeWith, Expr.fieldList_treeWith, ← hown, fieldsOf,
          List.filterMap_append, List.filterMap_flatMap]
        exact congrArg (_ ++ List.flatMap · node.expr.children) (funext ih)
  exact hunfold _ ref

/-- The lookup that a leaf needs. -/
def need? (schema : Schema) (q : Query) (leaf : Leaf) : Option Lookup :=
  (q.field? leaf).bind (Field.needed? schema q.tables.table)

theorem filterMap_need? (q : Query) (leaves : List Leaf) :
    leaves.filterMap (q.need? schema) = (q.fieldsOf leaves).filterMap (Field.needed? schema q.tables.table) := by
  rw [fieldsOf, List.filterMap_filterMap]
  rfl

/-- A field that was settled needs nothing, and its lookup is joined. -/
theorem need?_settledAt {q : Query} {i : Nat} (hplaced : q.unplaced? schema i = none) (leaf : Leaf) :
    let sources := q.tables.joinAny type (q.needed? schema i)
    let need := (q.settledAt schema (· == i) sources.joins).need? schema leaf
    need = q.need? schema leaf ∨ need = none ∧ ∀ l ∈ q.need? schema leaf, sources.hasJoin l.key := by
  cases leaf with
  | field j =>
    simp only [need?, field?, fieldAt?, expr?_settledAt]
    cases hexpr : q.expr? (.index j) with
    | none => exact Or.inl rfl
    | some expr =>
      cases expr with
      | field f =>
        by_cases hji : j = i
        · subst hji
          have hfield : q.fieldAt? j = some f := fieldAt?_eq_some_iff.mpr hexpr
          rw [unplaced?, hfield, Option.bind_some] at hplaced
          refine Or.inr ⟨?_, fun l hl => ?_⟩
          · simp [Expr.settled, Field.needed?, Field.resolved_settled hplaced]
          · have hneeded : q.needed? schema j = some l := by rw [needed?, hfield]; exact hl
            rw [hneeded]
            exact Sources.hasJoin_joinAny_self _ l
        · left
          simp [hji, settledAt]
      | _ => left; by_cases hji : j = i <;> simp [hji, Expr.settled]
  | _ => exact Or.inl rfl

/-- Resolution joins the lookups that the fields need as they are given. -/
theorem tables_resolveLeaves {leaves : List Leaf} {q q' : Query}
    (h : q.resolveLeaves schema type leaves = (q', none)) :
    q'.tables = q.tables.joinAll type ((q.fieldsOf leaves).filterMap (Field.needed? schema q.tables.table)) := by
  rw [← filterMap_need?, Sources.joinAll_filterMap]
  induction leaves generalizing q with
  | nil =>
    cases h
    rfl
  | cons leaf rest ih =>
    cases leaf with
    | field i =>
      rw [resolveLeaves, Leaf.visitAll, resolveAt_eq] at h
      cases hplaced : q.unplaced? schema i with
      | some e => rw [hplaced] at h; cases h
      | none =>
        rw [hplaced] at h
        have hsources : (q.settledAt schema (· == i) (q.tables.joinAny type (q.needed? schema i)).joins).tables =
            q.tables.joinAny type (q.needed? schema i) := (Sources.joinAny_eq ..).symm
        rw [ih h, hsources, List.foldl_cons]
        exact Sources.foldl_joinAny_congr rest fun leaf _ => need?_settledAt hplaced leaf
    | broken fault => cases h
    | value | subquery | unknown => exact ih h

end Query

end ArenaSql
