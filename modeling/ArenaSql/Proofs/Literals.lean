import ArenaSql.Proofs.Outline
import ArenaSql.Proofs.Paging
import Mathlib.Data.List.Basic

/-!
# Literals

The literals of a statement are the live ones of the query and of the queries nested in it. Each is found by its
address: its position in the arena, behind the positions of the nested queries that it is in.
-/

namespace ArenaSql

/-! ## Positions of leaves -/

/-- The positions of the leaves that a reference leads to, left to right. -/
def leafPositions (nodes : List Node) : Nat → NodeRef → List Nat
  | 0, _ => []
  | n + 1, ref =>
    match locate? nodes ref with
    | none => []
    | some (i, node) =>
      ((node.expr.leaf? i).toList.map fun _ => i) ++ node.expr.children.flatMap (leafPositions nodes n)

/-- The leaf at a position. -/
def leafAt? (nodes : List Node) (i : Nat) : Option Leaf :=
  nodes[i]?.bind fun node => node.expr.leaf? i

theorem Tree.leaves_eq_filterMap {nodes : List Node} {n : Nat} {ref : NodeRef} (h : (unfold nodes n ref).Unbroken) :
    (unfold nodes n ref).leaves = (leafPositions nodes n ref).filterMap (leafAt? nodes) := by
  induction n generalizing ref with
  | zero => exact absurd h (not_unbroken_broken _)
  | succ n ih =>
    obtain ⟨i, node, hlocate, hchildren⟩ := unbroken_unfold_succ.mp h
    have hnode := (locate?_eq_some_iff.mp hlocate).2
    rw [unfold_of_some n hlocate, Expr.leaves_treeWith, leafPositions, hlocate]
    dsimp only
    rw [List.filterMap_append, List.filterMap_flatMap]
    congr 1
    · cases hleaf : node.expr.leaf? i with
      | none => rfl
      | some leaf => simp [leafAt?, hnode, hleaf]
    · exact List.flatMap_congr fun child hchild => ih (hchildren child hchild)

namespace Query

/-- The positions of the live leaves of a query. -/
def livePositions (q : Query) : List Nat :=
  q.liveRoots.flatMap (leafPositions q.nodes (q.nodes.length + 1))

theorem leaves_liveRoots {q : Query} (h : ∀ fault, .broken fault ∉ q.leaves q.liveRoots) :
    q.leaves q.liveRoots = q.livePositions.filterMap (leafAt? q.nodes) := by
  rw [leaves, livePositions, List.filterMap_flatMap]
  refine List.flatMap_congr fun root hroot => Tree.leaves_eq_filterMap fun fault hfault => ?_
  exact h fault (List.mem_flatMap.mpr ⟨root, hroot, hfault⟩)

end Query

/-! ## Addresses -/

mutual

/-- The addresses of the live literals other than null, in the order in which they are read. -/
def Query.literals : Query → List (List Nat)
  | q@{ nodes, .. } => q.livePositions.flatMap fun i => ((literalsAll nodes)[i]?.getD []).map (i :: ·)

def Node.literals : Node → List (List Nat)
  | { expr, .. } => expr.literals

def Expr.literals : Expr → List (List Nat)
  | .value v => if v = .null then [] else [[]]
  | .subquery query _ => query.literals
  | _ => []

def literalsAll : List Node → List (List (List Nat))
  | [] => []
  | node :: rest => node.literals :: literalsAll rest

end

/-- The literal at an address. -/
def Query.literalAt (q : Query) : List Nat → Option Value
  | [] => none
  | i :: path =>
    match q.expr? (.index i) with
    | some (.value v) => if path.isEmpty then some v else none
    | some (.subquery query _) => query.literalAt path
    | _ => none

theorem getElem?_literalsAll (nodes : List Node) (i : Nat) :
    (literalsAll nodes)[i]? = nodes[i]?.map Node.literals := by
  induction nodes generalizing i with
  | nil => rfl
  | cons node rest ih =>
    rw [literalsAll]
    cases i with
    | zero => rfl
    | succ i => exact ih i

namespace Query

/-- The addresses of the literals at a position. -/
def literalsAt (q : Query) (i : Nat) : List (List Nat) :=
  ((q.expr? (.index i)).elim [] Expr.literals).map (i :: ·)

theorem literals_eq (q : Query) : q.literals = q.livePositions.flatMap q.literalsAt := by
  have hliterals : q.literals =
      q.livePositions.flatMap fun i => ((literalsAll q.nodes)[i]?.getD []).map (i :: ·) := by
    cases q
    rw [literals]
  rw [hliterals]
  congr 1
  funext i
  rw [literalsAt, getElem?_literalsAll, expr?_index]
  cases q.nodes[i]? with
  | none => rfl
  | some node =>
    cases node
    rfl

theorem leafAt?_eq (q : Query) (i : Nat) : leafAt? q.nodes i = (q.expr? (.index i)).bind (Expr.leaf? i) := by
  rw [leafAt?, expr?_index, Option.bind_map]
  rfl

/-- The values of a leaf are the literals at its position. -/
theorem leafValues_eq_literalsAt {q : Query} {view : View} {values : List Value} {i : Nat} {leaf : Leaf}
    (hnested : ∀ statement query embedding, view.nested i = .ok statement →
      q.expr? (.index i) = some (.subquery query embedding) →
        statement.values.map some = query.literals.map query.literalAt)
    (hleaf : leafAt? q.nodes i = some leaf) (h : view.leafValues leaf = .ok values) :
    values.map some = (q.literalsAt i).map q.literalAt := by
  rw [leafAt?_eq] at hleaf
  obtain ⟨expr, hexpr, hleaf⟩ := Option.bind_eq_some_iff.mp hleaf
  rw [literalsAt, hexpr, List.map_map, Option.elim_some]
  cases expr with
  | value v =>
    cases hleaf
    cases v with
    | null => cases h; rfl
    | _ => cases h; simp [Expr.literals, literalAt, hexpr]
  | subquery query embedding =>
    cases hleaf
    cases hstatement : view.nested i with
    | error e => rw [View.leafValues, hstatement] at h; cases h
    | ok statement =>
      rw [View.leafValues, hstatement] at h
      cases h
      rw [hnested statement query embedding hstatement hexpr, Expr.literals]
      refine List.map_congr_left fun path _ => ?_
      rw [Function.comp_apply, literalAt, hexpr]
  | field | bare | raw =>
    cases hleaf
    cases h
    rfl
  | _ => cases hleaf

theorem literalsAt_of_not_leaf {q : Query} {i : Nat} (h : leafAt? q.nodes i = none) : q.literalsAt i = [] := by
  rw [leafAt?_eq] at h
  rw [literalsAt]
  cases hexpr : q.expr? (.index i) with
  | none => rfl
  | some expr =>
    rw [hexpr] at h
    cases expr with
    | value | subquery => cases h
    | _ => rfl

theorem collect_eq_literalsAt {q : Query} {view : View} {values : List Value} {positions : List Nat}
    (hnested : ∀ (i : Nat) statement query embedding, view.nested i = .ok statement →
      q.expr? (.index i) = some (.subquery query embedding) →
        statement.values.map some = query.literals.map query.literalAt)
    (h : view.collect (positions.filterMap (leafAt? q.nodes)) = .ok values) :
    values.map some = (positions.flatMap q.literalsAt).map q.literalAt := by
  induction positions generalizing values with
  | nil =>
    cases h
    rfl
  | cons i rest ih =>
    rw [List.flatMap_cons, List.map_append]
    cases hleaf : leafAt? q.nodes i with
    | none =>
      rw [List.filterMap_cons_none hleaf] at h
      rw [literalsAt_of_not_leaf hleaf]
      exact ih h
    | some leaf =>
      rw [List.filterMap_cons_some hleaf] at h
      obtain ⟨first, more, hfirst, hmore, rfl⟩ := View.collect_cons_eq_ok h
      rw [List.map_append, ih hmore, leafValues_eq_literalsAt (hnested i) hleaf hfirst]

theorem literals_embedded (q : Query) (embedding : Embedding) : (q.embedded embedding).literals = q.literals := by
  rw [literals_eq, literals_eq]
  rfl

theorem literalAt_embedded (q : Query) (embedding : Embedding) : (q.embedded embedding).literalAt = q.literalAt := by
  funext path
  cases path with
  | nil => rfl
  | cons i path => rw [literalAt, literalAt]; rfl

end Query

/-- The values of a statement are the live literals of the query, one by one. -/
theorem Context.values_eq_literals {context : Context} (hd : context.dialect.Stateless) {depth : Nat} {q : Query}
    {statement : Statement} (h : ((context.scope depth).outline q).2 = .ok statement) :
    statement.values.map some = q.literals.map q.literalAt := by
  refine outline_induction hd (p := fun q statement => statement.values.map some = q.literals.map q.literalAt)
    (fun scope q statement _ hnested h => ?_) h
  obtain ⟨q₁, q₂, clauses, table, hs⟩ := Scope.outline_eq_ok_iff.mp h
  obtain ⟨hleaves, hnestedAt⟩ := scope.leaves_settleIndex hs.settled
  have hcollect := hs.collected
  have hunbroken := View.unbroken_of_collect hcollect
  rw [hleaves] at hcollect hunbroken
  rw [Query.leaves_liveRoots hunbroken] at hcollect
  rw [Query.literals_eq]
  refine Query.collect_eq_literalsAt (fun i nested query embedding hstatement hexpr => ?_) hcollect
  have hvalues := hnested i query embedding nested hexpr (by rw [← hnestedAt]; exact hstatement)
  rwa [Query.literals_embedded, Query.literalAt_embedded] at hvalues

end ArenaSql
