import ArenaSql.Proofs.Arena

/-!
# Leaves

Most readings of an expression only look at its leaves, from left to right: resolution visits the fields, and the
values of an expression are those of its literals and nested queries. A broken place is a leaf at which every
reading ends. What a field holds is not part of its leaf, so resolving fields leaves the leaves alone.
-/

namespace ArenaSql

inductive Leaf where
  | field (index : Nat)
  | value (v : Value)
  | subquery (index : Nat)
  | unknown (className : String)
  | broken (fault : ArenaFault)

/-- The leaves of a tree, left to right. -/
def Tree.leaves : Tree → List Leaf
  | .field index _ => [.field index]
  | .value v => [.value v]
  | .subquery index _ => [.subquery index]
  | .unknown className => [.unknown className]
  | .broken fault => [.broken fault]
  | .func _ args | .cond _ args | .summarise args => leavesAll args
  | .calc _ left right | .cmp _ left right => (left ()).leaves ++ (right ()).leaves
  | .sort expr _ => (expr ()).leaves
where
  leavesAll : List (Unit → Tree) → List Leaf
    | [] => []
    | t :: rest => (t ()).leaves ++ leavesAll rest

/-- The leaves of several expressions. -/
def Query.leaves (q : Query) (roots : List NodeRef) : List Leaf :=
  roots.flatMap fun root => (q.tree root).leaves

theorem Tree.leavesAll_map {α : Type} (f : α → Tree) (items : List α) :
    leaves.leavesAll (items.map fun item _ => f item) = items.flatMap fun item => (f item).leaves := by
  induction items with
  | nil => rfl
  | cons item rest ih => rw [List.map_cons, leaves.leavesAll, ih, List.flatMap_cons]

/-! ## Walks -/

namespace Leaf

variable {σ : Type} (visit : Nat → σ → σ × Option CompileError)

/-- Visits the fields, up to a visit that fails or a broken place. -/
def visitAll : List Leaf → σ → σ × Option CompileError
  | [], s => (s, none)
  | .field index :: rest, s =>
    match visit index s with
    | (s, none) => visitAll rest s
    | failed => failed
  | .broken fault :: _, s => (s, some (.arena fault))
  | _ :: rest, s => visitAll rest s

theorem visitAll_append (first rest : List Leaf) (s : σ) :
    visitAll visit (first ++ rest) s =
      match visitAll visit first s with
      | (s, none) => visitAll visit rest s
      | failed => failed := by
  induction first generalizing s with
  | nil => rfl
  | cons leaf more ih =>
    cases leaf with
    | field index =>
      rw [List.cons_append, visitAll, visitAll]
      rcases visit index s with ⟨s', _ | e⟩
      · exact ih s'
      · rfl
    | broken fault => rfl
    | value | subquery | unknown => exact ih s

end Leaf

section Walk

variable {σ : Type} (visit : Nat → σ → σ × Option CompileError)

mutual

theorem Tree.walk_eq_visitAll : (t : Tree) → (s : σ) → t.walk visit s = Leaf.visitAll visit t.leaves s
  | .field index _, s => by
    rw [walk, leaves, Leaf.visitAll]
    rcases visit index s with ⟨s', _ | e⟩ <;> rfl
  | .func _ args, s | .cond _ args, s | .summarise args, s => by
    rw [walk, leaves]
    exact walkAll_eq_visitAll args s
  | .calc _ left right, s | .cmp _ left right, s => by
    rw [walk, leaves, Leaf.visitAll_append, walk_eq_visitAll (left ()) s]
    rcases Leaf.visitAll visit (left ()).leaves s with ⟨s', _ | e⟩
    · exact walk_eq_visitAll (right ()) s'
    · rfl
  | .sort expr _, s => by
    rw [walk, leaves]
    exact walk_eq_visitAll (expr ()) s
  | .value _, _ | .subquery .., _ | .unknown _, _ | .broken _, _ => by
    rw [walk, leaves]
    rfl

theorem Tree.walkAll_eq_visitAll :
    (ts : List (Unit → Tree)) → (s : σ) → walkAll visit ts s = Leaf.visitAll visit (leaves.leavesAll ts) s
  | [], _ => by
    rw [walkAll]
    rfl
  | t :: rest, s => by
    rw [walkAll, leaves.leavesAll, Leaf.visitAll_append, walk_eq_visitAll (t ()) s]
    rcases Leaf.visitAll visit (t ()).leaves s with ⟨s', _ | e⟩
    · exact walkAll_eq_visitAll rest s'
    · rfl

end

end Walk

/-! ## Broken places -/

/-- No place of the tree is broken. -/
def Tree.Unbroken (t : Tree) : Prop :=
  ∀ fault, .broken fault ∉ t.leaves

theorem Tree.not_unbroken_broken (fault : ArenaFault) : ¬ (broken fault).Unbroken :=
  fun h => h fault (List.mem_singleton_self _)

/-- The leaf that an expression is, by its position. -/
def Expr.leaf? (index : Nat) : Expr → Option Leaf
  | .field _ => some (.field index)
  | .value v => some (.value v)
  | .subquery .. => some (.subquery index)
  | .bare => some (.unknown (className .bare))
  | .raw given => some (.unknown (className (.raw given)))
  | _ => none

theorem Expr.leaf?_ne_broken {index : Nat} {expr : Expr} {fault : ArenaFault} :
    expr.leaf? index ≠ some (.broken fault) := by
  cases expr <;> simp [leaf?]

/-- An expression is a leaf, or its leaves are those of the expressions it refers to. -/
theorem Expr.leaves_treeWith (index : Nat) (sub : NodeRef → Tree) (expr : Expr) :
    (expr.treeWith index sub).leaves =
      (expr.leaf? index).toList ++ expr.children.flatMap fun ref => (sub ref).leaves := by
  cases expr with
  | func | cond | summarise => exact Tree.leavesAll_map sub _
  | _ => simp [treeWith, leaf?, children, Tree.leaves]

theorem Expr.unbroken_treeWith {index : Nat} {sub : NodeRef → Tree} {expr : Expr} :
    (expr.treeWith index sub).Unbroken ↔ ∀ ref ∈ expr.children, (sub ref).Unbroken := by
  simp only [Tree.Unbroken, leaves_treeWith, List.mem_append, Option.mem_toList, leaf?_ne_broken,
    false_or, List.mem_flatMap, not_exists, not_and]
  exact ⟨fun h ref href fault => h fault ref href, fun h fault ref href => h ref href fault⟩

theorem Expr.treeWith_congr (index : Nat) {sub sub' : NodeRef → Tree} (expr : Expr)
    (h : ∀ ref ∈ expr.children, sub ref = sub' ref) : expr.treeWith index sub = expr.treeWith index sub' := by
  cases expr <;> simp_all [treeWith, children]

namespace Tree

/-- A reference whose tree is not broken leads to a node, and so do the references from there. -/
theorem unbroken_unfold_succ {nodes : List Node} {ref : NodeRef} {n : Nat} :
    (unfold nodes (n + 1) ref).Unbroken ↔
      ∃ i node, locate? nodes ref = some (i, node) ∧ ∀ child ∈ node.expr.children, (unfold nodes n child).Unbroken := by
  cases h : locate? nodes ref with
  | none =>
    rw [unfold_of_none n h]
    simp [not_unbroken_broken]
  | some found =>
    obtain ⟨i, node⟩ := found
    rw [unfold_of_some n h, Expr.unbroken_treeWith]
    constructor
    · intro hchildren
      exact ⟨i, node, rfl, hchildren⟩
    · rintro ⟨_, _, ⟨rfl, rfl⟩, hchildren⟩
      exact hchildren

/-- A tree without a broken place does not change when it is unfolded further. -/
theorem unfold_stable {nodes : List Node} {n : Nat} {ref : NodeRef} (h : (unfold nodes n ref).Unbroken) :
    unfold nodes (n + 1) ref = unfold nodes n ref := by
  induction n generalizing ref with
  | zero => exact absurd h (not_unbroken_broken _)
  | succ n ih =>
    obtain ⟨i, node, hlocate, hchildren⟩ := unbroken_unfold_succ.mp h
    rw [unfold_of_some (n + 1) hlocate, unfold_of_some n hlocate]
    exact Expr.treeWith_congr i node.expr fun child hchild => ih (hchildren child hchild)

/-- A leaf is a broken place or stands for a node. -/
theorem node_of_mem_leaves {nodes : List Node} {n : Nat} {ref : NodeRef} {leaf : Leaf}
    (h : leaf ∈ (unfold nodes n ref).leaves) :
    (∃ fault, leaf = .broken fault) ∨
      ∃ (i : Nat) (node : Node), nodes[i]? = some node ∧ node.expr.leaf? i = some leaf := by
  induction n generalizing ref with
  | zero => exact Or.inl ⟨_, List.mem_singleton.mp h⟩
  | succ n ih =>
    cases hlocate : locate? nodes ref with
    | none =>
      rw [unfold_of_none n hlocate] at h
      exact Or.inl ⟨_, List.mem_singleton.mp h⟩
    | some found =>
      obtain ⟨i, node⟩ := found
      rw [unfold_of_some n hlocate, Expr.leaves_treeWith] at h
      rcases List.mem_append.mp h with h | h
      · exact Or.inr ⟨i, node, (locate?_eq_some_iff.mp hlocate).2, Option.mem_toList.mp h⟩
      · obtain ⟨child, -, hchild⟩ := List.mem_flatMap.mp h
        exact ih hchild

end Tree

theorem Query.expr_of_mem_leaves {q : Query} {roots : List NodeRef} {leaf : Leaf} (h : leaf ∈ q.leaves roots) :
    (∃ fault, leaf = .broken fault) ∨ ∃ (i : Nat) (expr : Expr), q.expr? (.index i) = some expr ∧
      expr.leaf? i = some leaf := by
  obtain ⟨root, -, hroot⟩ := List.mem_flatMap.mp h
  rcases Tree.node_of_mem_leaves hroot with hbroken | ⟨i, node, hnode, hleaf⟩
  · exact Or.inl hbroken
  · exact Or.inr ⟨i, node.expr, by rw [expr?_index, hnode, Option.map_some], hleaf⟩

/-- Leaves change as the expressions do that are replaced. -/
theorem Query.leaves_tree_mapExprs {q : Query} {f : Nat → Expr → Expr} (change : Leaf → Leaf)
    (hleaf : ∀ (i : Nat) expr, q.expr? (.index i) = some expr → (f i expr).leaf? i = (expr.leaf? i).map change)
    (hchildren : ∀ (i : Nat) expr, q.expr? (.index i) = some expr → (f i expr).children = expr.children)
    (hbroken : ∀ fault, change (.broken fault) = .broken fault) (ref : NodeRef) :
    ((q.mapExprs f).tree ref).leaves = (q.tree ref).leaves.map change := by
  have hunfold : ∀ n ref, (Tree.unfold (q.mapExprs f).nodes n ref).leaves =
      (Tree.unfold q.nodes n ref).leaves.map change := by
    intro n
    induction n with
    | zero => intro ref; exact congrArg (fun leaf => [leaf]) (hbroken _).symm
    | succ n ih =>
      intro ref
      cases h : locate? q.nodes ref with
      | none =>
        have h' : locate? (q.mapExprs f).nodes ref = none := by rw [locate?_mapExprs, h]; rfl
        rw [Tree.unfold_of_none n h, Tree.unfold_of_none n h', length_mapExprs]
        exact congrArg (fun leaf => [leaf]) (hbroken _).symm
      | some found =>
        obtain ⟨i, node⟩ := found
        have h' : locate? (q.mapExprs f).nodes ref = some (i, { node with expr := f i node.expr }) := by
          rw [locate?_mapExprs, h]; rfl
        have hexpr := expr?_index_of_locate? h
        rw [Tree.unfold_of_some n h, Tree.unfold_of_some n h', Expr.leaves_treeWith, Expr.leaves_treeWith,
          hleaf i _ hexpr, hchildren i _ hexpr, List.map_append, List.map_flatMap, Option.toList_map, funext ih]
  rw [tree, tree, length_mapExprs, hunfold]

/-- The leaf of a nested query leads to a nested query. -/
theorem Query.subquery_of_mem_leaves {q : Query} {roots : List NodeRef} {i : Nat}
    (h : .subquery i ∈ q.leaves roots) :
    ∃ query embedding, q.expr? (.index i) = some (.subquery query embedding) := by
  rcases expr_of_mem_leaves h with ⟨fault, hfault⟩ | ⟨j, expr, hexpr, hleaf⟩
  · cases hfault
  · cases expr <;> simp only [Expr.leaf?, Option.some.injEq, Leaf.subquery.injEq, reduceCtorEq] at hleaf
    subst hleaf
    exact ⟨_, _, hexpr⟩

/-- The tree of a reference is made of the trees of the references from there, unless it is broken. -/
theorem Query.tree_eq_treeWith {q : Query} {ref : NodeRef} (h : (q.tree ref).Unbroken) :
    ∃ i node, locate? q.nodes ref = some (i, node) ∧ q.tree ref = node.expr.treeWith i q.tree ∧
      ∀ child ∈ node.expr.children, (q.tree child).Unbroken := by
  obtain ⟨i, node, hlocate, hchildren⟩ := Tree.unbroken_unfold_succ.mp h
  have hstable : ∀ child ∈ node.expr.children, Tree.unfold q.nodes q.nodes.length child = q.tree child :=
    fun child hchild => (Tree.unfold_stable (hchildren child hchild)).symm
  refine ⟨i, node, hlocate, ?_, fun child hchild => ?_⟩
  · rw [tree, Tree.unfold_of_some _ hlocate]
    exact Expr.treeWith_congr i node.expr hstable
  · rw [← hstable child hchild]
    exact hchildren child hchild

end ArenaSql
