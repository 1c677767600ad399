import ArenaSql.Proofs.Leaves
import Mathlib.Data.List.Perm.Subperm
import Mathlib.Logic.Relation

/-!
# Reachable references

A reference reaches those that the node it leads to refers to, and whatever these reach. The tree of a reference is
unbroken just when all it reaches is inside the arena and nothing it reaches leads back to itself: a longer path
than the arena has nodes meets a node twice.
-/

namespace ArenaSql

open Relation

/-- The node that a reference leads to refers to another. -/
def Query.Refers (q : Query) (ref child : NodeRef) : Prop :=
  ∃ expr, q.expr? ref = some expr ∧ child ∈ expr.children

namespace Tree

theorem unfold_of_le {nodes : List Node} {n m : Nat} {ref : NodeRef} (hle : n ≤ m) (h : (unfold nodes n ref).Unbroken) :
    unfold nodes m ref = unfold nodes n ref := by
  induction hle with
  | refl => rfl
  | step _ ih =>
    rw [← ih] at h
    exact (unfold_stable h).trans ih

end Tree

namespace Query

variable {q : Query}

/-- Induction over an unbroken tree: what holds of a reference if it holds of those that its node refers to. -/
theorem tree_induction {p : NodeRef → Prop}
    (hstep : ∀ ref i node, locate? q.nodes ref = some (i, node) → q.tree ref = node.expr.treeWith i q.tree →
      (∀ child ∈ node.expr.children, (q.tree child).Unbroken) → (∀ child ∈ node.expr.children, p child) → p ref)
    {ref : NodeRef} (h : (q.tree ref).Unbroken) : p ref := by
  have hunfold : ∀ n ref, n ≤ q.nodes.length + 1 → (Tree.unfold q.nodes n ref).Unbroken → p ref := by
    intro n
    induction n with
    | zero => exact fun ref _ h => absurd h (Tree.not_unbroken_broken _)
    | succ n ih =>
      intro ref hle h
      have htree : q.tree ref = Tree.unfold q.nodes (n + 1) ref := Tree.unfold_of_le hle h
      rw [← htree] at h
      obtain ⟨i, node, hlocate, heq, hchildren⟩ := tree_eq_treeWith h
      rw [htree] at h
      obtain ⟨i', node', hlocate', hunbroken⟩ := Tree.unbroken_unfold_succ.mp h
      rw [hlocate] at hlocate'
      cases hlocate'
      exact hstep ref i node hlocate heq hchildren fun child hchild => ih child (by omega) (hunbroken child hchild)
  exact hunfold _ ref (Nat.le_refl _) h

theorem unbroken_of_refers {ref child : NodeRef} (h : (q.tree ref).Unbroken) (hrefers : q.Refers ref child) :
    (q.tree child).Unbroken := by
  obtain ⟨expr, hexpr, hchild⟩ := hrefers
  obtain ⟨i, node, hlocate, -, hchildren⟩ := tree_eq_treeWith h
  rw [expr?_of_locate? hlocate] at hexpr
  cases hexpr
  exact hchildren child hchild

theorem unbroken_of_reaches {ref other : NodeRef} (h : (q.tree ref).Unbroken) (hreach : ReflTransGen q.Refers ref other) :
    (q.tree other).Unbroken := by
  induction hreach with
  | refl => exact h
  | tail _ hrefers ih => exact unbroken_of_refers ih hrefers

/-- What an unbroken tree reaches is inside the arena. -/
theorem isSome_expr?_of_unbroken {ref : NodeRef} (h : (q.tree ref).Unbroken) : (q.expr? ref).isSome := by
  obtain ⟨i, node, hlocate, -, -⟩ := tree_eq_treeWith h
  rw [expr?_of_locate? hlocate]
  rfl

/-- A leaf of a tree is a broken place or a node that it reaches, even if the tree is broken elsewhere. -/
theorem reaches_of_mem_leaves {ref : NodeRef} {leaf : Leaf} (h : leaf ∈ (q.tree ref).leaves) :
    (∃ fault, leaf = .broken fault) ∨ ∃ other i node, ReflTransGen q.Refers ref other ∧
      locate? q.nodes other = some (i, node) ∧ node.expr.leaf? i = some leaf := by
  have hunfold : ∀ n ref, leaf ∈ (Tree.unfold q.nodes n ref).leaves →
      (∃ fault, leaf = .broken fault) ∨ ∃ other i node, ReflTransGen q.Refers ref other ∧
        locate? q.nodes other = some (i, node) ∧ node.expr.leaf? i = some leaf := by
    intro n
    induction n with
    | zero => exact fun ref h => Or.inl ⟨_, List.mem_singleton.mp h⟩
    | succ n ih =>
      intro ref h
      cases hlocate : locate? q.nodes ref with
      | none =>
        rw [Tree.unfold_of_none n hlocate] at h
        exact Or.inl ⟨_, List.mem_singleton.mp h⟩
      | some found =>
        obtain ⟨i, node⟩ := found
        rw [Tree.unfold_of_some n hlocate, Expr.leaves_treeWith] at h
        rcases List.mem_append.mp h with h | h
        · exact Or.inr ⟨ref, i, node, .refl, hlocate, Option.mem_toList.mp h⟩
        · obtain ⟨child, hchild, h⟩ := List.mem_flatMap.mp h
          refine (ih child h).imp_right ?_
          rintro ⟨other, j, node', hreach, hfound⟩
          exact ⟨other, j, node', .head ⟨node.expr, expr?_of_locate? hlocate, hchild⟩ hreach, hfound⟩
  exact hunfold _ ref h

/-- The leaves of an unbroken tree are nodes that it reaches. -/
theorem mem_leaves_iff {ref : NodeRef} {leaf : Leaf} (h : (q.tree ref).Unbroken) :
    leaf ∈ (q.tree ref).leaves ↔ ∃ other i node, ReflTransGen q.Refers ref other ∧
      locate? q.nodes other = some (i, node) ∧ node.expr.leaf? i = some leaf := by
  constructor
  · intro hleaf
    refine (reaches_of_mem_leaves hleaf).resolve_left ?_
    rintro ⟨fault, rfl⟩
    exact h fault hleaf
  · refine tree_induction (p := fun ref => (∃ other i node, ReflTransGen q.Refers ref other ∧
        locate? q.nodes other = some (i, node) ∧ node.expr.leaf? i = some leaf) → leaf ∈ (q.tree ref).leaves)
      (fun ref i node hlocate htree _ ih => ?_) h
    rintro ⟨other, j, node', hreach, hlocate', hleaf⟩
    rw [htree, Expr.leaves_treeWith, List.mem_append, Option.mem_toList, List.mem_flatMap]
    rcases hreach.cases_head with rfl | ⟨child, ⟨expr, hexpr, hchild⟩, hreach⟩
    · rw [hlocate] at hlocate'
      cases hlocate'
      exact Or.inl hleaf
    · rw [expr?_of_locate? hlocate] at hexpr
      cases hexpr
      exact Or.inr ⟨child, hchild, ih child hchild ⟨other, j, node', hreach, hlocate', hleaf⟩⟩

/-- A cycle through a reference is a cycle through one that its node refers to. -/
theorem acyclic_of_unbroken {ref : NodeRef} (h : (q.tree ref).Unbroken) : ¬ TransGen q.Refers ref ref := by
  refine tree_induction (p := fun ref => ¬ TransGen q.Refers ref ref) (fun ref i node hlocate _ _ ih hcycle => ?_) h
  obtain ⟨child, hrefers, hback⟩ := TransGen.head'_iff.mp hcycle
  have hchild : child ∈ node.expr.children := by
    obtain ⟨expr, hexpr, hchild⟩ := hrefers
    rw [expr?_of_locate? hlocate] at hexpr
    cases hexpr
    exact hchild
  exact ih child hchild (TransGen.tail' hback hrefers)

/-- Two references to one node refer to the same. -/
theorem refers_of_position {ref other child : NodeRef} {i : Nat} (hother : other.position? = some i)
    (href : ref.position? = some i) (h : q.Refers other child) : q.Refers ref child := by
  obtain ⟨expr, hexpr, hchild⟩ := h
  obtain ⟨j, node, hlocate, rfl⟩ := expr?_eq_some_iff.mp hexpr
  obtain ⟨hj, hnode⟩ := locate?_eq_some_iff.mp hlocate
  rw [hother] at hj
  cases hj
  exact ⟨node.expr, expr?_of_locate? (locate?_eq_some_iff.mpr ⟨href, hnode⟩), hchild⟩

/-- Unfolding ends if nothing dangles and nothing leads back to itself. The `path` holds the positions that were
passed on the way to the reference. -/
theorem unbroken_unfold_of_acyclic {root : NodeRef}
    (hinside : ∀ ref, ReflTransGen q.Refers root ref → (q.expr? ref).isSome)
    (hacyclic : ∀ ref, ReflTransGen q.Refers root ref → ¬ TransGen q.Refers ref ref) (n : Nat) (ref : NodeRef)
    (path : List Nat) (hreach : ReflTransGen q.Refers root ref) (hnodup : path.Nodup)
    (hpath : ∀ i ∈ path, i < q.nodes.length ∧ ∃ other, other.position? = some i ∧
      ReflTransGen q.Refers root other ∧ TransGen q.Refers other ref)
    (hlength : path.length + n = q.nodes.length + 1) : (Tree.unfold q.nodes n ref).Unbroken := by
  induction n generalizing ref path with
  | zero =>
    -- the path would hold more positions than there are nodes, and none of them twice
    have hsub : path ⊆ List.range q.nodes.length := fun i hi => List.mem_range.mpr (hpath i hi).1
    have hle := (hnodup.subperm hsub).length_le
    rw [List.length_range] at hle
    omega
  | succ n ih =>
    obtain ⟨expr, hexpr⟩ := Option.isSome_iff_exists.mp (hinside ref hreach)
    obtain ⟨i, node, hlocate, rfl⟩ := expr?_eq_some_iff.mp hexpr
    obtain ⟨hposition, hnode⟩ := locate?_eq_some_iff.mp hlocate
    have hfresh : i ∉ path := by
      intro hi
      obtain ⟨-, other, hother, hreached, hback⟩ := hpath i hi
      obtain ⟨child, hrefers, hforth⟩ := TransGen.head'_iff.mp hback
      -- the reference leads to the node that was passed before, so it refers to the same child
      have hcycle := TransGen.tail' hforth (refers_of_position hother hposition hrefers)
      exact hacyclic child (hreached.tail hrefers) hcycle
    refine Tree.unbroken_unfold_succ.mpr ⟨i, node, hlocate, fun child hchild => ?_⟩
    have hrefers : q.Refers ref child := ⟨node.expr, hexpr, hchild⟩
    refine ih child (i :: path) (hreach.tail hrefers) (List.nodup_cons.mpr ⟨hfresh, hnodup⟩) (fun j hj => ?_) ?_
    · rcases List.mem_cons.mp hj with rfl | hj
      · exact ⟨(List.getElem?_eq_some_iff.mp hnode).1, ref, hposition, hreach, .single hrefers⟩
      · obtain ⟨hlt, other, hother, hreached, hback⟩ := hpath j hj
        exact ⟨hlt, other, hother, hreached, hback.tail hrefers⟩
    · rw [List.length_cons]
      omega

theorem unbroken_iff {root : NodeRef} :
    (q.tree root).Unbroken ↔ ∀ ref, ReflTransGen q.Refers root ref →
      (q.expr? ref).isSome ∧ ¬ TransGen q.Refers ref ref := by
  constructor
  · intro h ref hreach
    have hunbroken := unbroken_of_reaches h hreach
    exact ⟨isSome_expr?_of_unbroken hunbroken, acyclic_of_unbroken hunbroken⟩
  · intro h
    exact unbroken_unfold_of_acyclic (fun ref hreach => (h ref hreach).1) (fun ref hreach => (h ref hreach).2) _ root []
      .refl List.nodup_nil (fun _ hi => by cases hi) (Nat.zero_add _)

end Query

end ArenaSql
