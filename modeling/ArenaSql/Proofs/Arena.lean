import ArenaSql.Resolution

/-!
# Arenas and the trees they unfold to

One level of unfolding at a time, and what happens to the trees when the expressions of an arena are replaced
position by position.
-/

namespace ArenaSql

/-! ## References -/

theorem locate?_eq_some_iff {nodes : List Node} {ref : NodeRef} {i : Nat} {node : Node} :
    locate? nodes ref = some (i, node) ↔ ref.position? = some i ∧ nodes[i]? = some node := by
  simp only [locate?, Option.bind_eq_bind, Option.pure_def, Option.bind_eq_some_iff, Option.some.injEq,
    Prod.mk.injEq]
  constructor
  · rintro ⟨j, hj, node', hnode, rfl, rfl⟩
    exact ⟨hj, hnode⟩
  · rintro ⟨hi, hnode⟩
    exact ⟨i, hi, node, hnode, rfl, rfl⟩

@[simp] theorem locate?_index (nodes : List Node) (i : Nat) :
    locate? nodes (.index i) = nodes[i]?.map (i, ·) := by
  cases h : nodes[i]? <;> simp [locate?, h]

namespace Query

theorem expr?_eq_some_iff {q : Query} {ref : NodeRef} {expr : Expr} :
    q.expr? ref = some expr ↔ ∃ i node, locate? q.nodes ref = some (i, node) ∧ node.expr = expr := by
  simp [expr?, node?]

theorem expr?_index (q : Query) (i : Nat) : q.expr? (.index i) = q.nodes[i]?.map (·.expr) := by
  cases h : q.nodes[i]? <;> simp [expr?, node?, h]

theorem expr?_of_locate? {q : Query} {ref : NodeRef} {i : Nat} {node : Node}
    (h : locate? q.nodes ref = some (i, node)) : q.expr? ref = some node.expr :=
  expr?_eq_some_iff.mpr ⟨i, node, h, rfl⟩

theorem expr?_index_of_locate? {q : Query} {ref : NodeRef} {i : Nat} {node : Node}
    (h : locate? q.nodes ref = some (i, node)) : q.expr? (.index i) = some node.expr := by
  rw [expr?_index, (locate?_eq_some_iff.mp h).2, Option.map_some]

end Query

/-! ## One level of unfolding -/

/-- The tree of the expression at a position, where `sub` gives the trees it refers to. -/
def Expr.treeWith (index : Nat) (sub : NodeRef → Tree) : Expr → Tree
  | .field f => .field index f
  | .value v => .value v
  | .func name args => .func name (args.map fun ref _ => sub ref)
  | .calc op left right => .calc op (fun _ => sub left) (fun _ => sub right)
  | .cmp op left right => .cmp op (fun _ => sub left) (fun _ => sub right)
  | .cond op args => .cond op (args.map fun ref _ => sub ref)
  | .sort expr direction => .sort (fun _ => sub expr) direction
  | .summarise args => .summarise (args.map fun ref _ => sub ref)
  | .subquery _ embedding => .subquery index embedding
  | .bare => .unknown (Expr.className .bare)
  | .raw given => .unknown (Expr.className (.raw given))

theorem Tree.unfold_of_none {nodes : List Node} {ref : NodeRef} (n : Nat) (h : locate? nodes ref = none) :
    Tree.unfold nodes (n + 1) ref = .broken (.outside ref nodes.length) := by
  rw [Tree.unfold, h]

theorem Tree.unfold_of_some {nodes : List Node} {ref : NodeRef} {i : Nat} {node : Node} (n : Nat)
    (h : locate? nodes ref = some (i, node)) :
    Tree.unfold nodes (n + 1) ref = node.expr.treeWith i (Tree.unfold nodes n) := by
  rw [Tree.unfold, h]
  cases hexpr : node.expr <;> simp [hexpr, Expr.treeWith]

/-! ## Replacing expressions position by position -/

/-- The query with every expression replaced, by its position. -/
def Query.mapExprs (f : Nat → Expr → Expr) (q : Query) : Query :=
  { q with nodes := q.nodes.mapIdx fun i node => { node with expr := f i node.expr } }

namespace Query

variable (f : Nat → Expr → Expr) (q : Query)

@[simp] theorem length_mapExprs : (q.mapExprs f).nodes.length = q.nodes.length := by
  simp [mapExprs]

theorem getElem?_mapExprs (i : Nat) :
    (q.mapExprs f).nodes[i]? = q.nodes[i]?.map fun node => { node with expr := f i node.expr } := by
  simp [mapExprs]

theorem locate?_mapExprs (ref : NodeRef) :
    locate? (q.mapExprs f).nodes ref =
      (locate? q.nodes ref).map fun (i, node) => (i, { node with expr := f i node.expr }) := by
  cases hpos : ref.position? with
  | none => simp [locate?, hpos]
  | some i => cases hnode : q.nodes[i]? <;> simp [locate?, hpos, getElem?_mapExprs, hnode]

theorem expr?_mapExprs (ref : NodeRef) :
    (q.mapExprs f).expr? ref = (locate? q.nodes ref).map fun (i, node) => f i node.expr := by
  rw [expr?, node?, locate?_mapExprs]
  cases locate? q.nodes ref <;> rfl

theorem expr?_mapExprs_index (i : Nat) :
    (q.mapExprs f).expr? (.index i) = (q.expr? (.index i)).map (f i) := by
  rw [expr?_mapExprs, locate?_index, expr?_index]
  cases q.nodes[i]? <;> rfl

variable {q} in
theorem mapExprs_congr {f g : Nat → Expr → Expr}
    (h : ∀ (i : Nat) expr, q.expr? (.index i) = some expr → f i expr = g i expr) : q.mapExprs f = q.mapExprs g := by
  have hnodes : (q.mapExprs f).nodes = (q.mapExprs g).nodes := by
    apply List.ext_getElem?
    intro i
    rw [getElem?_mapExprs, getElem?_mapExprs]
    cases hnode : q.nodes[i]? with
    | none => rfl
    | some node => rw [Option.map_some, Option.map_some, h i node.expr (by rw [expr?_index, hnode]; rfl)]
  simpa [mapExprs] using hnodes

variable {f q} in
/-- A replacement that changes no expression of the arena changes nothing. -/
theorem mapExprs_eq_self (h : ∀ (i : Nat) expr, q.expr? (.index i) = some expr → f i expr = expr) :
    q.mapExprs f = q := by
  have hnodes : (q.mapExprs f).nodes = q.nodes := by
    apply List.ext_getElem?
    intro i
    rw [getElem?_mapExprs]
    cases hnode : q.nodes[i]? with
    | none => rfl
    | some node =>
      have hexpr := h i node.expr (by rw [expr?_index, hnode]; rfl)
      rw [Option.map_some, hexpr]
      cases node
      rfl
  cases q
  exact congrArg (fun nodes => Query.mk nodes ..) hnodes

theorem node?_mapExprs_aliasName (ref : NodeRef) :
    ((q.mapExprs f).node? ref).map (·.aliasName) = (q.node? ref).map (·.aliasName) := by
  rw [node?, node?, locate?_mapExprs]
  cases locate? q.nodes ref <;> rfl

end Query

/-- Trees stay the same if every expression has the same kind, words and references as before. -/
theorem Query.tree_mapExprs (f : Nat → Expr → Expr) (q : Query)
    (hf : ∀ i expr sub, (f i expr).treeWith i sub = expr.treeWith i sub) (ref : NodeRef) :
    (q.mapExprs f).tree ref = q.tree ref := by
  have hunfold : ∀ n ref, Tree.unfold (q.mapExprs f).nodes n ref = Tree.unfold q.nodes n ref := by
    intro n
    induction n with
    | zero => intro ref; rfl
    | succ n ih =>
      intro ref
      cases h : locate? q.nodes ref with
      | none =>
        have h' : locate? (q.mapExprs f).nodes ref = none := by rw [locate?_mapExprs, h]; rfl
        rw [Tree.unfold_of_none n h, Tree.unfold_of_none n h', length_mapExprs]
      | some found =>
        obtain ⟨i, node⟩ := found
        have h' : locate? (q.mapExprs f).nodes ref = some (i, { node with expr := f i node.expr }) := by
          rw [locate?_mapExprs, h]; rfl
        rw [Tree.unfold_of_some n h, Tree.unfold_of_some n h', funext ih, hf]
  rw [tree, tree, length_mapExprs, hunfold]

/-! ## Nesting -/

namespace Query

theorem nesting_eq (q : Query) : q.nesting = (q.nodes.map (·.expr.nesting)).foldr max 0 := by
  have hnodes : ∀ nodes : List Node, nestingAll nodes = (nodes.map (·.expr.nesting)).foldr max 0 := by
    intro nodes
    induction nodes with
    | nil => simp [nestingAll]
    | cons node rest ih =>
      cases node
      simp [nestingAll, Node.nesting, ih]
  cases q
  rw [nesting, hnodes]

/-- A query has deeper nesting than the queries nested in it. -/
theorem nesting_lt {q query : Query} {embedding : Embedding} {ref : NodeRef}
    (h : q.expr? ref = some (.subquery query embedding)) : query.nesting < q.nesting := by
  have hmax : ∀ (depths : List Nat) (n : Nat), n ∈ depths → n ≤ depths.foldr max 0 := by
    intro depths n hn
    induction depths with
    | nil => cases hn
    | cons first rest ih =>
      rw [List.foldr_cons]
      rcases List.mem_cons.mp hn with rfl | hn
      · exact Nat.le_max_left ..
      · exact Nat.le_trans (ih hn) (Nat.le_max_right ..)
  obtain ⟨i, node, hlocate, hexpr⟩ := expr?_eq_some_iff.mp h
  have hnode := List.mem_of_getElem? (locate?_eq_some_iff.mp hlocate).2
  have hle := hmax _ _ (List.mem_map_of_mem (f := fun node : Node => node.expr.nesting) hnode)
  rw [← nesting_eq, hexpr, Expr.nesting] at hle
  exact hle

/-- What holds of a query if it holds of the queries nested in it, holds of all queries. -/
theorem nested_induction {p : Query → Prop}
    (hstep : ∀ q : Query, (∀ (i : Nat) query embedding, q.expr? (.index i) = some (.subquery query embedding) → p query) →
      p q) (q : Query) : p q := by
  have hdepth : ∀ n (q : Query), q.nesting < n → p q := by
    intro n
    induction n with
    | zero => exact fun q hq => absurd hq (Nat.not_lt_zero _)
    | succ n ih =>
      intro q hq
      refine hstep q fun i query embedding hexpr => ih query ?_
      exact Nat.lt_of_lt_of_le (nesting_lt hexpr) (Nat.le_of_lt_succ hq)
  exact hdepth (q.nesting + 1) q (Nat.lt_succ_self _)

/-- Replacing expressions by others that nest as deep leaves the nesting as it is. -/
theorem nesting_mapExprs {f : Nat → Expr → Expr} {q : Query}
    (h : ∀ (i : Nat) expr, q.expr? (.index i) = some expr → (f i expr).nesting = expr.nesting) :
    (q.mapExprs f).nesting = q.nesting := by
  have hdepths : (q.mapExprs f).nodes.map (·.expr.nesting) = q.nodes.map (·.expr.nesting) := by
    apply List.ext_getElem?
    intro i
    rw [List.getElem?_map, getElem?_mapExprs, List.getElem?_map]
    cases hnode : q.nodes[i]? with
    | none => rfl
    | some node =>
      have hexpr := h i node.expr (by rw [expr?_index, hnode]; rfl)
      simp [hexpr]
  rw [nesting_eq, nesting_eq, hdepths]

end Query

end ArenaSql
