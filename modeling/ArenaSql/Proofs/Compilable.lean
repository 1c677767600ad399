import ArenaSql.Proofs.Clauses
import ArenaSql.Proofs.Loaded

/-!
# When queries can be compiled

The conditions under which a query has a statement, in terms of the query as it was given: which nodes its clauses
reach, where its fields are, and how its nested queries fare.
-/

namespace ArenaSql

open Relation

/-! ## Fields -/

/-- A field that is resolved, or whose name is the star or has a point, or is a column of the primary table, or is
exposed by a lookup from there. -/
def Field.Placeable (schema : Schema) (primary : String) (f : Field) : Prop :=
  f.resolved ∨ ∃ written, f.name = .text written ∧
    (written = "*" ∨ '.' ∈ written.toList ∨ ∃ table, schema.table? primary = some table ∧
      (written ∈ table.columnNames ∨ ∃ l ∈ schema.lookups, l.fromTable = primary ∧ written ∈ l.columns))

theorem ColumnRef.table_parse_eq_none_iff {name : String} : (parse name).table = none ↔ '.' ∉ name.toList := by
  have hrest : ∀ cs : List Char, cs.drop (cs.takeWhile (· != '.')).length = [] ↔ '.' ∉ cs := by
    intro cs
    induction cs with
    | nil => simp
    | cons c rest ih =>
      by_cases hc : c = '.'
      · simp [hc]
      · simp [hc, Ne.symm hc, ih]
  rw [← hrest, parse]
  split
  · rename_i hnone
    simp [hnone]
  · rename_i hsome
    simp [hsome]

theorem Schema.exists_placeColumn_iff {s : Schema} {primary written : String} :
    (∃ placement, s.placeColumn primary (.text written) = .ok placement) ↔
      ∃ table, s.table? primary = some table ∧
        (written ∈ table.columnNames ∨ ∃ l ∈ s.lookups, l.fromTable = primary ∧ written ∈ l.columns) := by
  cases htable : s.table? primary with
  | none => simp [placeColumn, htable]
  | some table =>
    by_cases hcolumn : written ∈ table.columnNames
    · simp [placeColumn, htable, hcolumn]
    · have hlookup : (s.lookupFor? primary written).isSome ↔
          ∃ l ∈ s.lookups, l.fromTable = primary ∧ written ∈ l.columns := by
        simp [lookupFor?, List.find?_isSome]
      simp only [placeColumn, htable, List.contains_iff_mem, hcolumn, if_false, Option.some.injEq, exists_eq_left',
        false_or, ← hlookup]
      cases s.lookupFor? primary written <;> simp

theorem Schema.exists_place_iff {s : Schema} {primary : String} {name : FieldName} :
    (∃ placement, s.place primary name = .ok placement) ↔ ∃ written, name = .text written ∧
      (written = "*" ∨ '.' ∈ written.toList ∨ ∃ table, s.table? primary = some table ∧
        (written ∈ table.columnNames ∨ ∃ l ∈ s.lookups, l.fromTable = primary ∧ written ∈ l.columns)) := by
  cases name with
  | other given => cases htable : s.table? primary <;> simp [place, placeColumn, htable]
  | text written =>
    simp only [FieldName.text.injEq, exists_eq_left']
    cases hparse : (ColumnRef.parse written).table with
    | some table =>
      have hpoint : '.' ∈ written.toList := by
        by_contra hnot
        rw [ColumnRef.table_parse_eq_none_iff.mpr hnot] at hparse
        cases hparse
      simp [place, hparse, hpoint]
    | none =>
      have hpoint := ColumnRef.table_parse_eq_none_iff.mp hparse
      by_cases hstar : written = "*"
      · subst hstar
        simp [place, hparse]
      · rw [← exists_placeColumn_iff]
        simp [place, hparse, hstar, hpoint]

theorem Field.unplaced?_eq_none_iff {schema : Schema} {primary : String} {f : Field} :
    f.unplaced? schema primary = none ↔ f.Placeable schema primary := by
  rw [unplaced?, Placeable, ← Schema.exists_place_iff]
  cases hresolved : f.resolved with
  | true => simp
  | false => cases hplace : schema.place primary f.name <;> simp

/-! ## Resolved queries -/

/-- The replacement changes what fields hold, and directions, at most. -/
def Expr.KeepsShape (g : Nat → Expr → Expr) : Prop :=
  ∀ i expr, g i expr = expr ∨ (∃ f f', expr = .field f ∧ g i expr = .field f') ∨
    ∃ ref d d', expr = .sort ref d ∧ g i expr = .sort ref d'

theorem Expr.KeepsShape.children {g : Nat → Expr → Expr} (hg : KeepsShape g) (i : Nat) (expr : Expr) :
    (g i expr).children = expr.children := by
  rcases hg i expr with hsame | ⟨f, f', rfl, hfield⟩ | ⟨ref, d, d', rfl, hsort⟩
  · rw [hsame]
  · rw [hfield]
    rfl
  · rw [hsort]
    rfl

/-- The query as its clauses show it, with the record index settled and all live fields resolved. -/
def Query.resolved (context : Context) (q : Query) : Query :=
  let settled := q.settleIndex.1
  (settled.resolveTrees context.schema context.config.joinType settled.liveRoots).1

namespace Query

variable {context : Context} {q : Query}

theorem resolved_eq (context : Context) (q : Query) :
    ∃ g recordIndex forms tables, Expr.KeepsShape g ∧
      q.resolved context = { q.mapExprs g with recordIndex := recordIndex, forms := forms, tables := tables } := by
  obtain ⟨f, recordIndex, forms, hf, hsettled⟩ := q.settleIndex_eq
  obtain ⟨done, joins, hresolved, -⟩ := q.settleIndex.1.resolveLeaves_eq context.schema context.config.joinType
    (q.settleIndex.1.leaves q.settleIndex.1.liveRoots)
  refine ⟨fun i expr => if done i then (f i expr).settled context.schema q.tables.table else f i expr, recordIndex, forms,
    { q.tables with joins := joins }, fun i expr => ?_, ?_⟩
  · dsimp only
    rcases hf i expr with hsame | ⟨ref, d, d', -, rfl, hsort⟩
    · rw [hsame]
      cases expr <;> cases done i <;> simp [Expr.settled]
    · rw [hsort]
      exact Or.inr (Or.inr ⟨ref, d, d', rfl, by cases done i <;> rfl⟩)
  · have hexprs := mapExprs_mapExprs f (fun i expr => if done i then expr.settled context.schema q.tables.table else expr) q
    have heq := congrArg (fun q' : Query => { q' with
      recordIndex := recordIndex, forms := forms, tables := { q.tables with joins := joins } }) hexprs
    rw [resolved, resolveTrees_eq, hresolved, hsettled]
    exact heq

theorem locate?_resolved (context : Context) (q : Query) :
    ∃ g, Expr.KeepsShape g ∧ ∀ ref, locate? (q.resolved context).nodes ref =
      (locate? q.nodes ref).map fun (i, node) => (i, { node with expr := g i node.expr }) := by
  obtain ⟨g, recordIndex, forms, tables, hg, heq⟩ := resolved_eq context q
  refine ⟨g, hg, fun ref => ?_⟩
  rw [heq]
  exact locate?_mapExprs g q ref

theorem roots_resolved : (q.resolved context).roots = q.roots := by
  obtain ⟨g, recordIndex, forms, tables, -, heq⟩ := resolved_eq context q
  rw [heq]
  rfl

theorem summarise_resolved : (q.resolved context).summarise = q.summarise := by
  obtain ⟨g, recordIndex, forms, tables, -, heq⟩ := resolved_eq context q
  rw [heq]
  rfl

/-- References of the resolved query are those of the query. -/
theorem children_resolved (ref : NodeRef) :
    ((q.resolved context).expr? ref).map Expr.children = (q.expr? ref).map Expr.children := by
  obtain ⟨g, hg, hlocate⟩ := locate?_resolved context q
  rw [expr?, node?, hlocate, expr?, node?]
  cases locate? q.nodes ref with
  | none => rfl
  | some found =>
    obtain ⟨i, node⟩ := found
    simp [hg.children]

theorem refers_resolved : (q.resolved context).Refers = q.Refers := by
  have hiff : ∀ (q : Query) ref child,
      q.Refers ref child ↔ ∃ children, (q.expr? ref).map Expr.children = some children ∧ child ∈ children := by
    intro q ref child
    simp [Refers]
  funext ref child
  rw [eq_iff_iff, hiff, hiff, children_resolved]

theorem unbroken_resolved {ref : NodeRef} : ((q.resolved context).tree ref).Unbroken ↔ (q.tree ref).Unbroken := by
  have hsome : ∀ ref, ((q.resolved context).expr? ref).isSome = (q.expr? ref).isSome := by
    intro ref
    have hmap := congrArg Option.isSome (@children_resolved context q ref)
    simpa using hmap
  rw [unbroken_iff, unbroken_iff]
  simp only [refers_resolved, hsome]

/-- The nodes of the resolved query need what the nodes of the query need. -/
theorem admitsAt_resolved {view : View} {ref : NodeRef} :
    view.AdmitsAt (q.resolved context) ref ↔
      ∀ i node, locate? q.nodes ref = some (i, node) → view.Admits i (q.resolved context).tree node.expr := by
  obtain ⟨g, hg, hlocate⟩ := locate?_resolved context q
  have hadmits : ∀ i expr, view.Admits i (q.resolved context).tree (g i expr) ↔
      view.Admits i (q.resolved context).tree expr := by
    intro i expr
    rcases hg i expr with hsame | ⟨f, f', rfl, hfield'⟩ | ⟨child, d, d', rfl, hsort'⟩
    · rw [hsame]
    · rw [hfield']
      exact Iff.rfl
    · rw [hsort']
      exact Iff.rfl
  rw [View.AdmitsAt, hlocate]
  cases locate? q.nodes ref with
  | none => simp
  | some found =>
    obtain ⟨i, node⟩ := found
    simp [hadmits]

/-- The grouping has the same arguments before and after the fields are resolved. -/
theorem groupArgs_resolved_eq_ok_iff {args : List NodeRef} :
    (q.resolved context).groupArgs = .ok args ↔ q.groupArgs = .ok args := by
  obtain ⟨g, hg, hlocate⟩ := locate?_resolved context q
  rw [groupArgs, summarise_resolved, groupArgs]
  cases q.summarise with
  | none => rfl
  | some root =>
    dsimp only
    rw [expr?, node?, hlocate, expr?, node?]
    cases locate? q.nodes root with
    | none => simp
    | some found =>
      obtain ⟨i, node⟩ := found
      simp only [Option.map_some]
      generalize node.expr = expr
      rcases hg i expr with hsame | ⟨f, f', rfl, hfield⟩ | ⟨child, d, d', rfl, hsort⟩
      · rw [hsame]
        cases expr <;> simp
      · simp [hfield]
      · simp [hsort]

theorem exists_groupArgs_iff :
    (∃ args, q.groupArgs = .ok args) ↔ ∀ root ∈ q.summarise, ∃ args, q.expr? root = some (.summarise args) := by
  rw [groupArgs]
  cases q.summarise with
  | none => simp
  | some root =>
    simp only [Option.mem_def, Option.some.injEq, forall_eq']
    cases q.expr? root with
    | none => simp
    | some expr => cases expr <;> simp

theorem leaves_resolved (ref : NodeRef) : ((q.resolved context).tree ref).leaves = (q.tree ref).leaves := by
  obtain ⟨g, recordIndex, forms, tables, hg, heq⟩ := resolved_eq context q
  have hleaf : ∀ i expr, (g i expr).leaf? i = (expr.leaf? i).map id := by
    intro i expr
    rw [Option.map_id]
    rcases hg i expr with hsame | ⟨f, f', rfl, hfield⟩ | ⟨child, d, d', rfl, hsort⟩
    · rw [hsame]
      rfl
    · rw [hfield]
      rfl
    · rw [hsort]
      rfl
  have hleaves := leaves_tree_mapExprs (q := q) id (fun i expr _ => hleaf i expr) (fun i expr _ => hg.children i expr)
    (fun _ => rfl) ref
  rw [List.map_id] at hleaves
  rw [heq]
  exact hleaves

theorem isSimple_resolved (ref : NodeRef) : ((q.resolved context).tree ref).isSimple = (q.tree ref).isSimple := by
  obtain ⟨g, recordIndex, forms, tables, hg, heq⟩ := resolved_eq context q
  have hexpr : ∀ i expr (sub sub' : NodeRef → Tree), (∀ ref, (sub ref).isSimple = (sub' ref).isSimple) →
      ((g i expr).treeWith i sub).isSimple = (expr.treeWith i sub').isSimple := by
    intro i expr sub sub' hsub
    rcases hg i expr with hsame | ⟨f, f', rfl, hfield⟩ | ⟨child, d, d', rfl, hsort⟩
    · rw [hsame]
      cases expr <;> simp [Expr.treeWith, Tree.isSimple, hsub]
    · simp [hfield, Expr.treeWith, Tree.isSimple]
    · simp [hsort, Expr.treeWith, Tree.isSimple, hsub]
  have hunfold : ∀ n ref, (Tree.unfold (q.mapExprs g).nodes n ref).isSimple = (Tree.unfold q.nodes n ref).isSimple := by
    intro n
    induction n with
    | zero => exact fun _ => rfl
    | succ n ih =>
      intro ref
      have hlocate := q.locate?_mapExprs g ref
      cases h : locate? q.nodes ref with
      | none =>
        rw [h] at hlocate
        rw [Tree.unfold_of_none n h, Tree.unfold_of_none n hlocate, length_mapExprs]
      | some found =>
        obtain ⟨i, node⟩ := found
        rw [h] at hlocate
        rw [Tree.unfold_of_some n h, Tree.unfold_of_some n hlocate]
        exact hexpr i node.expr _ _ ih
  have htree := hunfold (q.nodes.length + 1) ref
  rw [heq, tree, tree]
  simp only [length_mapExprs]
  exact htree

end Query

theorem Scope.Succeeds.resolved_eq {scope : Scope} {q q₁ q₂ : Query} {statement : Statement} {clauses : List Sql}
    {table : AliasTable} (h : scope.Succeeds q statement q₁ q₂ clauses table) :
    q₂ = q.resolved scope.toContext := by
  rw [Query.resolved, h.settled, Query.resolveTrees_eq, h.resolved]

/-! ## The conditions -/

/-- Some clause of the query reaches the reference. -/
def Query.Reaches (q : Query) (ref : NodeRef) : Prop :=
  ∃ root ∈ q.roots, ReflTransGen q.Refers root ref

/-- The expression of the reference has a text when it is rendered. -/
def Query.hasText (context : Context) (q : Query) (ref : NodeRef) : Bool :=
  ((q.resolved context).tree ref).hasText (q.resolved context).tables

/-- The conditions under which a query has a statement. -/
inductive Query.Compilable (context : Context) : Query → Prop where
  | intro {q : Query}
    -- An ordering that is turned around has no dangling terms.
    (turned : ∀ index ∈ q.recordIndex, index.isNegative → ∀ ref ∈ q.order, (q.expr? ref).isSome)
    (inside : ∀ ref, q.Reaches ref → (q.expr? ref).isSome)
    (acyclic : ∀ ref, q.Reaches ref → ¬ TransGen q.Refers ref ref)
    (placed : ∀ ref f, q.Reaches ref → q.expr? ref = some (.field f) → f.Placeable context.schema q.tables.table)
    (grouping : ∀ root ∈ q.summarise, ∃ args, q.expr? root = some (.summarise args))
    -- At most one predicate of a negation has a text.
    (negations : ∀ ref args, q.Reaches ref → q.expr? ref = some (.cond .neg args) →
      (args.filter (q.hasText context)).length ≤ 1)
    (nested : ∀ ref query embedding, q.Reaches ref → q.expr? ref = some (.subquery query embedding) →
      (query.embedded embedding).Compilable context) :
    q.Compilable context

end ArenaSql
