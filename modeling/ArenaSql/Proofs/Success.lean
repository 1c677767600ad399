import ArenaSql.Proofs.Compilable

/-!
# Success

A loaded query has a statement just when it meets the conditions of `Query.Compilable`, as long as the numbers of
generated aliases do not get too long. In one direction, the conditions are read off the steps of a successful
compilation; in the other, no step fails.
-/

namespace ArenaSql

open Relation

theorem RecordIndex.isZero_of_isNegative {index : RecordIndex} (h : index.isNegative) : index.isZero = false := by
  cases index with
  | whole n =>
    simp only [isNegative, decide_eq_true_eq] at h
    simp only [isZero, beq_eq_false_iff_ne]
    omega
  | fractional x =>
    simp only [isNegative, Bool.and_eq_true, Bool.not_eq_true'] at h
    exact h.1.2

/-! ## Passes without faults -/

/-- Settling the record index has no influence on whether fields can be placed. -/
theorem Query.unplaced?_settleIndex {schema : Schema} {q q₁ : Query} {fault : Option CompileError}
    (h : q.settleIndex = (q₁, fault)) (i : Nat) : q₁.unplaced? schema i = q.unplaced? schema i := by
  obtain ⟨f, recordIndex, forms, hf, hquery⟩ := q.settleIndex_eq
  rw [h] at hquery
  subst hquery
  have hfield : Query.fieldAt? { q.mapExprs f with recordIndex := recordIndex, forms := forms } i = q.fieldAt? i := by
    refine q.fieldAt?_mapExprs (f := f) (fun i expr field => ?_) i
    rcases hf i expr with hsame | ⟨ref, d, d', -, rfl, hsort⟩
    · rw [hsame]
    · simp [hsort]
  rw [unplaced?, unplaced?, hfield]
  rfl

theorem Query.fault?_settleIndex {schema : Schema} {q q₁ : Query} {fault : Option CompileError}
    (h : q.settleIndex = (q₁, fault)) (leaves : List Leaf) : q₁.fault? schema leaves = q.fault? schema leaves := by
  induction leaves with
  | nil => rfl
  | cons leaf rest ih => cases leaf <;> simp only [fault?, ih, unplaced?_settleIndex h]

/-- If all that a query reaches is unbroken, its live leaves are the leaves among the nodes it reaches. -/
theorem Query.mem_live_leaves_iff {q : Query} (h : ∀ ref, q.Reaches ref → (q.tree ref).Unbroken) {leaf : Leaf} :
    leaf ∈ q.leaves q.liveRoots ↔ ∃ ref i node, q.Reaches ref ∧ locate? q.nodes ref = some (i, node) ∧
      node.expr.leaf? i = some leaf := by
  rw [leaves, List.mem_flatMap]
  constructor
  · rintro ⟨root, hlive, hleaf⟩
    have hroot := (mem_liveRoots_iff.mp hlive).1
    obtain ⟨ref, i, node, hreach, hnode⟩ := (mem_leaves_iff (h root ⟨root, hroot, .refl⟩)).mp hleaf
    exact ⟨ref, i, node, ⟨root, hroot, hreach⟩, hnode⟩
  · rintro ⟨ref, i, node, ⟨root, hroot, hreach⟩, hnode⟩
    have hunbroken := h root ⟨root, hroot, .refl⟩
    have hnull : root.isNull = false := by
      rw [Bool.eq_false_iff]
      intro hnull
      have hsome := isSome_expr?_of_unbroken hunbroken
      rw [expr?, node?, locate?_of_isNull hnull] at hsome
      cases hsome
    exact ⟨root, mem_liveRoots_iff.mpr ⟨hroot, hnull⟩, (mem_leaves_iff hunbroken).mpr ⟨ref, i, node, hreach, hnode⟩⟩

theorem Query.fault?_eq_none_iff_placeable {schema : Schema} {q : Query}
    (h : ∀ ref, q.Reaches ref → (q.tree ref).Unbroken) :
    q.fault? schema (q.leaves q.liveRoots) = none ↔
      ∀ ref f, q.Reaches ref → q.expr? ref = some (.field f) → f.Placeable schema q.tables.table := by
  have hplaced : ∀ ref i node f, locate? q.nodes ref = some (i, node) → node.expr = .field f →
      (q.unplaced? schema i = none ↔ f.Placeable schema q.tables.table) := by
    intro ref i node f hlocate hnode
    have hfield : q.fieldAt? i = some f := by
      rw [fieldAt?_eq_some_iff, expr?_index_of_locate? hlocate, hnode]
    rw [unplaced?, hfield, Option.bind_some, Field.unplaced?_eq_none_iff]
  rw [fault?_eq_none_iff]
  constructor
  · rintro ⟨-, hall⟩ ref f hreach hexpr
    obtain ⟨i, node, hlocate, hnode⟩ := expr?_eq_some_iff.mp hexpr
    refine (hplaced ref i node f hlocate hnode).mp (hall i ?_)
    exact (mem_live_leaves_iff h).mpr ⟨ref, i, node, hreach, hlocate, by rw [hnode]; rfl⟩
  · refine fun hall => ⟨fun fault hfault => ?_, fun i hi => ?_⟩
    · obtain ⟨ref, i, node, -, -, hleaf⟩ := (mem_live_leaves_iff h).mp hfault
      exact Expr.leaf?_ne_broken hleaf
    · obtain ⟨ref, j, node, hreach, hlocate, hleaf⟩ := (mem_live_leaves_iff h).mp hi
      cases hnode : node.expr <;> rw [hnode] at hleaf <;> cases hleaf
      refine (hplaced ref i node _ hlocate hnode).mpr (hall ref _ hreach ?_)
      rw [expr?_of_locate? hlocate, hnode]

namespace Scope

variable {scope : Scope} {q : Query} {done : Nat → Bool}

/-- If all fields can be placed, gathering is collecting. -/
theorem gather_values_of_placed {parts : List (List NodeRef)}
    (h : q.fault? scope.schema (q.leaves parts.flatten) = none) :
    (scope.gather parts done q).values = (scope.view q).collect (q.leaves parts.flatten) := by
  induction parts generalizing q done with
  | nil => rfl
  | cons roots rest ih =>
    obtain ⟨settled, joins, heq, -⟩ := q.resolveLeaves_eq scope.schema scope.config.joinType (q.leaves roots)
    rw [List.flatten_cons, Query.leaves_append, Query.fault?_append, Option.or_eq_none_iff] at h
    rw [gather, Query.resolveTrees_eq, heq, h.1, List.flatten_cons, Query.leaves_append, View.collect_append]
    dsimp only
    rw [Query.leaves_settledAt, View.collect_congr (view_nested_settledAt settled joins)]
    cases (scope.view q).collect (q.leaves roots) with
    | error e => rfl
    | ok first =>
      dsimp only
      rw [ih (by rw [Query.leaves_settledAt, Query.fault?_settledAt]; exact h.2), Query.leaves_settledAt,
        View.collect_congr (view_nested_settledAt settled joins)]
      cases (scope.view q).collect (q.leaves rest.flatten) <;> rfl

end Scope

/-! ## What success shows -/

/-- The aliases of a query are given in its grouping. -/
theorem View.exists_groupByClause_of_clauses {view : View} {config : Config} {q : Query} {clauses : List Sql}
    {table : AliasTable} (h : view.clauses config q = .ok (clauses, table)) :
    ∃ grouping, view.groupByClause config q = .ok (grouping, table) := by
  rw [View.clauses] at h
  obtain ⟨_, -, h⟩ := Except.bind_eq_ok_iff.mp h
  obtain ⟨_, -, h⟩ := Except.bind_eq_ok_iff.mp h
  obtain ⟨⟨grouping, _⟩, hgrouping, h⟩ := Except.bind_eq_ok_iff.mp h
  obtain ⟨_, -, h⟩ := Except.bind_eq_ok_iff.mp h
  obtain ⟨_, -, h⟩ := Except.bind_eq_ok_iff.mp h
  cases h
  exact ⟨grouping, hgrouping⟩

theorem View.exists_groupArgs_of_clauses {view : View} {config : Config} {q : Query} {found : List Sql × AliasTable}
    (h : view.clauses config q = .ok found) : ∃ args, q.groupArgs = .ok args := by
  obtain ⟨_, hgrouped⟩ := exists_groupByClause_of_clauses h
  rw [groupByClause] at hgrouped
  obtain ⟨args, hargs, -⟩ := Except.bind_eq_ok_iff.mp hgrouped
  exact ⟨args, hargs⟩

namespace Scope

variable {scope : Scope} {q q₁ q₂ : Query} {statement : Statement} {clauses : List Sql} {table : AliasTable}

/-- All that the clauses of a compiled query reach can be rendered. -/
theorem Succeeds.canRender (hmark : scope.dialect.mark ≠ "") (h : scope.Succeeds q statement q₁ q₂ clauses table) :
    ∀ root ∈ q₂.roots, (scope.view q₂).CanRender q₂ root := by
  refine View.CanRender.of_clauses hmark (fun root hroot hnull fault hfault => ?_) h.rendered
  refine View.unbroken_of_collect h.collect_eq fault (List.mem_flatMap.mpr ⟨root, ?_, hfault⟩)
  exact Query.mem_liveRoots_iff.mpr ⟨hroot, hnull⟩

theorem Succeeds.compilable (hmark : scope.dialect.mark ≠ "") (h : scope.Succeeds q statement q₁ q₂ clauses table)
    (hnested : ∀ (i : Nat) query embedding nested, q.expr? (.index i) = some (.subquery query embedding) →
      scope.nestedAt q i = .ok nested → (query.embedded embedding).Compilable scope.toContext) :
    q.Compilable scope.toContext := by
  have hcan := h.canRender hmark
  have hnestedAt := h.nestedAt_eq
  rw [h.resolved_eq] at hcan hnestedAt
  rw [Query.roots_resolved] at hcan
  have hunbroken : ∀ ref, q.Reaches ref → (q.tree ref).Unbroken := by
    rintro ref ⟨root, hroot, hreach⟩
    exact Query.unbroken_of_reaches (Query.unbroken_resolved.mp (hcan root hroot).1) hreach
  have hadmits : ∀ ref i node, q.Reaches ref → locate? q.nodes ref = some (i, node) →
      (scope.view (q.resolved scope.toContext)).Admits i (q.resolved scope.toContext).tree node.expr := by
    rintro ref i node ⟨root, hroot, hreach⟩ hlocate
    rw [← Query.refers_resolved] at hreach
    exact Query.admitsAt_resolved.mp ((hcan root hroot).2 ref hreach) i node hlocate
  refine .intro (fun index hindex hnegative ref href => ?_)
    (fun ref hreach => Query.isSome_expr?_of_unbroken (hunbroken ref hreach))
    (fun ref hreach => Query.acyclic_of_unbroken (hunbroken ref hreach)) ?_ ?_
    (fun ref args hreach hexpr => ?_) (fun ref query embedding hreach hexpr => ?_)
  · have hsettled := (q.settleIndex_eq_none_iff.mp (congrArg Prod.snd h.settled)) index hindex
      (RecordIndex.isZero_of_isNegative hnegative) hnegative ref href
    rwa [Query.expr?, Query.node?, Option.isSome_map, Option.isSome_map]
  · have hfault := h.fault?_eq_none
    rw [(scope.leaves_settleIndex h.settled).1, Query.fault?_settleIndex h.settled] at hfault
    exact (Query.fault?_eq_none_iff_placeable hunbroken).mp hfault
  · obtain ⟨args, hargs⟩ := View.exists_groupArgs_of_clauses h.rendered
    rw [h.resolved_eq, Query.groupArgs_resolved_eq_ok_iff] at hargs
    exact Query.exists_groupArgs_iff.mp ⟨args, hargs⟩
  · obtain ⟨i, node, hlocate, hnode⟩ := Query.expr?_eq_some_iff.mp hexpr
    have hneg := hadmits ref i node hreach hlocate
    rw [hnode] at hneg
    exact hneg
  · obtain ⟨i, node, hlocate, hnode⟩ := Query.expr?_eq_some_iff.mp hexpr
    have hsub := hadmits ref i node hreach hlocate
    rw [hnode] at hsub
    obtain ⟨nested, hstatement⟩ := hsub
    refine hnested i query embedding nested ?_ ((congrFun hnestedAt i).symm.trans hstatement)
    rw [Query.expr?_index_of_locate? hlocate, hnode]

end Scope

/-! ## No step fails -/

namespace View

variable {view : View} {leaves : List Leaf}

theorem completes_collect (h : ∀ leaf ∈ leaves, Completes (view.leafValues leaf)) : Completes (view.collect leaves) := by
  induction leaves with
  | nil => exact .ok _
  | cons leaf rest ih =>
    obtain ⟨hfirst, hrest⟩ := List.forall_mem_cons.mp h
    rw [collect]
    exact hfirst.bind fun _ _ => (ih hrest).bind fun _ _ => .ok _

theorem admits_of_regular {i : Nat} {sub : NodeRef → Tree} {expr : Expr} (hregular : expr.Regular)
    (hneg : ∀ args, expr = .cond .neg args → (args.filter fun arg => (sub arg).hasText view.sources).length ≤ 1)
    (hsub : ∀ query embedding, expr = .subquery query embedding → ∃ statement, view.nested i = .ok statement) :
    view.Admits i sub expr := by
  cases expr with
  | cond op args =>
    cases op with
    | neg => exact hneg args rfl
    | conj | disj | other => trivial
  | subquery query embedding => exact hsub query embedding rfl
  | bare | raw => exact hregular.elim
  | _ => trivial

end View

namespace Query.Compilable

variable {context : Context} {q : Query}

theorem unbroken (h : q.Compilable context) {ref : NodeRef} (hreach : q.Reaches ref) : (q.tree ref).Unbroken := by
  cases h with
  | intro _ inside acyclic =>
    obtain ⟨root, hroot, hreach⟩ := hreach
    refine unbroken_iff.mpr fun other hother => ?_
    exact ⟨inside other ⟨root, hroot, hreach.trans hother⟩, acyclic other ⟨root, hroot, hreach.trans hother⟩⟩

theorem settleIndex_eq_none (h : q.Compilable context) : q.settleIndex.2 = none := by
  cases h with
  | intro turned =>
    refine q.settleIndex_eq_none_iff.mpr fun index hindex _ hnegative ref href => ?_
    have hsome := turned index hindex hnegative ref href
    rwa [expr?, node?, Option.isSome_map, Option.isSome_map] at hsome

theorem fault?_eq_none (h : q.Compilable context) : q.fault? context.schema (q.leaves q.liveRoots) = none := by
  refine (fault?_eq_none_iff_placeable fun _ => h.unbroken).mpr ?_
  cases h with
  | intro _ _ _ placed => exact placed

end Query.Compilable

namespace Scope

variable {scope : Scope} {q : Query}

theorem completes_collect (h : q.Compilable scope.toContext)
    (hnested : ∀ (i : Nat) query embedding, q.expr? (.index i) = some (.subquery query embedding) →
      (query.embedded embedding).Compilable scope.toContext → Completes (scope.nestedAt q i)) :
    Completes ((scope.view q).collect (q.leaves q.liveRoots)) := by
  refine View.completes_collect fun leaf hleaf => ?_
  obtain ⟨ref, i, node, hreach, hlocate, hnode⟩ := (Query.mem_live_leaves_iff fun _ => h.unbroken).mp hleaf
  cases leaf with
  | subquery j =>
    cases hexpr : node.expr <;> rw [hexpr] at hnode <;> cases hnode
    rename_i query embedding
    cases h with
    | intro _ _ _ _ _ _ nested =>
      have hcompilable := nested ref query embedding hreach (by rw [Query.expr?_of_locate? hlocate, hexpr])
      have hindex : q.expr? (.index i) = some (.subquery query embedding) := by
        rw [Query.expr?_index_of_locate? hlocate, hexpr]
      exact (hnested i query embedding hindex hcompilable).bind fun _ _ => .ok _
  | broken fault => exact absurd hnode Expr.leaf?_ne_broken
  | value v => cases v <;> exact .ok _
  | field | unknown => exact .ok _

/-- Once the values of a query that meets the conditions are collected, all it reaches can be rendered. -/
theorem canRender_resolved (hregular : q.Regular) (h : q.Compilable scope.toContext) {found : List Value}
    (hnestedAt : scope.nestedAt (q.resolved scope.toContext) = scope.nestedAt q)
    (hfound : (scope.view q).collect (q.leaves q.liveRoots) = .ok found) {root : NodeRef} (hroot : root ∈ q.roots) :
    (scope.view (q.resolved scope.toContext)).CanRender (q.resolved scope.toContext) root := by
  refine ⟨Query.unbroken_resolved.mpr (h.unbroken ⟨root, hroot, .refl⟩), fun ref hreach => ?_⟩
  rw [Query.refers_resolved] at hreach
  refine Query.admitsAt_resolved.mpr fun i node hlocate => View.admits_of_regular ?_ ?_ ?_
  · exact Query.regular_iff.mp hregular node (List.mem_of_getElem? (locate?_eq_some_iff.mp hlocate).2)
  · intro args hnode
    cases h with
    | intro _ _ _ _ _ negations =>
      exact negations ref args ⟨root, hroot, hreach⟩ (by rw [Query.expr?_of_locate? hlocate, hnode])
  · intro query embedding hnode
    have hleaf : .subquery i ∈ q.leaves q.liveRoots := (Query.mem_live_leaves_iff fun _ => h.unbroken).mpr
      ⟨ref, i, node, ⟨root, hroot, hreach⟩, hlocate, by rw [hnode]; rfl⟩
    obtain ⟨statement, hstatement⟩ := View.exists_nested_of_collect hfound hleaf
    exact ⟨statement, (congrFun hnestedAt i).trans hstatement⟩

theorem nestedAt_resolved (scope : Scope) (q : Query) :
    scope.nestedAt (q.resolved scope.toContext) = scope.nestedAt q := by
  rw [Query.resolved, nestedAt_resolveTrees]
  exact (scope.leaves_settleIndex rfl).2

/-- A query that meets the conditions has a statement if the nested queries that it reaches have one. -/
theorem completes_outline (hregular : q.Regular) (h : q.Compilable scope.toContext)
    (hnested : ∀ (i : Nat) query embedding, q.expr? (.index i) = some (.subquery query embedding) →
      (query.embedded embedding).Compilable scope.toContext → Completes (scope.nestedAt q i)) :
    Completes (scope.outline q).2 := by
  rw [outline]
  have hsettled := h.settleIndex_eq_none
  cases hsettle : q.settleIndex with
  | mk q₁ fault =>
    rw [hsettle] at hsettled
    cases hsettled
    obtain ⟨hleaves, hnestedAt⟩ := scope.leaves_settleIndex hsettle
    have hfault : q₁.fault? scope.schema (q₁.leaves q₁.liveRoots) = none := by
      rw [hleaves, Query.fault?_settleIndex hsettle]
      exact h.fault?_eq_none
    -- as all fields have their places, nothing but a nested query can fail while the values are gathered
    have hvalues : (scope.gather q₁.parts (fun _ => false) q₁).values =
        (scope.view q).collect (q.leaves q.liveRoots) := by
      rw [gather_values_of_placed hfault, ← Query.liveRoots, hleaves]
      exact View.collect_congr hnestedAt _
    dsimp only
    rw [hvalues]
    refine (completes_collect h hnested).bind fun values hfound => ?_
    have hquery : (scope.gather q₁.parts (fun _ => false) q₁).query = q.resolved scope.toContext := by
      rw [Query.resolved, hsettle, Query.resolveTrees_eq]
      exact (congrArg Prod.fst (gather_of_ok (hvalues.trans hfound)).1).symm
    obtain ⟨args, hargs⟩ : ∃ args, (q.resolved scope.toContext).groupArgs = .ok args := by
      cases h with
      | intro _ _ _ _ grouping =>
        simpa only [Query.groupArgs_resolved_eq_ok_iff] using Query.exists_groupArgs_iff.mpr grouping
    rw [hquery]
    refine (View.completes_clauses hargs fun root hroot => ?_).bind fun _ _ => .ok _
    rw [Query.roots_resolved] at hroot
    exact canRender_resolved hregular h (nestedAt_resolved scope q) hfound hroot

end Scope

/-! ## Nested queries -/

theorem Query.regular_embedded {q : Query} {embedding : Embedding} (h : q.Regular) : (q.embedded embedding).Regular := by
  have hnodes := regular_iff.mp h
  cases embedding <;> exact regular_iff.mpr hnodes

theorem Query.Regular.nested {q query : Query} {embedding : Embedding} {ref : NodeRef} (hregular : q.Regular)
    (h : q.expr? ref = some (.subquery query embedding)) : query.Regular := by
  obtain ⟨i, node, hlocate, hnode⟩ := expr?_eq_some_iff.mp h
  have hexpr := regular_iff.mp hregular node (List.mem_of_getElem? (locate?_eq_some_iff.mp hlocate).2)
  rw [hnode] at hexpr
  exact hexpr

namespace Context

variable {context : Context}

theorem compilable_of_outline (hd : context.dialect.Stateless) (hmark : context.dialect.mark ≠ "") {depth : Nat}
    {q : Query} {statement : Statement} (h : ((context.scope depth).outline q).2 = .ok statement) :
    q.Compilable context := by
  refine outline_induction hd (p := fun q _ => q.Compilable context) (fun scope q statement hcontext hnested hq => ?_) h
  subst hcontext
  obtain ⟨q₁, q₂, clauses, table, hsucceeds⟩ := Scope.outline_eq_ok_iff.mp hq
  exact hsucceeds.compilable hmark hnested

theorem completes_outline (hd : context.dialect.Stateless) {depth : Nat} {q : Query} (hdepth : q.nesting ≤ depth)
    (hregular : q.Regular) (h : q.Compilable context) : Completes ((context.scope depth).outline q).2 := by
  induction depth generalizing q with
  | zero =>
    refine Scope.completes_outline hregular h fun i query embedding hexpr _ => ?_
    obtain ⟨below, hbelow, -⟩ := nestedAt_scope hd hdepth hexpr
    cases hbelow
  | succ depth ih =>
    refine Scope.completes_outline hregular h fun i query embedding hexpr hcompilable => ?_
    obtain ⟨below, hbelow, hnesting, heq⟩ := nestedAt_scope hd hdepth hexpr
    cases hbelow
    rw [heq]
    exact ih hnesting (Query.regular_embedded (hregular.nested hexpr)) hcompilable

end Context

theorem Registry.stateless_of_standard {d : Dialect} (h : d ∈ standard.entries.map (·.2)) :
    d.Stateless ∧ d.mark ≠ "" := by
  simp only [standard, List.map_cons, List.map_nil, List.mem_cons, List.not_mem_nil, or_false] at h
  rcases h with rfl | rfl | rfl | rfl <;> exact ⟨fun _ => rfl, by decide⟩

/-- A query that was loaded and has a statement in one of the standard dialects meets the conditions: its ordering
can be turned around if need be, all that its clauses reach is inside the arena and on no cycle, fields can be placed,
the grouping is one, negations have at most one predicate with a text, and nested queries meet the conditions in turn.
If it meets the conditions, it has a statement, unless the number of a generated alias gets too long. -/
theorem Query.compile_succeeds_iff {document : Value} {q : Query} {context : Context}
    (hload : Query.load document = .ok q) (hd : context.dialect ∈ Registry.standard.entries.map (·.2)) :
    ((∃ statement, (q.compile context).result = .ok statement) → q.Compilable context) ∧
      (q.Compilable context → (∃ statement, (q.compile context).result = .ok statement) ∨
        ∃ e, (q.compile context).result = .error (.aliasNumber e)) := by
  obtain ⟨hstateless, hmark⟩ := Registry.stateless_of_standard hd
  rw [(compile_eq_outline hstateless q).2]
  refine ⟨?_, fun h => Context.completes_outline hstateless (Nat.le_refl _) (regular_of_load hload) h⟩
  rintro ⟨statement, h⟩
  exact Context.compilable_of_outline hstateless hmark h

/-- The last of the orders by total, if there is no shipment. One predicate of the negation has no text. -/
def Value.lastUnshipped : Value :=
  .object
    [("nodes", .list
       [.object [("kind", .str "field"), ("name", .str "total")],
        .object [("kind", .str "sort"), ("expr", .int 0)],
        .object [("kind", .str "subquery"), ("query", .object [("tables", .object [("table", .str "shipments")])])],
        .object [("kind", .str "cond"), ("op", .str "AND")],
        .object [("kind", .str "cond"), ("op", .str "NOT"), ("args", .list [.int 2, .int 3])]]),
     ("select", .list [.int 0]), ("head", .int 4), ("order", .list [.int 1]), ("ordered", .bool true),
     ("record_index", .int (-1)), ("tables", .object [("table", .str "orders")])]

def Context.totals : Context where
  dialect := .sqlite
  schema := { tables := [{ name := "orders", columns := [{ name := "total" }] }] }
  config := {}

theorem Query.compile_lastUnshipped :
    ∃ q statement, Query.load .lastUnshipped = .ok q ∧ (q.compile .totals).result = .ok statement ∧
      statement.text = "SELECT total FROM orders WHERE NOT (EXISTS (SELECT * FROM shipments)) " ++
        "ORDER BY total DESC LIMIT 1" ∧
      q.Compilable .totals := by
  have heval : (Query.load .lastUnshipped).toOption.map
      (fun q => (q.compile .totals).result.toOption.map Statement.text) =
      some (some ("SELECT total FROM orders WHERE NOT (EXISTS (SELECT * FROM shipments)) " ++
        "ORDER BY total DESC LIMIT 1")) := by decide +kernel
  cases hload : Query.load .lastUnshipped with
  | error e => rw [hload] at heval; cases heval
  | ok q =>
    rw [hload] at heval
    replace heval := Option.some.inj heval
    dsimp only at heval
    cases hresult : (q.compile .totals).result with
    | error e => rw [hresult] at heval; cases heval
    | ok statement =>
      rw [hresult] at heval
      refine ⟨q, statement, rfl, hresult, Option.some.inj heval, ?_⟩
      exact (compile_succeeds_iff hload (by simp [Registry.standard, Context.totals])).1 ⟨statement, hresult⟩

end ArenaSql
