import ArenaSql.Proofs.Matching

/-!
# Unfolded queries

A query is compiled as its expressions unfold. How nodes are numbered, whether a node is shared or copied, what no
shown part leads to, a condition on groups without a grouping and an ordering that is not shown are all without
influence: queries that are alike in their shown parts, and whose nested queries are so too, have the same statement and
the same joins.
-/

namespace ArenaSql

/-- The nested query at a position, as it is compiled. -/
def Query.nestedAt? (q : Query) (i : Nat) : Option Query :=
  match q.expr? (.index i) with
  | some (.subquery query embedding) => some (query.embedded embedding)
  | _ => none

theorem Query.nestedAt?_eq_some_iff {q query : Query} {i : Nat} :
    q.nestedAt? i = some query ↔
      ∃ inner embedding, q.expr? (.index i) = some (.subquery inner embedding) ∧ inner.embedded embedding = query := by
  rw [nestedAt?]
  split
  · rename_i inner embedding hexpr
    simp [hexpr]
  · rename_i hexpr
    simp only [reduceCtorEq, false_iff]
    rintro ⟨inner, embedding, hinner, -⟩
    exact hexpr inner embedding hinner

/-- Queries that unfold alike. Their record index does not count from the other end, and nested queries that take the
place of each other are alike in turn. -/
inductive Query.Alike : Query → Query → Prop
  | intro {q q' : Query} (nested : Nat → Nat → Prop) (matching : q.Matches nested q')
      (forward : ∀ index ∈ q.recordIndex, index.isNegative = false)
      (both : ∀ i i', nested i i' → (q.nestedAt? i).isSome ∧ (q'.nestedAt? i').isSome)
      (inside : ∀ i i' query query', nested i i' → q.nestedAt? i = some query → q'.nestedAt? i' = some query' →
        Alike query query') : Alike q q'

/-! ## Symmetry -/

theorem Query.TreesAlike.symm {nested : Nat → Nat → Prop} {q q' : Query} {refs refs' : List NodeRef}
    (h : TreesAlike nested q q' refs refs') : TreesAlike (flip nested) q' q refs' refs :=
  List.Forall₂.flip (h.imp fun _ _ htree => htree.symm)

theorem Query.Matches.symm {nested : Nat → Nat → Prop} {q q' : Query} (h : q.Matches nested q') :
    q'.Matches (flip nested) q where
  tables := h.tables.symm
  options name := (h.options name).symm
  recordIndex := h.recordIndex.symm
  aliasName := h.aliasName.symm
  subquery := h.subquery.symm
  existsQuery := h.existsQuery.symm
  subqueryExpression := h.subqueryExpression.symm
  select := h.select.symm
  names := h.names.symm
  head := h.head.symm
  summarise := h.summarise.symm
  having := h.having.symm
  order := h.order.symm

theorem Query.Alike.symm {q q' : Query} (h : q.Alike q') : q'.Alike q := by
  induction h with
  | intro nested matching forward both _ ih =>
    refine .intro (flip nested) matching.symm ?_ (fun i' i hi => (both i i' hi).symm) ?_
    · rw [← matching.recordIndex]
      exact forward
    · intro i' i query' query hi hquery' hquery
      exact ih i i' query query' hi hquery hquery'

/-! ## One query -/

theorem Query.Matches.settleIndex {nested : Nat → Nat → Prop} {q q' : Query} (h : q.Matches nested q')
    (hforward : ∀ index ∈ q.recordIndex, index.isNegative = false) :
    q'.settleIndex.2 = none ∧ q.settleIndex.1.Matches nested q'.settleIndex.1 := by
  rw [Query.settleIndex, Query.settleIndex, ← h.recordIndex]
  cases hindex : q.recordIndex with
  | none => exact ⟨rfl, h⟩
  | some index =>
    dsimp only
    split
    · exact ⟨rfl, { h with recordIndex := rfl }⟩
    · rw [hforward index hindex]
      exact ⟨rfl, h⟩

theorem Query.Intact.settledAt {q : Query} (h : q.Intact) {schema : Schema} (done : Nat → Bool) (joins : List Join) :
    (q.settledAt schema done joins).Intact := by
  intro ref href fault hfault
  have hleaves : (q.settledAt schema done joins).leaves [ref] = q.leaves [ref] := leaves_settledAt done joins q [ref]
  simp only [leaves, List.flatMap_cons, List.flatMap_nil, List.append_nil] at hleaves
  rw [hleaves] at hfault
  exact h ref href fault hfault

namespace Scope

variable {scope scope' : Scope} {q q' q₁ q₂ : Query} {statement : Statement} {clauses : List Sql} {table : AliasTable}

theorem Succeeds.intact (h : scope.Succeeds q statement q₁ q₂ clauses table) : q₁.Intact := by
  obtain ⟨settled, joins, rfl⟩ := h.settledAt_eq
  intro ref href fault hfault
  have hlive : ref ∈ q₁.liveRoots := Query.mem_liveRoots_iff.mpr ⟨href, View.isNull_of_clauses h.rendered ref href⟩
  exact View.unbroken_of_collect h.collected fault (List.mem_flatMap.mpr ⟨ref, hlive, hfault⟩)

theorem agrees_view (hcontext : scope.toContext = scope'.toContext) (htables : q.tables = q'.tables)
    {nested : Nat → Nat → Prop}
    (hnested : ∀ i i', nested i i' → Except.Forces (scope.nestedAt q i) (scope'.nestedAt q' i')) :
    View.Agrees nested (scope.view q) (scope'.view q') :=
  ⟨congrArg Context.dialect hcontext, htables, hnested⟩

/-- If a query is compiled, a query that matches it has the same statement, as long as nested queries do. -/
theorem Succeeds.matching (h : scope.Succeeds q statement q₁ q₂ clauses table)
    (hcontext : scope.toContext = scope'.toContext) {nested : Nat → Nat → Prop} (hmatch : q.Matches nested q')
    (hforward : ∀ index ∈ q.recordIndex, index.isNegative = false)
    (hnested : ∀ i i', nested i i' → Except.Forces (scope.nestedAt q i) (scope'.nestedAt q' i')) :
    (scope'.outline q').2 = .ok statement := by
  obtain ⟨hnone, hmatch₁⟩ := hmatch.settleIndex hforward
  obtain ⟨q₁', hsettled'⟩ : ∃ q₁', q'.settleIndex = (q₁', none) := ⟨_, Prod.ext rfl hnone⟩
  rw [h.settled, hsettled'] at hmatch₁
  have hintact := h.intact
  have hintact' := hmatch₁.intact hintact
  obtain ⟨q₂', hresolved', hmatch₂⟩ := hmatch₁.resolveLeaves hintact h.resolved
  -- Neither settling the record index nor resolving fields touches the nested queries.
  have hkept := (scope.leaves_settleIndex h.settled).2
  have hkept' := (scope'.leaves_settleIndex hsettled').2
  have hkept₂ : scope'.nestedAt q₂' = scope'.nestedAt q' := by
    have hsame := scope'.nestedAt_resolveTrees scope.schema scope.config.joinType q₁'.liveRoots q₁'
    rw [Query.resolveTrees_eq, hresolved'] at hsame
    exact hsame.trans hkept'
  have hcollected : (scope'.view q₁').collect (q₁'.leaves q₁'.liveRoots) = .ok statement.values := by
    have hview := agrees_view hcontext hmatch₁.tables (by rw [hkept, hkept']; exact hnested)
    have hcollect := hview.collect hmatch₁.leaves
    rw [← hintact.liveRoots_eq, ← hintact'.liveRoots_eq] at hcollect
    exact hcollect _ h.collected
  have hrendered : (scope'.view q₂').clauses scope.config q₂' = .ok (clauses, table) := by
    have hview := agrees_view hcontext hmatch₂.tables (by rw [h.nestedAt_eq, hkept₂]; exact hnested)
    refine hview.clauses hmatch₂ (fun root hroot => ?_) _ h.rendered
    obtain ⟨done, joins, rfl⟩ := h.settledAt_eq
    exact hintact.settledAt done joins root (q₁.subset_roots.2.2.1 (Option.mem_toList.mpr hroot))
  rw [congrArg Context.schema hcontext, congrArg (·.config.joinType) hcontext] at hresolved'
  rw [congrArg Context.config hcontext] at hrendered
  refine outline_eq_ok_iff.mpr ⟨q₁', q₂', clauses, table, hsettled', hresolved', hcollected, hrendered, ?_, ?_⟩
  · rw [h.sql_eq, hmatch₂.derived]
  · rw [h.dialect_eq, congrArg (·.dialect.name) hcontext]

end Scope

/-! ## Nested queries -/

theorem Query.Alike.outline {context : Context} (hd : context.dialect.Stateless) {q q' : Query} (h : q.Alike q') :
    ∀ {depth depth' : Nat}, q.nesting ≤ depth → q'.nesting ≤ depth' →
      Except.Forces ((context.scope depth).outline q).2 ((context.scope depth').outline q').2 := by
  induction h with
  | intro nested matching forward both _ ih =>
    intro depth depth' hdepth hdepth' statement hstatement
    obtain ⟨q₁, q₂, clauses, table, hsucceeds⟩ := Scope.outline_eq_ok_iff.mp hstatement
    refine hsucceeds.matching (show _ = (context.scope depth').toContext from rfl) matching forward fun i i' hi => ?_
    obtain ⟨query, hquery⟩ := Option.isSome_iff_exists.mp (both i i' hi).1
    obtain ⟨query', hquery'⟩ := Option.isSome_iff_exists.mp (both i i' hi).2
    obtain ⟨inner, embedding, hexpr, rfl⟩ := nestedAt?_eq_some_iff.mp hquery
    obtain ⟨inner', embedding', hexpr', rfl⟩ := nestedAt?_eq_some_iff.mp hquery'
    obtain ⟨below, rfl, hbelow, heq⟩ := Context.nestedAt_scope hd hdepth hexpr
    obtain ⟨below', rfl, hbelow', heq'⟩ := Context.nestedAt_scope hd hdepth' hexpr'
    rw [heq, heq']
    exact ih i i' _ _ hi hquery hquery' hbelow hbelow'

theorem Query.Alike.compile {context : Context} (hd : context.dialect.Stateless) {q q' : Query} (h : q.Alike q') :
    Except.Forces (q.compile context).result (q'.compile context).result := by
  rw [(compile_eq_outline hd q).2, (compile_eq_outline hd q').2]
  exact h.outline hd (Nat.le_refl _) (Nat.le_refl _)

/-- Queries that unfold alike have the same statement, if any, and read the same sources then. -/
theorem Query.compile_alike {context : Context} (hd : context.dialect.Stateless) {q q' : Query} (h : q.Alike q') :
    (∀ statement, (q.compile context).result = .ok statement ↔ (q'.compile context).result = .ok statement) ∧
      ∀ statement, (q.compile context).result = .ok statement →
        (q.compile context).query.tables = (q'.compile context).query.tables := by
  refine ⟨fun statement => ⟨h.compile hd statement, h.symm.compile hd statement⟩, fun statement hstatement => ?_⟩
  have hstatement' := h.compile hd statement hstatement
  cases h with
  | intro nested matching forward _ _ =>
    have houtline := (compile_eq_outline hd q).2.symm.trans hstatement
    obtain ⟨q₁, q₂, clauses, table, hsucceeds⟩ := Scope.outline_eq_ok_iff.mp houtline
    have hintact : q.settleIndex.1.Intact := by
      rw [hsucceeds.settled]
      exact hsucceeds.intact
    rw [tables_compile hstatement, tables_compile hstatement', ← q.liveFields_settleIndex, ← q'.liveFields_settleIndex,
      matching.tables, (matching.settleIndex forward).2.needs hintact]

/-- Orders with their customers. -/
def Context.ledger : Context where
  dialect := .postgres
  schema :=
    { tables := [{ name := "orders", columns := [{ name := "total" }, { name := "region" }] },
                 { name := "regions", columns := [{ name := "label" }, { name := "open" }] }],
      lookups := [{ key := "customer", fromTable := "orders", fromCol := "customer", toTable := "customers",
                    columns := ["name"] }] }
  config := {}

/-- The filter shares one comparison, and the select list shares the name with an alias. A condition on groups that
leads nowhere and an ordering are not shown. -/
def Query.shared : Query where
  nodes := [{ expr := .field { name := .text "name" }, aliasName := some "who" }, { expr := .value (.int 100) },
    { expr := .field { name := .text "total" } }, { expr := .cmp .gt (.index 2) (.index 1) },
    { expr := .subquery regions .presence }, { expr := .cond .conj [.index 3, .index 4, .index 3] },
    { expr := .func "UPPER" [.index 0] }, { expr := .sort (.index 2) .desc }]
  select := [.index 0, .index 6]
  head := some (.index 5)
  having := some (.index 99)
  order := [.index 7]
  tables := { table := "orders" }
where
  regions : Query :=
    { nodes := [{ expr := .field { name := .text "open" } }, { expr := .value (.str "yes") },
        { expr := .cmp .eq (.index 0) (.index 1) }]
      head := some (.index 2)
      tables := { table := "regions" } }

/-- Nothing is shared here, the nodes are numbered in another way, and some cannot be reached, a cycle and a column that
does not exist among them. -/
def Query.copied : Query where
  nodes := [{ expr := .func "LOOP" [.index 0] }, { expr := .value (.int 100) }, { expr := .field { name := .text "total" } },
    { expr := .cmp .gt (.index 2) (.index 1) }, { expr := .value (.int 100) }, { expr := .field { name := .text "total" } },
    { expr := .cmp .gt (.index 5) (.index 4) }, { expr := .cond .conj [.index 3, .index 8, .index 6] },
    { expr := .subquery regions .presence }, { expr := .field { name := .text "missing" } },
    { expr := .field { name := .text "name" }, aliasName := some "who" }, { expr := .func "UPPER" [.index 12] },
    { expr := .field { name := .text "name" } }]
  select := [.index 10, .index 11]
  head := some (.index 7)
  tables := { table := "orders" }
where
  regions : Query :=
    { nodes := [{ expr := .cmp .eq (.index 2) (.index 3) }, { expr := .value (.str "no") },
        { expr := .field { name := .text "open" } }, { expr := .value (.str "yes") }]
      head := some (.index 0)
      tables := { table := "regions" } }

theorem Query.alike_copied : shared.Alike copied := by
  have hname : Field.Alike { name := .text "name" } { name := .text "name" } := ⟨rfl, rfl, rfl⟩
  have htotal : Field.Alike { name := .text "total" } { name := .text "total" } := ⟨rfl, rfl, rfl⟩
  have hopen : Field.Alike { name := .text "open" } { name := .text "open" } := ⟨rfl, rfl, rfl⟩
  have hregions : (shared.regions.embedded .presence).Alike (copied.regions.embedded .presence) := by
    refine .intro (fun _ _ => False) ?_ (fun _ h => by cases h) (fun _ _ h => h.elim) (fun _ _ _ _ h => h.elim)
    exact
      { tables := rfl, options := fun _ => rfl, recordIndex := rfl, aliasName := rfl, subquery := rfl,
        existsQuery := rfl, subqueryExpression := rfl, select := .nil, names := rfl,
        head := .cons (.cmp .eq (.field hopen) (.value _)) .nil,
        summarise := .nil, having := .nil, order := .nil }
  refine .intro (fun i i' => i = 4 ∧ i' = 8) ?_ (fun _ h => by cases h) ?_ ?_
  · exact
      { tables := rfl, options := fun _ => rfl, recordIndex := rfl, aliasName := rfl, subquery := rfl,
        existsQuery := rfl, subqueryExpression := rfl,
        select := .cons (.field hname) (.cons (.func _ (.cons (.field hname) .nil)) .nil), names := rfl,
        head := .cons (.cond .conj (.cons (.cmp .gt (.field htotal) (.value _)) (.cons (.subquery .presence ⟨rfl, rfl⟩)
          (.cons (.cmp .gt (.field htotal) (.value _)) .nil)))) .nil,
        summarise := .nil, having := .nil, order := .nil }
  · rintro _ _ ⟨rfl, rfl⟩
    exact ⟨rfl, rfl⟩
  · rintro _ _ query query' ⟨rfl, rfl⟩ hquery hquery'
    cases hquery
    cases hquery'
    exact hregions

theorem Query.compile_alike_copied :
    ∃ statement, (shared.compile .ledger).result = .ok statement ∧ (copied.compile .ledger).result = .ok statement ∧
      statement.text = "SELECT customers.name AS who, UPPER(customers.name) FROM orders " ++
        "LEFT JOIN customers ON orders.customer = customers.id WHERE (orders.total > %s) AND " ++
        "(EXISTS (SELECT * FROM regions WHERE open = %s)) AND (orders.total > %s)" ∧
      statement.values = [.int 100, .str "yes", .int 100] ∧
      (shared.compile .ledger).query.tables = (copied.compile .ledger).query.tables := by
  have heval : (shared.compile .ledger).result.toOption.map (fun s => (s.text, s.values)) =
      some ("SELECT customers.name AS who, UPPER(customers.name) FROM orders " ++
        "LEFT JOIN customers ON orders.customer = customers.id WHERE (orders.total > %s) AND " ++
        "(EXISTS (SELECT * FROM regions WHERE open = %s)) AND (orders.total > %s)",
        [.int 100, .str "yes", .int 100]) := by decide +kernel
  have hsame := compile_alike (show Context.ledger.dialect.Stateless from fun _ => rfl) alike_copied
  cases hresult : (shared.compile .ledger).result with
  | error e => rw [hresult] at heval; cases heval
  | ok statement =>
    rw [hresult] at heval
    obtain ⟨htext, hvalues⟩ := Prod.mk.inj (Option.some.inj heval)
    exact ⟨statement, rfl, (hsame.1 statement).mp hresult, htext, hvalues, hsame.2 statement hresult⟩

end ArenaSql
