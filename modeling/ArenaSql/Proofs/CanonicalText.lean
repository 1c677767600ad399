import ArenaSql.Proofs.Growth
import ArenaSql.Proofs.Success
import ArenaSql.Proofs.Synchrony
import ArenaSql.Proofs.Valueless

/-!
# Canonical texts for two dialects

A canonical text has the literals of an expression written out. Those of a nested query are not written out, though: its
statement has placeholders for them, and the text of this statement is a part of the canonical text. So a canonical text
has a placeholder for each value of a nested query, and for nothing else. If the nested queries have no values, it is the
same for all dialects that differ in their placeholders only, and so are the aliases that are made from such texts.
-/

namespace ArenaSql

/-! ## From a fresh draft -/

namespace Scope

variable {scope : Scope} {q : Query} {α β : Type}

/-- From a draft that stands for the query, the work ends with the answer, and after a success the draft stands for the
query still. -/
def Answers (scope : Scope) (q : Query) (work : DraftM α) (answer : Except CompileError α) : Prop :=
  ∀ done d, d.Tracks scope q done → ∃ d', work.run d = (answer, d') ∧ (answer.isOk → ∃ done', d'.Tracks scope q done')

theorem YieldsFrom.tracks {work : DraftM α} {answer : Except CompileError α} {done : Nat → Bool} {d : Draft}
    (h : YieldsFrom work answer d) (htracks : d.Tracks scope q done) :
    ∃ d', work.run d = (answer, d') ∧ (answer.isOk → ∃ done', d'.Tracks scope q done') := by
  obtain ⟨n, hrun⟩ := h
  exact ⟨_, hrun, fun _ => ⟨done, htracks.query_eq, htracks.statements, htracks.others⟩⟩

theorem reads_answers (hd : scope.dialect.Stateless) (hsteady : scope.Steady) :
    scope.Reads q (fun i => ∃ query embedding, q.expr? (.index i) = some (.subquery query embedding))
      fun _ => scope.Answers q where
  pure a := fun _ d htracks => (YieldsFrom.pure a d).tracks htracks
  throw e := fun _ d htracks => (YieldsFrom.throw e d).tracks htracks
  bind {α β work answer next after} h hnext := by
    intro done d htracks
    obtain ⟨d', hrun, hlater⟩ := h done d htracks
    rw [DraftM.run_bind, hrun]
    cases answer with
    | error e => exact ⟨d', rfl, fun h => by cases h⟩
    | ok a =>
      obtain ⟨done', htracks'⟩ := hlater rfl
      exact hnext a done' d' htracks'
  field f := fun _ d htracks => ((reads_yields hd).field f d htracks.ready).tracks htracks
  literal style v := fun _ d htracks => (Yields.literal hd style v d htracks.ready).tracks htracks
  statementAt {i} hexpr := by
    intro done d htracks
    obtain ⟨query, embedding, hexpr⟩ := hexpr
    obtain ⟨d', hrun, -, -, htracks'⟩ := Harvests.statementAt hsteady hexpr d htracks
    exact ⟨d', hrun, fun h => ⟨_, htracks' h⟩⟩

/-- An expression of a query that nothing was done with yet is rendered as the view of the query tells. -/
theorem run_render_fresh (hd : scope.dialect.Stateless) (hsteady : scope.Steady) (style : Style) (q : Query)
    (ref : NodeRef) :
    ((scope.render style (q.tree ref)).run { query := q }).1 = (scope.view q).render style (q.tree ref) := by
  have hsub : ∀ i : Nat, .subquery i ∈ (q.tree ref).leaves →
      ∃ query embedding, q.expr? (.index i) = some (.subquery query embedding) :=
    fun i hi => Query.subquery_of_mem_leaves (List.mem_flatMap.mpr ⟨ref, List.mem_singleton_self _, hi⟩)
  obtain ⟨d', hrun, -⟩ := (reads_answers hd hsteady).render style (q.tree ref) hsub _ _ (Draft.tracks_fresh scope q 0)
  exact congrArg Prod.fst hrun

theorem run_canonicalText_fresh (hd : scope.dialect.Stateless) (hsteady : scope.Steady) (q : Query) (ref : NodeRef) :
    ((scope.canonicalText (q.tree ref)).run { query := q }).1 = (scope.view q).canonicalText (q.tree ref) := by
  have hrender := run_render_fresh hd hsteady .inline q ref
  rw [canonicalText, DraftM.run_bind, View.canonicalText, ← hrender]
  rcases (scope.render .inline (q.tree ref)).run { query := q } with ⟨_ | sql, d⟩ <;> rfl

end Scope

/-! ## Aliases -/

namespace View

variable {view view' : View} {config config' : Config} {t : Tree} {q : Query} {table after : AliasTable}

/-- The aliases that are known when an argument of the grouping is rendered. -/
def tableAfter (view : View) (config : Config) (table : AliasTable) (t : Tree) : Except CompileError AliasTable := do
  if ← isSimple t then return table
  else
    let text ← view.canonicalText t
    if (table.find? text).isSome then return table
    else
      let (_, table) ← (table.assign config text).mapError .aliasNumber
      return table

theorem tableAfter_of_groupItem {sql : Sql} (h : view.groupItem config table t = .ok (sql, after)) :
    view.tableAfter config table t = .ok after := by
  rw [groupItem] at h
  obtain ⟨simple, hsimple, h⟩ := Except.bind_eq_ok_iff.mp h
  rw [tableAfter, hsimple]
  cases simple with
  | true =>
    obtain ⟨_, -, h⟩ := Except.bind_eq_ok_iff.mp h
    cases h
    rfl
  | false =>
    obtain ⟨known, hknown, h⟩ := Except.bind_eq_ok_iff.mp h
    obtain ⟨text, htext, hfound⟩ := Except.bind_eq_ok_iff.mp hknown
    cases hfound
    obtain ⟨inline, hinline, rfl⟩ := Except.map_eq_ok_iff.mp htext
    rw [htext]
    cases hname : table.find? inline.text with
    | none =>
      rw [hname] at h
      have hrender : view.renderAliased config table t = .ok (sql, after) := h
      rw [renderAliased_of_none hinline hname] at hrender
      obtain ⟨found, hassign, hrender⟩ := Except.bind_eq_ok_iff.mp hrender
      obtain ⟨_, -, hrender⟩ := Except.bind_eq_ok_iff.mp hrender
      cases hrender
      simp only [bind, Except.bind, hname, hassign]
      rfl
    | some name =>
      rw [hname] at h hknown
      obtain ⟨valued, -, h⟩ := Except.bind_eq_ok_iff.mp h
      have hsame : after = table := by
        cases valued with
        | true =>
          obtain ⟨_, -, h⟩ := Except.bind_eq_ok_iff.mp h
          cases h
          rfl
        | false =>
          have hrender : view.renderAliased config table t = .ok (sql, after) := h
          rw [renderAliased, hknown] at hrender
          cases hrender
          rfl
      simp only [bind, Except.bind, hname, hsame]
      rfl

/-- If the nested queries of an argument have no values, its alias is the same for both dialects. -/
theorem Shares.tableAfter (h : view.Shares view') (hconfig : config.Agrees config') (table : AliasTable)
    (hfree : view.Free t.leaves) : view.tableAfter config table t = view'.tableAfter config' table t := by
  simp only [View.tableAfter, h.canonicalText hfree, hconfig.assign]

theorem Shares.groupItems_table (h : view.Shares view') (hconfig : config.Agrees config') {refs : List NodeRef}
    (hfree : view.Free (q.leaves refs)) {items items' : List Sql} {after' : AliasTable}
    (hok : view.groupItems config q table refs = .ok (items, after))
    (hok' : view'.groupItems config' q table refs = .ok (items', after')) : after = after' := by
  induction refs generalizing table items items' with
  | nil =>
    cases hok
    cases hok'
    rfl
  | cons ref rest ih =>
    obtain ⟨hfirst, hrest⟩ := free_append.mp hfree
    rw [View.groupItems] at hok hok'
    obtain ⟨⟨sql, between⟩, hitem, hok⟩ := Except.bind_eq_ok_iff.mp hok
    obtain ⟨⟨sql', between'⟩, hitem', hok'⟩ := Except.bind_eq_ok_iff.mp hok'
    obtain ⟨⟨more, _⟩, hmore, hok⟩ := Except.bind_eq_ok_iff.mp hok
    obtain ⟨⟨more', _⟩, hmore', hok'⟩ := Except.bind_eq_ok_iff.mp hok'
    cases hok
    cases hok'
    have hbetween := tableAfter_of_groupItem hitem
    rw [h.tableAfter hconfig table hfirst, tableAfter_of_groupItem hitem'] at hbetween
    cases hbetween
    exact ih hrest hmore hmore'

/-- If the nested queries of the grouping have no values, all aliases are the same for both dialects. -/
theorem Shares.clauses_table (h : view.Shares view') (hconfig : config.Agrees config')
    (hfree : ∀ args, q.groupArgs = .ok args → view.Free (q.leaves args)) {clauses clauses' : List Sql}
    {after' : AliasTable} (hok : view.clauses config q = .ok (clauses, after))
    (hok' : view'.clauses config' q = .ok (clauses', after')) : after = after' := by
  obtain ⟨_, hok⟩ := exists_groupByClause_of_clauses hok
  obtain ⟨_, hok'⟩ := exists_groupByClause_of_clauses hok'
  obtain ⟨args, hargs, hok⟩ := Except.bind_eq_ok_iff.mp hok
  obtain ⟨_, hargs', hok'⟩ := Except.bind_eq_ok_iff.mp hok'
  cases hargs.symm.trans hargs'
  cases args with
  | nil =>
    cases hok
    cases hok'
    rfl
  | cons ref rest =>
    obtain ⟨⟨items, _⟩, hitems, hok⟩ := Except.bind_eq_ok_iff.mp hok
    obtain ⟨⟨items', _⟩, hitems', hok'⟩ := Except.bind_eq_ok_iff.mp hok'
    cases hok
    cases hok'
    exact h.groupItems_table hconfig (hfree _ hargs) hitems hitems'

end View

/-- The aliases that compiling a query leaves are those that come with the clauses of the resolved query. -/
theorem Scope.view_clauses_of_compile {scope : Scope} (hd : scope.dialect.Stateless) (hsteady : scope.Steady) {q : Query}
    {requested : Nat} {statement : Statement} (h : (scope.compile q requested).result = .ok statement) :
    ∃ clauses, (scope.view (q.resolved scope.toContext)).clauses scope.config (q.resolved scope.toContext) =
      .ok (clauses, (scope.lastDraft q requested).aliases) := by
  obtain ⟨d₁, clauses, hdrafts⟩ := exists_drafts h
  obtain ⟨q₁, n, found, hsettled, hpassed⟩ := hdrafts.passed
  obtain ⟨d, hrun, -, -, htracks⟩ := run_passAll hsteady
    [q₁.select, q₁.head.toList, q₁.summarise.toList, shownHaving q₁, shownOrder q₁]
    (Draft.tracks_fresh scope q₁ n)
  obtain ⟨hvalues, rfl⟩ := Prod.mk.inj (hpassed.symm.trans hrun)
  rw [← Query.parts] at hvalues htracks
  have hquery : (scope.gather q₁.parts (fun _ => false) q₁).query = q.resolved scope.toContext := by
    have hgathered := (gather_of_ok hvalues.symm).1
    rw [Query.resolved, hsettled, Query.resolveTrees_eq]
    exact (congrArg Prod.fst hgathered).symm
  obtain ⟨m, table, hclauses, htable⟩ := names_clauses hd hvalues.symm hdrafts.aliases (htracks (hvalues ▸ rfl))
  rw [hquery] at hclauses htable
  obtain ⟨hanswer, hlast⟩ := Prod.mk.inj (hdrafts.rendered.symm.trans hclauses)
  obtain ⟨⟨_, after⟩, hfound, -⟩ := Except.map_eq_ok_iff.mp hanswer.symm
  rw [hlast, hfound, htable _ _ hfound]
  exact ⟨_, rfl⟩

/-! ## Both dialects -/

namespace Query

/-- The canonical text of an expression, before anything else is done with the query. -/
def canonicalTextIn (context : Context) (q : Query) (ref : NodeRef) : Except CompileError String :=
  (((context.scopeWith context q).canonicalText (q.tree ref)).run { query := q }).1

/-- The aliases that compiling a query leaves. -/
def aliasesIn (context : Context) (q : Query) : AliasTable :=
  ((context.scopeWith context q).lastDraft q 0).aliases

/-- The statement of the nested query at a position, where there is one and it can be compiled. -/
def nestedStatement? (context : Context) (q : Query) (i : Nat) : Option Statement :=
  (q.nestedAt? i).bind fun nested => (nested.compile context).result.toOption

/-- The values of the nested query that a leaf is. -/
def nestedValues (context : Context) (q : Query) : Leaf → List Value
  | .subquery i => (q.nestedStatement? context i).elim [] (·.values)
  | _ => []

/-- The nested queries of an expression have statements without values. -/
def NestedFree (context : Context) (q : Query) (ref : NodeRef) : Prop :=
  ∀ i, .subquery i ∈ (q.tree ref).leaves → ∃ s, q.nestedStatement? context i = some s ∧ s.values = []

variable {context : Context} {q : Query} {ref : NodeRef}

theorem nestedAt_eq_ok_iff (hd : context.dialect.Stateless) {i : Nat} {s : Statement} :
    (context.scope q.nesting).nestedAt q i = .ok s ↔ q.nestedStatement? context i = some s := by
  cases hexpr : q.expr? (.index i) with
  | none => simp [Scope.nestedAt, nestedStatement?, nestedAt?, hexpr]
  | some expr =>
    cases expr with
    | subquery query embedding =>
      obtain ⟨below, -, hbelow, hnested⟩ := Context.nestedAt_scope hd (le_refl q.nesting) hexpr
      have hcompile := (compile_eq_outline hd (query.embedded embedding)).2
      rw [Context.outline_depth hd hbelow le_rfl, ← hnested] at hcompile
      rw [nestedStatement?, nestedAt?, hexpr, Option.bind_some, hcompile]
      cases (context.scope q.nesting).nestedAt q i <;> simp [Except.toOption]
    | _ => simp [Scope.nestedAt, nestedStatement?, nestedAt?, hexpr]

theorem NestedFree.free (hd : context.dialect.Stateless) (h : q.NestedFree context ref) :
    ((context.scope q.nesting).view q).Free (q.tree ref).leaves := by
  intro i hi
  obtain ⟨s, hs, hvalues⟩ := h i hi
  exact ⟨s, (nestedAt_eq_ok_iff hd).mpr hs, hvalues⟩

/-- With literals written out, what is collected is the values of nested queries. -/
theorem collect_inline (hd : context.dialect.Stateless) {leaves : List Leaf} {values : List Value}
    (h : ((context.scope q.nesting).view q).collect (leaves.filter (Style.marks .inline)) = .ok values) :
    values = leaves.flatMap (q.nestedValues context) := by
  induction leaves generalizing values with
  | nil =>
    cases h
    rfl
  | cons leaf rest ih =>
    cases leaf with
    | value v => exact ih h
    | subquery i =>
      obtain ⟨first, more, hfirst, hmore, rfl⟩ := View.collect_cons_eq_ok h
      obtain ⟨s, hs, hfirst⟩ := Except.bind_eq_ok_iff.mp hfirst
      cases hfirst
      rw [List.flatMap_cons, ← ih hmore, nestedValues, (nestedAt_eq_ok_iff hd).mp hs]
      rfl
    | field | unknown =>
      obtain ⟨first, more, hfirst, hmore, rfl⟩ := View.collect_cons_eq_ok h
      cases hfirst
      exact ih hmore
    | broken fault =>
      obtain ⟨first, more, hfirst, -⟩ := View.collect_cons_eq_ok h
      cases hfirst

/-- The canonical text of an expression has a placeholder for each value of its nested queries, and for no literal of its
own. If the nested queries have no values, it is the same for two dialects that differ in placeholders only; and the
aliases that compiling a query generates are the same if this holds of the arguments of the grouping. -/
theorem canonicalText_dialects {dialect : Dialect} (name : String) (q : Query) (hd : context.dialect.Stateless)
    (hd' : dialect.Stateless) (hlike : context.dialect.like = dialect.like) :
    let there := context.withDialect dialect name
    (context.dialect.mark ≠ "" → ∀ ref sql,
        (((context.scopeWith context q).render .inline (q.tree ref)).run { query := q }).1 = .ok sql →
        q.canonicalTextIn context ref = .ok sql.text ∧
          sql.Binds context.dialect.mark ((q.tree ref).leaves.flatMap (q.nestedValues context))) ∧
      (∀ ref, q.NestedFree context ref → q.canonicalTextIn context ref = q.canonicalTextIn there ref) ∧
      ∀ s s' args, (q.compile context).result = .ok s → (q.compile there).result = .ok s' → q.groupArgs = .ok args →
        (∀ ref ∈ args, q.NestedFree context ref) → q.aliasesIn context = q.aliasesIn there := by
  intro there
  let scope := context.scopeWith context q
  let scope' := there.scopeWith there q
  have hsteady : scope.Steady := Context.steady_scope hd q.nesting
  have hsteady' : scope'.Steady := @Context.steady_scope there hd' q.nesting
  have hshares : scope.Shares scope' := Context.shares_scope name hd hd' hlike q.nesting
  refine ⟨?_, ?_, ?_⟩
  · intro hmark ref sql hsql
    have htext : q.canonicalTextIn context ref = _ := Scope.run_canonicalText_fresh hd hsteady q ref
    rw [Scope.run_render_fresh hd hsteady] at hsql
    have hnested : ∀ i s, (scope.view q).nested i = .ok s → s.sql.Binds context.dialect.mark s.values := by
      intro i s hs
      obtain ⟨query, embedding, hexpr⟩ := Scope.nestedAt_eq_ok hs
      obtain ⟨below, -, -, hnested⟩ := Context.nestedAt_scope hd (le_refl q.nesting) hexpr
      exact Context.sql_binds hd hmark (hnested.symm.trans hs)
    obtain ⟨values, hvalues, hbinds⟩ := View.render_binds_marked hmark hnested .inline (q.tree ref) sql hsql
    rw [← collect_inline hd hvalues]
    refine ⟨?_, hbinds⟩
    rw [htext, View.canonicalText, hsql]
    rfl
  · intro ref hfree
    rw [canonicalTextIn, canonicalTextIn, Scope.run_canonicalText_fresh hd hsteady,
      Scope.run_canonicalText_fresh hd' hsteady']
    exact (hshares.view q).canonicalText (hfree.free hd)
  · intro s s' args hs hs' hargs hfree
    obtain ⟨clauses, hclauses⟩ := Scope.view_clauses_of_compile hd hsteady hs
    obtain ⟨clauses', hclauses'⟩ := Scope.view_clauses_of_compile hd' hsteady' hs'
    refine (hshares.view (q.resolved context)).clauses_table hshares.config (fun args' hargs' => ?_) hclauses hclauses'
    cases hargs.symm.trans (groupArgs_resolved_eq_ok_iff.mp hargs')
    intro i hi
    obtain ⟨ref, href, hi⟩ := List.mem_flatMap.mp hi
    rw [leaves_resolved] at hi
    obtain ⟨found, hfound, hvalues⟩ := (hfree ref href).free hd i hi
    exact ⟨found, (congrFun (scope.nestedAt_resolved q) i).trans hfound, hvalues⟩

/-- Orders by whether they are far above a cap, which a nested query looks up. -/
def overCap (caps : Query) : Query where
  nodes := [{ expr := .field { name := .text "total" } }, { expr := .subquery caps .scalar },
    { expr := .calc .sub (.index 0) (.index 1) }, { expr := .value (.int 100) },
    { expr := .cmp .gt (.index 2) (.index 3) }, { expr := .summarise [.index 4] }]
  summarise := some (.index 5)
  tables := { table := "orders" }

def caps : Query where
  nodes := [{ expr := .field { name := .text "cap" } }]
  select := [.index 0]
  tables := { table := "caps" }

def newCaps : Query where
  nodes := [{ expr := .field { name := .text "cap" } }, { expr := .field { name := .text "kind" } },
    { expr := .value (.str "new") }, { expr := .cmp .eq (.index 1) (.index 2) }]
  select := [.index 0]
  head := some (.index 3)
  tables := { table := "caps" }

end Query

def Context.capped : Context where
  dialect := .generic
  schema := { tables := [{ name := "orders", columns := [{ name := "total" }] },
    { name := "caps", columns := [{ name := "cap" }, { name := "kind" }] }] }
  config := {}

namespace Query

theorem canonicalText_dialects_overCap :
    let q := overCap caps
    let there := Context.capped.withDialect .postgres "postgres"
    q.NestedFree .capped (.index 4) ∧
      (q.canonicalTextIn .capped (.index 4)).toOption = some "(total - (SELECT cap FROM caps)) > 100" ∧
      q.canonicalTextIn .capped (.index 4) = q.canonicalTextIn there (.index 4) ∧
      q.aliasesIn .capped = q.aliasesIn there := by
  intro q there
  have hleaves : (q.tree (.index 4)).leaves = [.field 0, .subquery 1, .value (.int 100)] := rfl
  have hnested : (q.nestedStatement? .capped 1).map Statement.values = some [] := by decide +kernel
  have hfree : q.NestedFree .capped (.index 4) := by
    intro i hi
    rw [hleaves] at hi
    obtain rfl : i = 1 := by simpa using hi
    exact Option.map_eq_some_iff.mp hnested
  have hcompiled : (q.compile .capped).result.toOption.isSome ∧ (q.compile there).result.toOption.isSome := by
    decide +kernel
  obtain ⟨s, hs⟩ := Except.exists_eq_ok_of_toOption hcompiled.1
  obtain ⟨s', hs'⟩ := Except.exists_eq_ok_of_toOption hcompiled.2
  have hargs : q.groupArgs = .ok [.index 4] := rfl
  obtain ⟨-, htext, haliases⟩ :=
    @canonicalText_dialects .capped .postgres "postgres" q (fun _ => rfl) (fun _ => rfl) rfl
  refine ⟨hfree, by decide +kernel, htext _ hfree, ?_⟩
  exact haliases s s' _ hs hs' hargs (List.forall_mem_singleton.mpr hfree)

/-- A literal of a nested query has its placeholder in the canonical text, and has an influence on the alias. -/
theorem canonicalText_overCap_differs :
    let q := overCap newCaps
    let there := Context.capped.withDialect .postgres "postgres"
    Context.capped.dialect.Stateless ∧ there.dialect.Stateless ∧ Context.capped.dialect.like = there.dialect.like ∧
      (q.canonicalTextIn .capped (.index 4)).toOption = some "(total - (SELECT cap FROM caps WHERE kind = ?)) > 100" ∧
      (q.canonicalTextIn there (.index 4)).toOption = some "(total - (SELECT cap FROM caps WHERE kind = %s)) > 100" ∧
      (q.aliasesIn .capped).aliases = ["_total____SELECT_cap_FROM_caps_WHERE_kind_alias"] ∧
      (q.aliasesIn there).aliases = ["_total____SELECT_cap_FROM_caps_WHERE_kind____s_alias"] := by
  refine ⟨fun _ => rfl, fun _ => rfl, rfl, ?_, ?_, ?_, ?_⟩ <;> decide +kernel

end Query

end ArenaSql
