import ArenaSql.Proofs.Dialects
import ArenaSql.Proofs.Later
import ArenaSql.Proofs.OneQuery

/-!
# Nested queries and queries on their own

What a nested query means is what it means on its own. How deep it lies is of no importance, and neither are its marks,
except for whether it stands as a derived table. So everything that is asked about a nested query is answered by the
statement that the query has when it is compiled alone, however often and in whichever order it is asked.
-/

namespace ArenaSql

/-! ## Depth -/

namespace Scope

variable {scope scope' : Scope} {q : Query}

theorem nestedAt_settledAt_congr (hnested : scope'.nestedAt q = scope.nestedAt q) (schema : Schema)
    (settled : Nat → Bool) (joins : List Join) :
    scope'.nestedAt (q.settledAt schema settled joins) = scope.nestedAt (q.settledAt schema settled joins) := by
  funext i
  rw [nestedAt_settledAt, nestedAt_settledAt, hnested]

variable (hcontext : scope'.toContext = scope.toContext)

include hcontext

theorem view_congr (hnested : scope'.nestedAt q = scope.nestedAt q) : scope'.view q = scope.view q := by
  rw [view, view, hnested, hcontext]

theorem gather_congr (hnested : scope'.nestedAt q = scope.nestedAt q) (parts : List (List NodeRef))
    (done : Nat → Bool) : scope'.gather parts done q = scope.gather parts done q := by
  induction parts generalizing q done with
  | nil => rfl
  | cons roots rest ih =>
    obtain ⟨settled, joins, heq, -⟩ := q.resolveLeaves_eq scope.schema scope.config.joinType (q.leaves roots)
    have hnested' := nestedAt_settledAt_congr hnested scope.schema settled joins
    rw [gather, gather, hcontext, Query.resolveTrees_eq, heq]
    cases q.fault? scope.schema (q.leaves roots) with
    | some e => rfl
    | none =>
      dsimp only
      rw [view_congr hcontext hnested']
      cases (scope.view (q.settledAt scope.schema settled joins)).collect
          ((q.settledAt scope.schema settled joins).leaves roots) with
      | error e => rfl
      | ok found => simp only [ih hnested']

/-- The result depends on the scope only through the nested queries. -/
theorem outline_congr (hnested : scope'.nestedAt q = scope.nestedAt q) :
    (scope'.outline q).2 = (scope.outline q).2 := by
  rw [outline, outline]
  cases hsettled : q.settleIndex with
  | mk q₁ fault =>
    cases fault with
    | some e => rfl
    | none =>
      have hnested₁ : scope'.nestedAt q₁ = scope.nestedAt q₁ := by
        rw [(scope'.leaves_settleIndex hsettled).2, (scope.leaves_settleIndex hsettled).2, hnested]
      obtain ⟨settled, joins, heq⟩ := scope.exists_gather_query_eq q₁.parts (fun _ => false) q₁
      have hview := view_congr hcontext (nestedAt_settledAt_congr hnested₁ scope.schema settled joins)
      dsimp only
      rw [gather_congr hcontext hnested₁, heq, hview, hcontext]

end Scope

namespace Context

variable {context : Context}

/-- A scope that is deep enough for a query gives the result that a deeper one gives. -/
theorem outline_depth (hd : context.dialect.Stateless) {q : Query} {depth depth' : Nat} (h : q.nesting ≤ depth)
    (h' : q.nesting ≤ depth') : ((context.scope depth').outline q).2 = ((context.scope depth).outline q).2 := by
  induction depth generalizing q depth' with
  | zero =>
    refine Scope.outline_congr rfl (funext fun i => ?_)
    rw [Scope.nestedAt, Scope.nestedAt]
    split
    · rename_i hexpr
      exact absurd (Query.nesting_lt hexpr) (by omega)
    · rfl
    · rfl
  | succ depth ih =>
    refine Scope.outline_congr rfl (funext fun i => ?_)
    cases hexpr : q.expr? (.index i) with
    | none => rw [Scope.nestedAt, Scope.nestedAt, hexpr]
    | some expr =>
      cases expr with
      | subquery query embedding =>
        obtain ⟨below', rfl, hbelow', hnested'⟩ := nestedAt_scope hd h' hexpr
        obtain ⟨below, hdepth, hbelow, hnested⟩ := nestedAt_scope hd h hexpr
        cases hdepth
        rw [hnested', hnested]
        exact ih hbelow hbelow'
      | _ => rw [Scope.nestedAt, Scope.nestedAt, hexpr]

end Context

/-! ## Marks -/

namespace Query

/-- How a query is marked for the way it is embedded. -/
structure Marks where
  subquery : Bool
  existsQuery : Bool
  subqueryExpression : Bool
  forms : Fields

/-- A query with these marks is no derived table. -/
def Marks.Bare (marks : Marks) : Prop :=
  (marks.subquery && !marks.existsQuery && !marks.subqueryExpression) = false

/-- The query with other marks. -/
def withMarks (q : Query) (marks : Marks) : Query :=
  { q with
    subquery := marks.subquery
    existsQuery := marks.existsQuery
    subqueryExpression := marks.subqueryExpression
    forms := marks.forms }

theorem derived_withMarks {marks : Marks} (h : marks.Bare) (q : Query) (sql : Sql) :
    (q.withMarks marks).derived sql = sql := by
  rw [Marks.Bare] at h
  simp only [derived, withMarks, h, Bool.false_eq_true, if_false]

variable {q : Query} (marks : Marks)

theorem aside_withMarks : Aside (withMarks · marks) :=
  ⟨fun _ => rfl, fun _ => rfl, fun _ _ _ => rfl, fun _ _ => rfl⟩

/-- The record index is settled in the same way, whatever the marks. -/
theorem exists_settleIndex_withMarks (h : marks.Bare) :
    ∃ marks' : Marks, marks'.Bare ∧
      (q.withMarks marks).settleIndex = (q.settleIndex.1.withMarks marks', q.settleIndex.2) := by
  have hindex : (q.withMarks marks).recordIndex = q.recordIndex := rfl
  let marks' : Marks := { marks with forms := Fields.erase "record_index" marks.forms }
  rw [settleIndex, settleIndex, hindex]
  cases q.recordIndex with
  | none => exact ⟨marks, h, rfl⟩
  | some index =>
    dsimp only
    split
    · exact ⟨marks', h, rfl⟩
    · split
      · exact ⟨marks', h, (aside_withMarks marks').reverseEach _ { q with recordIndex := some index.neg, forms := _ }⟩
      · exact ⟨marks, h, rfl⟩

end Query

theorem View.groupItems_withMarks (view : View) (config : Config) (q : Query) (marks : Query.Marks)
    (table : AliasTable) (refs : List NodeRef) :
    view.groupItems config (q.withMarks marks) table refs = view.groupItems config q table refs := by
  induction refs generalizing table with
  | nil => rfl
  | cons ref rest ih =>
    rw [groupItems, groupItems]
    simp only [ih]
    rfl

/-- Clauses do not depend on the marks. -/
theorem View.clauses_withMarks (view : View) (config : Config) (q : Query) (marks : Query.Marks) :
    view.clauses config (q.withMarks marks) = view.clauses config q := by
  have hgroup : view.groupByClause config (q.withMarks marks) = view.groupByClause config q := by
    rw [groupByClause, groupByClause]
    simp only [groupItems_withMarks]
    rfl
  rw [clauses, clauses, hgroup]
  rfl

open Query in
/-- The marks of a query are of no importance as long as it is no derived table. -/
theorem Scope.outline_withMarks {scope : Scope} {q : Query} {marks marks' : Marks} {statement : Statement}
    (hmarks : marks.Bare) (hmarks' : marks'.Bare) (h : (scope.outline (q.withMarks marks)).2 = .ok statement) :
    (scope.outline (q.withMarks marks')).2 = .ok statement := by
  obtain ⟨q₁, q₂, clauses, table, hsucceeds⟩ := outline_eq_ok_iff.mp h
  obtain ⟨m, hm, hsettled⟩ := q.exists_settleIndex_withMarks marks hmarks
  obtain ⟨m', hm', hsettled'⟩ := q.exists_settleIndex_withMarks marks' hmarks'
  have hq₁ := hsucceeds.settled
  rw [hsettled, Prod.mk.injEq] at hq₁
  obtain ⟨rfl, hfault⟩ := hq₁
  generalize q.settleIndex.1 = q₀ at hsettled' hsucceeds
  have hq₂ := hsucceeds.resolved
  rw [(aside_withMarks m).resolveLeaves, Prod.mk.injEq] at hq₂
  obtain ⟨rfl, hnone⟩ := hq₂
  generalize hq : (q₀.resolveLeaves scope.schema scope.config.joinType _).1 = q₂ at hsucceeds
  refine outline_eq_ok_iff.mpr ⟨q₀.withMarks m', q₂.withMarks m', clauses, table, ⟨?_, ?_, hsucceeds.collected,
    ?_, ?_, hsucceeds.dialect_eq⟩⟩
  · rw [hsettled', hfault]
  · rw [(aside_withMarks m').resolveLeaves]
    exact Prod.ext (congrArg (·.withMarks m') hq) hnone
  · rw [View.clauses_withMarks, ← View.clauses_withMarks _ _ _ m]
    exact hsucceeds.rendered
  · rw [hsucceeds.sql_eq, derived_withMarks hm, derived_withMarks hm']

/-- The query, embedded in no other. -/
def Query.alone (q : Query) : Query :=
  { q with subquery := false, existsQuery := false, subqueryExpression := false }

theorem Query.nesting_alone (q : Query) : q.alone.nesting = q.nesting := by
  cases q
  rfl

/-- A nested query that is a test or a value has the statement of the query on its own. -/
theorem Context.outline_embedded {context : Context} (hd : context.dialect.Stateless) {q : Query}
    {embedding : Embedding} (hmode : embedding ∈ Embedding.all) {statement : Statement}
    (h : (q.alone.compile context).result = .ok statement) {depth : Nat}
    (hdepth : (q.embedded embedding).nesting ≤ depth) :
    ((context.scope depth).outline (q.embedded embedding)).2 = .ok statement := by
  rw [(Query.compile_eq_outline hd _).2] at h
  have hbare : (Query.Marks.mk true (embedding == .presence) (embedding == .scalar)
      (["subquery", "exists_query", "subquery_expression"].foldr Fields.erase q.forms)).Bare := by
    simp only [Embedding.all, List.mem_cons, List.not_mem_nil, or_false] at hmode
    rcases hmode with rfl | rfl <;> rfl
  have halone : (Query.Marks.mk false false false q.forms).Bare := rfl
  have hmarked := Scope.outline_withMarks (q := q) halone hbare h
  rw [← hmarked]
  refine outline_depth hd ?_ hdepth
  rw [Query.nesting_embedded, Query.nesting_alone]

/-! ## Asking about a nested query -/

/-- The node at `i` is a nested query whose statement can be had. -/
structure Draft.Embeds (context : Context) (i : Nat) (embedding : Embedding) (statement : Statement) (d : Draft) :
    Prop where
  tree_eq : d.query.tree (.index i) = .subquery i embedding
  answers : ∃ d', ((context.scopeWith context d.query).statementAt (.index i)).run d = (.ok statement, d')

namespace Draft

variable {context : Context} {i : Nat} {embedding : Embedding} {statement : Statement} {d : Draft}

/-- A nested query that was not compiled yet has the statement of the query on its own. -/
theorem embeds_of_alone (hd : context.dialect.Stateless) {q : Query}
    (hexpr : d.query.expr? (.index i) = some (.subquery q embedding)) (hmode : embedding ∈ Embedding.all)
    (hnew : d.statement? i = none)
    (halone : (q.alone.compile context).result = .ok statement) :
    d.Embeds context i embedding statement := by
  obtain ⟨below, hdepth, hbelow, hnested⟩ := Context.nestedAt_scope hd (Nat.le_refl d.query.nesting) hexpr
  rw [Context.outline_embedded hd hmode halone hbelow, Scope.nestedAt, hexpr] at hnested
  have hresult := (Context.steady_scope hd _ (q.embedded embedding) d.requested).2.trans hnested
  constructor
  · rw [Query.expr?_index, Option.map_eq_some_iff] at hexpr
    obtain ⟨node, hnode, hexpr⟩ := hexpr
    have hlocate : locate? d.query.nodes (.index i) = some (i, node) := by rw [locate?_index, hnode, Option.map_some]
    rw [Query.tree, Tree.unfold_of_some _ hlocate, hexpr]
    rfl
  · rw [Scope.run_statementAt, hnew, hexpr]
    dsimp only
    rw [Scope.run_compileAt]
    dsimp only
    have hscope : (context.scopeWith context d.query).nested = (context.scope d.query.nesting).nested := rfl
    rw [hscope, hresult]
    exact ⟨_, rfl⟩

/-- Once the statement is asked for, it can still be had. -/
theorem Embeds.after (h : d.Embeds context i embedding statement) {d' : Draft}
    (hrun : ((context.scopeWith context d.query).statementAt (.index i)).run d = (.ok statement, d')) :
    d'.Embeds context i embedding statement := by
  have hextends := Scope.moves_statementAt (context.scopeWith context d.query) i d
  rw [hrun] at hextends
  refine ⟨?_, d', Scope.run_statementAt_of_some _ (Scope.statement?_of_run hrun)⟩
  rw [hextends.1.1.tree, h.tree_eq]

end Draft

namespace Session

/-- What can be asked about an expression without changing it. -/
inductive Reading where
  | render
  | canonicalText
  | values
  | hasValues

def Reading.step (i : Nat) : Reading → Step
  | .render => .render (.index i)
  | .canonicalText => .canonicalText (.index i)
  | .values => .values (.index i)
  | .hasValues => .hasValues (.index i)

/-- How a nested query with the text is written. -/
def embeddedText (embedding : Embedding) (text : String) : String :=
  match embedding with
  | .presence => "EXISTS (" ++ text ++ ")"
  | .scalar | .other _ => "(" ++ text ++ ")"

theorem text_wrap (embedding : Embedding) (sql : Sql) :
    (embedding.wrap sql).text = embeddedText embedding sql.text := by
  cases embedding with
  | presence =>
    have hopening : "EXISTS (" = "EXISTS " ++ "(" := rfl
    rw [embeddedText, hopening]
    simp only [Embedding.wrap, Sql.parenthesized, Sql.text_append, Sql.text_plain, String.append_assoc]
  | scalar | other => simp [Embedding.wrap, embeddedText, Sql.parenthesized, String.append_assoc]

/-- What a nested query answers that is compiled to the statement. -/
def Reading.answer (embedding : Embedding) (statement : Statement) : Reading → Value
  | .render | .canonicalText => .str (embeddedText embedding statement.text)
  | .values => .list statement.values
  | .hasValues => .bool (!statement.values.isEmpty)

/-- One reading is answered by the statement, and leaves it to be had. -/
theorem step_reading {s : Session} {name : String} {d : Draft} {i : Nat} {embedding : Embedding}
    {statement : Statement} (hdraft : s.draft? name = some d) (h : d.Embeds s.context i embedding statement)
    (reading : Reading) :
    ∃ d', d'.Embeds s.context i embedding statement ∧
      s.step name (reading.step i) = (.ok (reading.answer embedding statement), s.withDraft name d') := by
  obtain ⟨d', hrun⟩ := h.answers
  refine ⟨d', h.after hrun, ?_⟩
  cases reading with
  | render =>
    rw [step, Reading.step, Step.run, SessionM.run_onTree hdraft, h.tree_eq, Scope.render, DraftM.run_bind, hrun]
    exact congrArg (fun text => (Except.ok (Value.str text), s.withDraft name d')) (text_wrap embedding statement.sql)
  | canonicalText =>
    rw [step, Reading.step, Step.run, SessionM.run_onTree hdraft, h.tree_eq, Scope.canonicalText, DraftM.run_bind,
      Scope.render, DraftM.run_bind, hrun]
    exact congrArg (fun text => (Except.ok (Value.str text), s.withDraft name d')) (text_wrap embedding statement.sql)
  | values =>
    rw [step, Reading.step, Step.run, SessionM.run_onTree hdraft, h.tree_eq, Scope.valuesOf, DraftM.run_bind, hrun]
    rfl
  | hasValues =>
    rw [step, Reading.step, Step.run, SessionM.run_onTree hdraft, h.tree_eq, Scope.hasValues, DraftM.run_bind, hrun]
    rfl

/-- What is asked about a nested query leaves its statement to be had. -/
theorem exists_embeds_after {s : Session} {name : String} {d : Draft} {i : Nat} {embedding : Embedding}
    {statement : Statement} (hdraft : s.draft? name = some d) (h : d.Embeds s.context i embedding statement)
    (readings : List Reading) :
    (s.after (readings.map fun reading => (name, reading.step i))).context = s.context ∧
      ∃ d', (s.after (readings.map fun reading => (name, reading.step i))).draft? name = some d' ∧
        d'.Embeds s.context i embedding statement := by
  induction readings generalizing s d with
  | nil => exact ⟨rfl, d, hdraft, h⟩
  | cons reading rest ih =>
    obtain ⟨d', hembeds, hstep⟩ := step_reading hdraft h reading
    rw [List.map_cons, after, hstep]
    exact ih (s := s.withDraft name d') (draft?_withDraft_self hdraft d') hembeds

/-- A nested query means what it means on its own. If it can be compiled alone, then everything that is asked about it
is answered by that statement, whatever was asked before and whatever the query is in which it lies. -/
theorem subquery_reads_alone {s : Session} {name : String} {d : Draft} {i : Nat} {q : Query} {embedding : Embedding}
    {statement : Statement} (hd : s.context.dialect.Stateless) (hdraft : s.draft? name = some d)
    (hexpr : d.query.expr? (.index i) = some (.subquery q embedding)) (hmode : embedding ∈ Embedding.all)
    (hnew : d.statement? i = none) (halone : (q.alone.compile s.context).result = .ok statement)
    (earlier : List Reading) (reading : Reading) :
    ((s.after (earlier.map fun reading => (name, reading.step i))).step name (reading.step i)).1 =
      .ok (reading.answer embedding statement) := by
  obtain ⟨hcontext, d', hdraft', hembeds⟩ :=
    exists_embeds_after hdraft (Draft.embeds_of_alone hd hexpr hmode hnew halone) earlier
  rw [← hcontext] at hembeds
  obtain ⟨d'', -, hstep⟩ := step_reading hdraft' hembeds reading
  rw [hstep]

/-- The noted users, marked as a derived table. -/
def notedTable : Query :=
  { Query.notedUsers with subquery := true, aliasName := some "noted" }

/-- A query with an alias and a join, and the noted users in it. -/
def notedOrders : Session where
  registry := .standard
  context := .users "_alias"
  drafts :=
    [("orders",
      { query :=
        { nodes := [{ expr := .subquery notedTable .scalar }]
          tables :=
            { table := "orders"
              aliasName := some "users"
              joins := [{ lookup := "buyer", table := "users", fromCol := "uid", toCol := "id" }] } } })]

theorem subquery_reads_alone_notedOrders :
    let text := "SELECT * FROM users WHERE name ILIKE ? GROUP BY name ILIKE note AS name_ILIKE_note_alias, " ++
      "name LIKE note_2 AS name_LIKE_note_alias"
    ((notedOrders.after [("orders", .values (.index 0)), ("orders", .hasValues (.index 0))]).step "orders"
        (.render (.index 0))).1 =
      .ok (.str ("(" ++ text ++ ")")) ∧
    ((notedOrders.after [("orders", .canonicalText (.index 0))]).step "orders" (.values (.index 0))).1 =
      .ok (.list [.str "a%"]) := by
  intro text
  have heval : (notedTable.alone.compile (.users "_alias")).result.toOption.map (fun s => (s.text, s.values)) =
      some (text, [.str "a%"]) := by decide +kernel
  obtain ⟨statement, hresult, heval⟩ := Option.map_eq_some_iff.mp heval
  obtain ⟨htext, hvalues⟩ := Prod.mk.injEq .. ▸ heval
  have hexpr : (notedOrders.draft? "orders").bind (·.query.expr? (.index 0)) = some (.subquery notedTable .scalar) := rfl
  obtain ⟨d, hdraft, hexpr⟩ := Option.bind_eq_some_iff.mp hexpr
  have hreads := subquery_reads_alone (s := notedOrders) (fun _ => rfl) hdraft hexpr (by decide) (by cases hdraft; rfl)
    (Except.eq_ok_of_toOption hresult)
  have hrender := hreads [.values, .hasValues] .render
  have hfound := hreads [.canonicalText] .values
  rw [Reading.answer, embeddedText, htext] at hrender
  rw [Reading.answer, hvalues] at hfound
  exact ⟨hrender, hfound⟩

end Session

end ArenaSql
