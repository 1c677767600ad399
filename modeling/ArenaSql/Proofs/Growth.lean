import ArenaSql.Proofs.Compilable
import ArenaSql.Proofs.Keeping
import Mathlib.Order.Defs.Unbundled

/-!
# Drafts as they grow

Work on a draft resolves fields in the passes, and apart from that changes the query in one way only: a nested query
gives way to what compiling it leaves. Statements that are there stay there. All this holds for every dialect, also
for one whose placeholders count, and so does what follows: a query that was compiled is the resolved one, apart from
its nested queries.
-/

namespace ArenaSql

/-! ## Queries that differ in nested queries -/

/-- The replacement at most puts other queries in the place of nested ones. -/
def Expr.KeepsButNested (f : Nat → Expr → Expr) : Prop :=
  ∀ i expr, f i expr = expr ∨ ∃ query query' embedding,
    expr = .subquery query embedding ∧ f i expr = .subquery query' embedding

namespace Expr.KeepsButNested

variable {f g : Nat → Expr → Expr}

theorem refl : KeepsButNested fun _ expr => expr :=
  fun _ _ => Or.inl rfl

theorem comp (hf : KeepsButNested f) (hg : KeepsButNested g) : KeepsButNested fun i expr => g i (f i expr) := by
  intro i expr
  rcases hf i expr with h | ⟨query, query', embedding, rfl, h⟩
  · simp only [h]
    exact hg i expr
  · simp only [h]
    rcases hg i (.subquery query' embedding) with h' | ⟨_, query'', _, heq, h'⟩
    · exact Or.inr ⟨query, query', embedding, rfl, h'⟩
    · cases heq
      exact Or.inr ⟨query, query'', embedding, rfl, h'⟩

theorem treeWith (hf : KeepsButNested f) (i : Nat) (expr : Expr) (sub : NodeRef → Tree) :
    (f i expr).treeWith i sub = expr.treeWith i sub := by
  rcases hf i expr with h | ⟨query, query', embedding, rfl, h⟩ <;> rw [h]
  rfl

theorem keepsFields (hf : KeepsButNested f) : KeepsFields f := by
  intro i expr field
  rcases hf i expr with h | ⟨query, query', embedding, rfl, h⟩ <;> simp [h]

end Expr.KeepsButNested

/-- The second query is the first one, apart from nested queries. -/
def Query.SameButNested (q q' : Query) : Prop :=
  ∃ f, Expr.KeepsButNested f ∧ q' = q.mapExprs f

namespace Query.SameButNested

variable {q q' q'' : Query}

theorem refl (q : Query) : q.SameButNested q :=
  ⟨_, .refl, (mapExprs_eq_self fun _ _ _ => rfl).symm⟩

theorem trans (h : q.SameButNested q') (h' : q'.SameButNested q'') : q.SameButNested q'' := by
  obtain ⟨f, hf, rfl⟩ := h
  obtain ⟨g, hg, rfl⟩ := h'
  exact ⟨_, hf.comp hg, mapExprs_mapExprs f g q⟩

theorem setExpr {i : Nat} {query : Query} {embedding : Embedding}
    (h : q.expr? (.index i) = some (.subquery query embedding)) (query' : Query) :
    q.SameButNested (q.setExpr i (.subquery query' embedding)) := by
  classical
  let f : Nat → Expr → Expr := fun j expr =>
    if j = i ∧ expr = .subquery query embedding then .subquery query' embedding else expr
  have hf : Expr.KeepsButNested f := by
    intro j expr
    by_cases hthere : j = i ∧ expr = .subquery query embedding
    · exact Or.inr ⟨query, query', embedding, hthere.2, if_pos hthere⟩
    · exact Or.inl (if_neg hthere)
  exact ⟨f, hf, setExpr_eq_mapExprs h (if_pos ⟨rfl, rfl⟩) fun j expr hj => if_neg fun hthere => hj hthere.1⟩

theorem tree (h : q.SameButNested q') (ref : NodeRef) : q'.tree ref = q.tree ref := by
  obtain ⟨f, hf, rfl⟩ := h
  exact tree_mapExprs f q hf.treeWith ref

theorem tables (h : q.SameButNested q') : q'.tables = q.tables := by
  obtain ⟨f, hf, rfl⟩ := h
  rfl

theorem fieldAt? (h : q.SameButNested q') (i : Nat) : q'.fieldAt? i = q.fieldAt? i := by
  obtain ⟨f, hf, rfl⟩ := h
  exact fieldAt?_mapExprs hf.keepsFields q i

theorem leaves (h : q.SameButNested q') (roots : List NodeRef) : q'.leaves roots = q.leaves roots := by
  simp only [Query.leaves, h.tree]

theorem derived (h : q.SameButNested q') (sql : Sql) : q'.derived sql = q.derived sql := by
  obtain ⟨f, hf, rfl⟩ := h
  rfl

theorem roots (h : q.SameButNested q') :
    q'.select = q.select ∧ q'.head = q.head ∧ Scope.shownHaving q' = Scope.shownHaving q ∧
      Scope.shownOrder q' = Scope.shownOrder q := by
  obtain ⟨f, hf, rfl⟩ := h
  exact ⟨rfl, rfl, rfl, rfl⟩

theorem groupArgs (h : q.SameButNested q') : q'.groupArgs = q.groupArgs := by
  obtain ⟨f, hf, rfl⟩ := h
  have hsummarise : (q.mapExprs f).summarise = q.summarise := rfl
  rw [Query.groupArgs, Query.groupArgs, length_mapExprs, hsummarise]
  cases q.summarise with
  | none => rfl
  | some root =>
    dsimp only
    rw [expr?_mapExprs, expr?, node?]
    cases locate? q.nodes root with
    | none => rfl
    | some found =>
      obtain ⟨i, node⟩ := found
      simp only [Option.map_some]
      rcases hf i node.expr with hsame | ⟨query, query', embedding, hexpr, hnested⟩
      · rw [hsame]
      · rw [hexpr] at hnested
        rw [hexpr, hnested]
        rfl

/-- Fields are resolved in the same way. -/
theorem resolveTrees (h : q.SameButNested q') (schema : Schema) (type : JoinType) (roots : List NodeRef) :
    ∃ f, Expr.KeepsButNested f ∧ q'.resolveTrees schema type roots =
      ((q.resolveTrees schema type roots).1.mapExprs f, (q.resolveTrees schema type roots).2) := by
  have hleaves := h.leaves roots
  obtain ⟨f, hf, rfl⟩ := h
  refine ⟨f, hf, ?_⟩
  rw [resolveTrees_eq, resolveTrees_eq, hleaves]
  exact resolveLeaves_mapExprs hf.keepsFields _ q

end Query.SameButNested

/-! ## Steps of a draft -/

namespace Draft

/-- Nested queries may have been compiled, and aliases given. -/
structure Grows (d d' : Draft) : Prop where
  query : d.query.SameButNested d'.query
  statements : ∀ i statement, d.statement? i = some statement → d'.statement? i = some statement

/-- Nested queries may have been compiled. -/
structure Extends (d d' : Draft) : Prop extends d.Grows d' where
  aliases : d'.aliases = d.aliases

theorem Grows.refl (d : Draft) : d.Grows d :=
  ⟨.refl _, fun _ _ h => h⟩

theorem Grows.trans {d d' d'' : Draft} (h : d.Grows d') (h' : d'.Grows d'') : d.Grows d'' :=
  ⟨h.query.trans h'.query, fun i statement hi => h'.statements i statement (h.statements i statement hi)⟩

instance : IsPreorder Draft Grows where
  refl := .refl
  trans _ _ _ h h' := h.trans h'

instance : IsPreorder Draft Extends where
  refl d := ⟨.refl d, rfl⟩
  trans _ _ _ h h' := ⟨h.toGrows.trans h'.toGrows, h'.aliases.trans h.aliases⟩

end Draft

namespace DraftM

variable {R : Draft → Draft → Prop} {α β : Type} {work : DraftM α} {next : α → DraftM β}

/-- Whether it succeeds or not, the work takes a draft to a related one. -/
def Moves (R : Draft → Draft → Prop) (work : DraftM α) : Prop :=
  ∀ d, R d (work.run d).2

theorem Moves.mono {S : Draft → Draft → Prop} (h : work.Moves R) (hrel : ∀ d d', R d d' → S d d') : work.Moves S :=
  fun d => hrel d _ (h d)

theorem run_bind_eq_ok_iff {b : β} {d d' : Draft} :
    (work >>= next).run d = (.ok b, d') ↔ ∃ a d₁, work.run d = (.ok a, d₁) ∧ (next a).run d₁ = (.ok b, d') := by
  rw [run_bind]
  rcases work.run d with ⟨_ | a, d₁⟩
  · simp
  · constructor
    · exact fun h => ⟨a, d₁, rfl, h⟩
    · rintro ⟨_, _, ⟨⟩, h⟩
      exact h

theorem Moves.of_run {a : Except CompileError α} {d d' : Draft} (h : work.Moves R) (hrun : work.run d = (a, d')) :
    R d d' := by
  have hmoves := h d
  rwa [hrun] at hmoves

section

variable [IsPreorder Draft R]

/-- Work keeps what is related to a draft, so it takes that draft to a related one. -/
theorem Moves.of_keeps (h : ∀ d, work.Keeps (R d) (R d)) : work.Moves R :=
  fun d => (h d).of_run (fun _ => id) (refl_of R d)

theorem Moves.keeps (h : work.Moves R) (d : Draft) : work.Keeps (R d) (R d) := by
  intro d₁ hd₁
  have htrans := trans_of R hd₁ (h d₁)
  revert htrans
  rcases work.run d₁ with ⟨_ | _, d₂⟩ <;> exact id

theorem Moves.pure (a : α) : (pure a : DraftM α).Moves R :=
  fun d => refl_of R d

theorem Moves.throw (e : CompileError) : (throw e : DraftM α).Moves R :=
  fun d => refl_of R d

theorem Moves.bind (h : work.Moves R) (hnext : ∀ a, (next a).Moves R) : (work >>= next).Moves R :=
  .of_keeps fun d => (h.keeps d).bind fun a => (hnext a).keeps d

end

end DraftM

theorem Query.leaves_resolveTrees (schema : Schema) (type : JoinType) (roots refs : List NodeRef) (q : Query) :
    (q.resolveTrees schema type roots).1.leaves refs = q.leaves refs := by
  obtain ⟨done, joins, heq, -⟩ := q.resolveLeaves_eq schema type (q.leaves roots)
  rw [resolveTrees_eq, heq, leaves_settledAt]

namespace Scope

variable {scope : Scope} {d : Draft}

open DraftM

/-! ## Nested queries -/

theorem run_statementAt (scope : Scope) (i : Nat) (d : Draft) :
    (scope.statementAt (.index i)).run d =
      match d.statement? i, d.query.expr? (.index i) with
      | some statement, _ => (.ok statement, d)
      | none, some (.subquery query embedding) => (scope.compileAt i query embedding).run d
      | none, some _ => (.error (.notSubquery (.index i)), d)
      | none, none => (.error (.arena (.outside (.index i) d.query.nodes.length)), d) := by
  cases hstatement : d.statement? i with
  | some statement => exact run_statementAt_of_some scope hstatement
  | none =>
    rw [Draft.statement?, Option.map_eq_none_iff] at hstatement
    rw [statementAt, run_bind, run_get]
    dsimp only
    rw [find?_position, hstatement, locate?_index, Query.expr?_index]
    cases d.query.nodes[i]? with
    | none => rfl
    | some node =>
      obtain ⟨aliasName, expr, forms⟩ := node
      cases expr <;> rfl

/-- A statement that was asked for is kept, and nothing but the nested query changes. -/
theorem moves_statementAt (scope : Scope) (i : Nat) : (scope.statementAt (.index i)).Moves Draft.Extends := by
  intro d
  rw [run_statementAt]
  cases hstatement : d.statement? i with
  | some statement => exact refl_of Draft.Extends d
  | none =>
    cases hexpr : d.query.expr? (.index i) with
    | none => exact refl_of Draft.Extends d
    | some expr =>
      cases expr with
      | subquery query embedding =>
        dsimp only
        rw [run_compileAt]
        generalize scope.nested (query.embedded embedding) d.requested = outcome
        have hquery : d.query.SameButNested (d.query.setExpr i (.subquery outcome.query embedding)) := .setExpr hexpr _
        dsimp only
        cases outcome.result with
        | error e => exact ⟨⟨hquery, fun _ _ h => h⟩, rfl⟩
        | ok statement =>
          refine ⟨⟨hquery, fun j statement' hj => ?_⟩, rfl⟩
          rw [statement?_cons, if_neg]
          · exact hj
          · rintro rfl
            rw [hstatement] at hj
            cases hj
      | _ => exact refl_of Draft.Extends d

/-- The statement that is answered is at hand afterwards. -/
theorem statement?_of_run {i : Nat} {statement : Statement} {d' : Draft}
    (h : (scope.statementAt (.index i)).run d = (.ok statement, d')) : d'.statement? i = some statement := by
  rw [run_statementAt] at h
  cases hstatement : d.statement? i with
  | some known =>
    rw [hstatement] at h
    cases h
    exact hstatement
  | none =>
    cases hexpr : d.query.expr? (.index i) with
    | none => rw [hstatement, hexpr] at h; cases h
    | some expr =>
      rw [hstatement, hexpr] at h
      cases expr with
      | subquery query embedding =>
        dsimp only at h
        rw [run_compileAt] at h
        dsimp only at h
        cases hresult : (scope.nested (query.embedded embedding) d.requested).result with
        | error e => rw [hresult] at h; cases h
        | ok found =>
          rw [hresult] at h
          cases h
          rw [statement?_cons, if_pos rfl]
      | _ => cases h

/-! ## Expressions and clauses -/

theorem Moves.grows {α : Type} {work : DraftM α} (h : work.Moves Draft.Extends) : work.Moves Draft.Grows :=
  h.mono fun _ _ h => h.toGrows

theorem invariant_extends (scope : Scope) (d : Draft) : scope.Invariant d.Extends d.Extends fun _ => True where
  failing _ := id
  placeholder _ _ h := ⟨⟨h.query, h.statements⟩, h.aliases⟩
  statementAt i _ := (moves_statementAt scope i).keeps d
  roots _ _ _ _ _ _ _ _ := trivial
  args _ _ _ _ _ _ _ _ _ _ := trivial

theorem invariant_grows (scope : Scope) (d : Draft) : scope.Invariant d.Grows d.Grows fun _ => True where
  failing _ := id
  placeholder _ _ h := ⟨h.query, h.statements⟩
  statementAt i _ := (Moves.grows (moves_statementAt scope i)).keeps d
  roots _ _ _ _ _ _ _ _ := trivial
  args _ _ _ _ _ _ _ _ _ _ := trivial

theorem moves_render (scope : Scope) (style : Style) (t : Tree) : (scope.render style t).Moves Draft.Extends :=
  .of_keeps fun d => keeps_render (invariant_extends scope d) style t fun _ _ => trivial

theorem moves_renderAll (scope : Scope) (style : Style) (ts : List (Unit → Tree)) :
    (scope.renderAll style ts).Moves Draft.Extends :=
  .of_keeps fun d => keeps_renderAll (invariant_extends scope d) style ts fun _ _ => trivial

theorem moves_collect (scope : Scope) (leaves : List Leaf) : (scope.collect leaves).Moves Draft.Extends :=
  .of_keeps fun d => keeps_collect (invariant_extends scope d) leaves fun _ _ => trivial

theorem moves_hasValues (scope : Scope) (t : Tree) : (scope.hasValues t).Moves Draft.Extends :=
  .of_keeps fun d => keeps_hasValues (invariant_extends scope d) t fun _ _ => trivial

theorem moves_valuesOfRoots (scope : Scope) (roots : List NodeRef) :
    (scope.valuesOfRoots roots).Moves Draft.Extends :=
  .of_keeps fun d => keeps_valuesOfRoots (invariant_extends scope d) roots fun _ _ _ _ _ _ => trivial

theorem moves_aliasOf? (scope : Scope) (t : Tree) : (scope.aliasOf? t).Moves Draft.Extends :=
  .of_keeps fun d => keeps_aliasOf? (invariant_extends scope d) t fun _ _ => trivial

theorem moves_selectClause (scope : Scope) : scope.selectClause.Moves Draft.Extends :=
  .of_keeps fun d => keeps_selectClause (invariant_extends scope d)

theorem moves_whereClause (scope : Scope) : scope.whereClause.Moves Draft.Extends :=
  .of_keeps fun d => keeps_whereClause (invariant_extends scope d)

theorem moves_havingClause (scope : Scope) : scope.havingClause.Moves Draft.Extends :=
  .of_keeps fun d => keeps_havingClause (invariant_extends scope d)

theorem moves_orderByClause (scope : Scope) : scope.orderByClause.Moves Draft.Extends :=
  .of_keeps fun d => keeps_orderByClause (invariant_extends scope d)

/-! Only the grouping gives aliases. -/

theorem grows_aliases {d d' : Draft} (table : AliasTable) (h : d.Grows d') : d.Grows { d' with aliases := table } :=
  ⟨h.query, h.statements⟩

theorem moves_clauses (scope : Scope) : scope.clauses.Moves Draft.Grows :=
  .of_keeps fun d => keeps_clauses (invariant_grows scope d) fun _ => grows_aliases

/-! ## Passes -/

/-- Passes that succeed resolve the fields below their roots, and nothing but nested queries changes besides. -/
theorem resolved_of_run_passAll {parts : List (List NodeRef)} {q : Query} {d' : Draft} {found : List Value}
    (hq : q.SameButNested d.query) (h : (scope.passAll parts).run d = (.ok found, d')) :
    ∃ q', q.resolveTrees scope.schema scope.config.joinType (parts.map (·.filter (!·.isNull))).flatten = (q', none) ∧
      q'.SameButNested d'.query ∧ d'.aliases = d.aliases := by
  induction parts generalizing q d found with
  | nil =>
    cases h
    exact ⟨q, rfl, hq, rfl⟩
  | cons refs rest ih =>
    obtain ⟨first, d₂, hfirst, hrest⟩ := run_bind_eq_ok_iff.mp h
    obtain ⟨more, _, hrest, hlast⟩ := run_bind_eq_ok_iff.mp hrest
    cases hlast
    obtain ⟨_, d₁, hresolve, hvalues⟩ := run_bind_eq_ok_iff.mp hfirst
    obtain ⟨f, hf, heq⟩ := hq.resolveTrees scope.schema scope.config.joinType (refs.filter (!·.isNull))
    rw [run_onQuery, heq] at hresolve
    cases hresolved : q.resolveTrees scope.schema scope.config.joinType (refs.filter (!·.isNull)) with
    | mk q₁ fault =>
      rw [hresolved] at hresolve
      cases fault with
      | some e => cases hresolve
      | none =>
        cases hresolve
        have hextends := (moves_valuesOfRoots scope _).of_run hvalues
        obtain ⟨q', hq', hsame, haliases⟩ := ih (Query.SameButNested.trans ⟨f, hf, rfl⟩ hextends.query) hrest
        refine ⟨q', ?_, hsame, haliases.trans hextends.aliases⟩
        have hleaves := q.leaves_resolveTrees scope.schema scope.config.joinType (refs.filter (!·.isNull))
          (rest.map (·.filter (!·.isNull))).flatten
        rw [hresolved] at hleaves
        rw [Query.resolveTrees_eq] at hresolved hq' ⊢
        rw [List.map_cons, List.flatten_cons, Query.leaves_append, Query.resolveLeaves_append, hresolved, ← hleaves]
        exact hq'

end Scope

/-! ## Compilations -/

/-- How a query is compiled with success, whatever the dialect: after the passes the draft is `d₁`, and after the
clauses it is `d₂`. -/
structure Scope.Drafts (scope : Scope) (q : Query) (statement : Statement) (d₁ d₂ : Draft) (clauses : List Sql) :
    Prop where
  resolved : q.settleIndex.1.resolveTrees scope.schema scope.config.joinType q.settleIndex.1.liveRoots =
    (q.resolved scope.toContext, none)
  query : (q.resolved scope.toContext).SameButNested d₁.query
  aliases : d₁.aliases = {}
  passed : ∃ q₁ requested found, q.settleIndex = (q₁, none) ∧
    (scope.passAll [q₁.select, q₁.head.toList, q₁.summarise.toList, shownHaving q₁, shownOrder q₁]).run
      { query := q₁, requested := requested } = (.ok found, d₁)
  rendered : scope.clauses.run d₁ = (.ok clauses, d₂)
  sql_eq : statement.sql = (q.resolved scope.toContext).derived (Sql.joined " " clauses)

theorem Scope.Drafts.grows {scope : Scope} {q : Query} {statement : Statement} {d₁ d₂ : Draft} {clauses : List Sql}
    (h : scope.Drafts q statement d₁ d₂ clauses) : d₁.Grows d₂ :=
  (moves_clauses scope).of_run h.rendered

/-- The draft in which compiling a query ends. -/
def Scope.lastDraft (scope : Scope) (q : Query) (requested : Nat) : Draft :=
  (scope.statement.run { query := q, requested := requested }).2

theorem Scope.exists_drafts {scope : Scope} {q : Query} {requested : Nat} {statement : Statement}
    (h : (scope.compile q requested).result = .ok statement) :
    ∃ d₁ clauses, scope.Drafts q statement d₁ (scope.lastDraft q requested) clauses := by
  obtain ⟨d₂, hrun⟩ : ∃ d₂, scope.statement.run { query := q, requested := requested } = (.ok statement, d₂) :=
    ⟨_, Prod.ext h rfl⟩
  have hlastDraft : scope.lastDraft q requested = d₂ := congrArg Prod.snd hrun
  rw [hlastDraft]
  obtain ⟨values, d₁, hpasses, hrest⟩ := DraftM.run_bind_eq_ok_iff.mp hrun
  obtain ⟨clauses, _, hclauses, hlast⟩ := DraftM.run_bind_eq_ok_iff.mp hrest
  cases hlast
  rw [passes_eq] at hpasses
  obtain ⟨_, d₀, hsettled, hpasses⟩ := DraftM.run_bind_eq_ok_iff.mp hpasses
  rw [DraftM.run_onQuery] at hsettled
  cases hindex : q.settleIndex with
  | mk q₁ fault =>
    rw [hindex] at hsettled
    cases fault with
    | some e => cases hsettled
    | none =>
      cases hsettled
      obtain ⟨_, _, hget, hpasses⟩ := DraftM.run_bind_eq_ok_iff.mp hpasses
      cases hget
      obtain ⟨q₂, hresolved, hsame, haliases⟩ := resolved_of_run_passAll (.refl q₁) hpasses
      have hq₂ : q.resolved scope.toContext = q₂ := by
        rw [Query.resolved, hindex]
        exact congrArg Prod.fst hresolved
      have hgrows := (moves_clauses scope).of_run hclauses
      refine ⟨d₁, clauses, ⟨?_, ?_, haliases, ⟨q₁, requested, values, hindex, hpasses⟩, hclauses, ?_⟩⟩
      · rw [hindex, hq₂]
        exact hresolved
      · rw [hq₂]
        exact hsame
      · rw [hq₂]
        exact (hsame.trans hgrows.query).derived _

/-- A query that was compiled is the resolved one, apart from nested queries. -/
theorem Query.resolved_sameButNested {context : Context} {q : Query} {statement : Statement}
    (h : (q.compile context).result = .ok statement) :
    (q.resolved context).SameButNested (q.compile context).query := by
  obtain ⟨d₁, clauses, hdrafts⟩ := Scope.exists_drafts h
  exact hdrafts.query.trans hdrafts.grows.query

end ArenaSql
