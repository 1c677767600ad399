import ArenaSql.Proofs.Compilable
import ArenaSql.Proofs.Masking

/-!
# Literals have no influence on the text

Compiling the masked query yields the masked statement: the same text, with a mask in the place of every value. So
queries with equal masks have statements with equal texts, or fail in the same way. The text of an argument of the
grouping that is not simple decides on its alias, with literals written out; such arguments must not have any.
-/

namespace ArenaSql

theorem CondOp.connect_masked (op : CondOp) (parts : List Sql) :
    op.connect (parts.map Sql.masked) = (op.connect parts).map Sql.masked := by
  have hshown : (parts.map Sql.masked).filter (!·.isBlank) = (parts.filter (!·.isBlank)).map Sql.masked := by
    rw [List.filter_map]
    congr 1
    exact List.filter_congr fun part _ => by simp
  unfold connect
  rw [hshown]
  generalize parts.filter (!·.isBlank) = shown
  rcases shown with _ | ⟨part, _ | ⟨next, rest⟩⟩
  · rfl
  · cases op <;> simp [Except.map]
  · cases op with
    | neg => rfl
    | conj | disj | other =>
      simp only [List.map_cons, Except.map, Sql.masked_joined, Sql.masked_parenthesized, List.map_map]
      congr 4
      exact List.map_congr_left fun sql _ => (Sql.masked_parenthesized sql).symm

/-- The expression is simple, or has no literals other than null outside nested queries. -/
def Tree.Plain (t : Tree) : Prop :=
  t.isSimple = .ok true ∨ ∀ v, .value v ∈ t.leaves → v = .null

/-- All arguments of the grouping are plain. -/
def Query.PlainArgs (q : Query) : Prop :=
  ∀ args, q.groupArgs = .ok args → ∀ arg ∈ args, (q.tree arg).Plain

namespace View

/-- The view in which the statements of nested queries are masked. -/
def masked (view : View) : View :=
  { view with nested := fun i => (view.nested i).map Statement.masked }

/-! ## Expressions -/

mutual

/-- A masked expression is rendered as the masked fragment. Where literals are written out, there must not be any. -/
theorem render_masked (view : View) (style : Style) :
    (t : Tree) → (style = .bound ∨ ∀ v, .value v ∈ t.leaves → v = .null) →
      view.masked.render style t.masked = (view.render style t).map Sql.masked
  | .field _ f, _ => by
    rw [Tree.masked, render, render]
    · rfl
    all_goals simp
  | .value v, h => by
    rw [Tree.masked, render, render]
    rcases h with rfl | hnull
    · cases v <;> rfl
    · rw [hnull v (by simp [Tree.leaves])]
      cases style <;> rfl
  | .func name args, h => by
    rw [Tree.leaves] at h
    rw [Tree.masked, render, render, renderAll_masked view style args h]
    cases view.renderAll style args with
    | error e => rfl
    | ok parts => simp [Except.map, bind, Except.bind, pure, Except.pure, Sql.masked_joined]
  | .calc op left right, h => by
    simp only [Tree.leaves, List.mem_append] at h
    rw [Tree.masked, render, render,
      render_masked view style (left ()) (h.imp_right fun hnull v hv => hnull v (Or.inl hv)),
      render_masked view style (right ()) (h.imp_right fun hnull v hv => hnull v (Or.inr hv))]
    cases view.render style (left ()) with
    | error e => rfl
    | ok l =>
      cases view.render style (right ()) with
      | error e => rfl
      | ok r => simp [Except.map, bind, Except.bind, pure, Except.pure, Tree.operand_masked]
  | .cmp op left right, h => by
    simp only [Tree.leaves, List.mem_append] at h
    rw [Tree.masked, render, render,
      render_masked view style (left ()) (h.imp_right fun hnull v hv => hnull v (Or.inl hv)),
      render_masked view style (right ()) (h.imp_right fun hnull v hv => hnull v (Or.inr hv)), Tree.isNull_masked]
    cases view.render style (left ()) with
    | error e => rfl
    | ok l =>
      cases op.nullTest? with
      | none =>
        cases view.render style (right ()) with
        | error e => rfl
        | ok r => simp [Except.map, bind, Except.bind, pure, Except.pure, Tree.operand_masked, masked]
      | some test =>
        cases (right ()).isNull with
        | true => simp [Except.map, bind, Except.bind, pure, Except.pure, Tree.operand_masked]
        | false =>
          cases view.render style (right ()) with
          | error e => rfl
          | ok r => simp [Except.map, bind, Except.bind, pure, Except.pure, Tree.operand_masked, masked]
  | .cond op args, h => by
    rw [Tree.leaves] at h
    rw [Tree.masked, render, render, renderAll_masked view style args h]
    cases view.renderAll style args with
    | error e => rfl
    | ok parts => exact op.connect_masked parts
  | .sort expr direction, h => by
    rw [Tree.leaves] at h
    rw [Tree.masked, render, render, render_masked view style (expr ()) h]
    cases view.render style (expr ()) with
    | error e => rfl
    | ok sql => simp [Except.map, bind, Except.bind, pure, Except.pure]
  | .summarise args, h => by
    rw [Tree.leaves] at h
    rw [Tree.masked, render, render, renderAll_masked view style args h]
    cases view.renderAll style args with
    | error e => rfl
    | ok parts => simp [Except.map, bind, Except.bind, pure, Except.pure, Sql.masked_joined]
  | .subquery index embedding, _ => by
    have hnested : view.masked.nested index = (view.nested index).map Statement.masked := rfl
    rw [Tree.masked, render, render, hnested]
    · cases view.nested index with
      | error e => rfl
      | ok statement => simp [Except.map, bind, Except.bind, pure, Except.pure, Statement.masked]
    all_goals simp
  | .unknown className, _ | .broken fault, _ => by
    rw [Tree.masked, render, render]
    · rfl
    all_goals simp

theorem renderAll_masked (view : View) (style : Style) :
    (ts : List (Unit → Tree)) → (style = .bound ∨ ∀ v, .value v ∈ Tree.leaves.leavesAll ts → v = .null) →
      view.masked.renderAll style (Tree.maskedAll ts) = (view.renderAll style ts).map (List.map Sql.masked)
  | [], _ => by
    rw [Tree.maskedAll, renderAll, renderAll]
    rfl
  | t :: rest, h => by
    simp only [Tree.leaves.leavesAll, List.mem_append] at h
    rw [Tree.maskedAll, renderAll, renderAll,
      render_masked view style (t ()) (h.imp_right fun hnull v hv => hnull v (Or.inl hv)),
      renderAll_masked view style rest (h.imp_right fun hnull v hv => hnull v (Or.inr hv))]
    cases view.render style (t ()) with
    | error e => rfl
    | ok sql => cases view.renderAll style rest <;> rfl

end

variable (view : View)

theorem render_bound_masked (t : Tree) : view.masked.render .bound t.masked = (view.render .bound t).map Sql.masked :=
  view.render_masked .bound t (Or.inl rfl)

theorem canonicalText_masked {t : Tree} (h : ∀ v, .value v ∈ t.leaves → v = .null) :
    view.masked.canonicalText t.masked = view.canonicalText t := by
  rw [canonicalText, canonicalText, view.render_masked .inline t (Or.inr h)]
  cases view.render .inline t with
  | error e => rfl
  | ok sql => simp [Except.map, bind, Except.bind, pure, Except.pure]

/-! ## Values -/

theorem leafValues_masked (leaf : Leaf) :
    view.masked.leafValues leaf.masked = (view.leafValues leaf).map (List.map Value.masked) := by
  cases leaf with
  | value v => cases v <;> rfl
  | subquery i =>
    have hnested : view.masked.nested i = (view.nested i).map Statement.masked := rfl
    rw [Leaf.masked, leafValues, leafValues, hnested]
    · cases view.nested i <;> rfl
    · simp
  | field | unknown | broken => rfl

theorem collect_masked (leaves : List Leaf) :
    view.masked.collect (leaves.map Leaf.masked) = (view.collect leaves).map (List.map Value.masked) := by
  induction leaves with
  | nil => rfl
  | cons leaf rest ih =>
    rw [List.map_cons, collect, collect, leafValues_masked, ih]
    cases view.leafValues leaf with
    | error e => rfl
    | ok found =>
      cases view.collect rest with
      | error e => rfl
      | ok more => simp [Except.map, bind, Except.bind, pure, Except.pure]

theorem anyValues_masked (leaves : List Leaf) : view.masked.anyValues (leaves.map Leaf.masked) = view.anyValues leaves := by
  induction leaves with
  | nil => rfl
  | cons leaf rest ih =>
    rw [List.map_cons, anyValues, anyValues, leafValues_masked, ih]
    cases view.leafValues leaf with
    | error e => rfl
    | ok found => cases found <;> rfl

/-! ## Clauses -/

theorem selectItem_masked (q : Query) (ref : NodeRef) :
    view.masked.selectItem q.masked ref = (view.selectItem q ref).map Sql.masked := by
  have hname : (q.masked.node? ref).bind (·.aliasName.filter (!·.isEmpty)) =
      (q.node? ref).bind (·.aliasName.filter (!·.isEmpty)) := by
    rw [Query.masked_eq, Query.node?, Query.node?, Query.locate?_mapExprs]
    cases locate? q.nodes ref <;> rfl
  rw [selectItem, selectItem, Query.tree_masked, render_bound_masked, hname]
  cases view.render .bound (q.tree ref) with
  | error e => rfl
  | ok sql =>
    cases (q.node? ref).bind (·.aliasName.filter (!·.isEmpty)) with
    | none => rfl
    | some name => simp [Except.map, bind, Except.bind, pure, Except.pure]

theorem mapM_masked {f g : NodeRef → Except CompileError Sql} (h : ∀ ref, f ref = (g ref).map Sql.masked)
    (refs : List NodeRef) : refs.mapM f = (refs.mapM g).map (List.map Sql.masked) := by
  induction refs with
  | nil => rfl
  | cons ref rest ih =>
    rw [List.mapM_cons, List.mapM_cons, h, ih]
    cases g ref with
    | error e => rfl
    | ok sql => cases rest.mapM g <;> rfl

theorem selectClause_masked (q : Query) : view.masked.selectClause q.masked = (view.selectClause q).map Sql.masked := by
  have hselect : q.masked.select = q.select := by
    rw [Query.masked_eq]
    rfl
  rw [selectClause, selectClause, hselect]
  cases q.select with
  | nil => rfl
  | cons ref rest =>
    dsimp only
    rw [mapM_masked (view.selectItem_masked q)]
    cases (ref :: rest).mapM (view.selectItem q) with
    | error e => rfl
    | ok items => simp [Except.map, bind, Except.bind, pure, Except.pure, Sql.masked_joined]

theorem whereClause_masked (q : Query) :
    view.masked.whereClause q.masked = (view.whereClause q).map (Option.map Sql.masked) := by
  have hhead : q.masked.head = q.head := by
    rw [Query.masked_eq]
    rfl
  rw [whereClause, whereClause, hhead]
  cases q.head with
  | none => rfl
  | some root =>
    dsimp only
    rw [Query.tree_masked, render_bound_masked]
    cases view.render .bound (q.tree root) with
    | error e => rfl
    | ok sql => cases hblank : sql.isBlank <;> simp [Except.map, bind, Except.bind, pure, Except.pure, hblank]

theorem havingClause_masked (q : Query) :
    view.masked.havingClause q.masked = (view.havingClause q).map (Option.map Sql.masked) := by
  have hparts : q.masked.summarise = q.summarise ∧ q.masked.having = q.having := by
    rw [Query.masked_eq]
    exact ⟨rfl, rfl⟩
  rw [havingClause, havingClause, hparts.1, hparts.2]
  cases q.summarise with
  | none => rfl
  | some grouping =>
    cases q.having with
    | none => rfl
    | some root =>
      dsimp only
      rw [Query.tree_masked, render_bound_masked]
      cases view.render .bound (q.tree root) with
      | error e => rfl
      | ok sql => simp [Except.map, bind, Except.bind, pure, Except.pure]

theorem isSimple_masked (t : Tree) : isSimple t.masked = isSimple t := by
  rw [isSimple, isSimple, Tree.isSimple_masked]

theorem aliasOf?_masked (table : AliasTable) {t : Tree} (h : ∀ v, .value v ∈ t.leaves → v = .null) :
    view.masked.aliasOf? table t.masked = view.aliasOf? table t := by
  rw [aliasOf?, aliasOf?, canonicalText_masked view h]

theorem renderAliased_masked (config : Config) (table : AliasTable) {t : Tree}
    (h : ∀ v, .value v ∈ t.leaves → v = .null) :
    view.masked.renderAliased config table t.masked = (view.renderAliased config table t).map (Prod.map Sql.masked id) := by
  rw [renderAliased, renderAliased, aliasOf?_masked view table h]
  cases view.aliasOf? table t with
  | error e => rfl
  | ok known =>
    cases known with
    | some name => rfl
    | none =>
      have hfresh : view.masked.freshAlias config table t.masked = view.freshAlias config table t := by
        rw [freshAlias, freshAlias, canonicalText_masked view h]
      simp only [bind, Except.bind, hfresh]
      cases view.freshAlias config table t with
      | error e => rfl
      | ok entry =>
        dsimp only
        rw [render_bound_masked]
        cases view.render .bound t with
        | error e => rfl
        | ok sql => simp [Except.map, pure, Except.pure]

/-- An argument of the grouping has the same alias in a masked query if it is simple or has no literals. -/
theorem groupItem_masked (config : Config) (table : AliasTable) {t : Tree} (h : t.Plain) :
    view.masked.groupItem config table t.masked = (view.groupItem config table t).map (Prod.map Sql.masked id) := by
  have hplain : (do let sql ← view.masked.render .bound t.masked; return (sql, table)) =
      (do let sql ← view.render .bound t; return (sql, table) : Except CompileError _).map (Prod.map Sql.masked id) := by
    rw [render_bound_masked]
    cases view.render .bound t <;> rfl
  rw [groupItem, groupItem, isSimple_masked]
  rcases h with hsimple | hnull
  · have hsimple : isSimple t = .ok true := by rw [isSimple, hsimple]; rfl
    rw [hsimple]
    exact hplain
  · cases isSimple t with
    | error e => rfl
    | ok simple =>
      cases simple with
      | true => exact hplain
      | false =>
        -- only here is the canonical text compared, and it would show a literal other than null
        have haliased := view.renderAliased_masked config table hnull
        simp only [bind, Except.bind, aliasOf?_masked view table hnull]
        cases view.aliasOf? table t with
        | error e => rfl
        | ok known =>
          cases known with
          | none => exact haliased
          | some name =>
            simp only [Tree.leaves_masked, anyValues_masked]
            cases view.anyValues t.leaves with
            | error e => rfl
            | ok valued =>
              cases valued with
              | true => exact hplain
              | false => exact haliased

theorem groupItems_masked (config : Config) (q : Query) {refs : List NodeRef}
    (h : ∀ ref ∈ refs, (q.tree ref).Plain) (table : AliasTable) :
    view.masked.groupItems config q.masked table refs =
      (view.groupItems config q table refs).map (Prod.map (List.map Sql.masked) id) := by
  induction refs generalizing table with
  | nil => rfl
  | cons ref rest ih =>
    obtain ⟨hfirst, hrest⟩ := List.forall_mem_cons.mp h
    rw [groupItems, groupItems, Query.tree_masked, groupItem_masked view config table hfirst]
    cases view.groupItem config table (q.tree ref) with
    | error e => rfl
    | ok item =>
      simp only [Except.map, bind, Except.bind, Prod.map, id]
      rw [ih hrest]
      cases view.groupItems config q item.2 rest <;> rfl

theorem groupByClause_masked (config : Config) {q : Query} (h : q.PlainArgs) :
    view.masked.groupByClause config q.masked =
      (view.groupByClause config q).map (Prod.map (Option.map Sql.masked) id) := by
  rw [groupByClause, groupByClause, Query.groupArgs_masked]
  cases hargs : q.groupArgs with
  | error e => rfl
  | ok args =>
    simp only [bind, Except.bind]
    split
    · rfl
    · rw [groupItems_masked view config q (h args hargs)]
      cases view.groupItems config q {} args with
      | error e => rfl
      | ok found => simp [Except.map, pure, Except.pure, Sql.masked_joined]

/-- An alias is only looked up for terms without values. -/
theorem orderItem_masked (table : AliasTable) (t : Tree) :
    view.masked.orderItem table t.masked = (view.orderItem table t).map Sql.masked := by
  have hplain := view.render_bound_masked t
  cases t with
  | sort expr direction =>
    rw [Tree.masked] at hplain ⊢
    rw [orderItem, orderItem, isSimple_masked]
    cases isSimple (expr ()) with
    | error e => rfl
    | ok simple =>
      cases simple with
      | true => exact hplain
      | false =>
        simp only [bind, Except.bind, Tree.leaves_masked, anyValues_masked]
        cases hvalued : view.anyValues (expr ()).leaves with
        | error e => rfl
        | ok valued =>
          cases valued with
          | true => exact hplain
          | false =>
            have hnull : ∀ v, .value v ∈ (expr ()).leaves → v = .null := fun _ hv => null_of_not_anyValues hvalued hv
            simp only [aliasOf?_masked view table hnull]
            cases view.aliasOf? table (expr ()) with
            | error e => rfl
            | ok known =>
              cases known with
              | none => exact hplain
              | some name => rfl
  | _ =>
    simp only [Tree.masked] at hplain ⊢
    exact hplain

theorem orderByClause_masked (q : Query) (table : AliasTable) :
    view.masked.orderByClause q.masked table = (view.orderByClause q table).map (Option.map Sql.masked) := by
  have hparts : q.masked.simpleAggregate = q.simpleAggregate ∧ q.masked.ordered = q.ordered ∧ q.masked.order = q.order := by
    rw [Query.masked_eq]
    exact ⟨rfl, rfl, rfl⟩
  have hitem : ∀ ref, view.masked.orderItem table (q.masked.tree ref) =
      (view.orderItem table (q.tree ref)).map Sql.masked := by
    intro ref
    rw [Query.tree_masked, orderItem_masked]
  rw [orderByClause, orderByClause, hparts.1, hparts.2.1, hparts.2.2]
  split
  · rfl
  · rw [mapM_masked hitem]
    cases q.order.mapM fun ref => view.orderItem table (q.tree ref) with
    | error e => rfl
    | ok items => simp [Except.map, bind, Except.bind, pure, Except.pure, Sql.masked_joined]

theorem filterMap_masked (clauses : List (Option Sql)) :
    (clauses.map (Option.map Sql.masked)).filterMap id = (clauses.filterMap id).map Sql.masked := by
  rw [List.filterMap_map, List.map_filterMap]
  rfl

theorem clauses_masked (config : Config) {q : Query} (h : q.PlainArgs) :
    view.masked.clauses config q.masked = (view.clauses config q).map (Prod.map (List.map Sql.masked) id) := by
  have hparts : q.masked.limit? config.countOption = q.limit? config.countOption ∧ q.masked.tables = q.tables := by
    rw [Query.masked_eq]
    exact ⟨rfl, rfl⟩
  rw [clauses, clauses, selectClause_masked, whereClause_masked, groupByClause_masked view config h,
    havingClause_masked, hparts.1, hparts.2]
  cases view.selectClause q with
  | error e => rfl
  | ok selecting =>
    cases view.whereClause q with
    | error e => rfl
    | ok filter =>
      cases view.groupByClause config q with
      | error e => rfl
      | ok grouped =>
        cases view.havingClause q with
        | error e => rfl
        | ok having =>
          simp only [Except.map, bind, Except.bind, Prod.map, id, orderByClause_masked]
          cases view.orderByClause q grouped.2 with
          | error e => rfl
          | ok ordering =>
            have hlimit : ((q.limit? config.countOption).map Sql.plain).map Sql.masked =
                (q.limit? config.countOption).map Sql.plain := by
              cases q.limit? config.countOption <;> rfl
            have hshown := filterMap_masked
              [filter, grouped.1, having, ordering, (q.limit? config.countOption).map Sql.plain]
            simp only [List.map_cons, List.map_nil, hlimit] at hshown
            exact congrArg (fun more =>
              Except.ok (selecting.masked :: Sql.plain ("FROM " ++ q.tables.text) :: more, grouped.2)) hshown

end View

/-! ## One level -/

theorem Query.derived_masked (q : Query) (sql : Sql) : q.masked.derived (Sql.masked sql) = Sql.masked (q.derived sql) := by
  rw [masked_eq]
  change q.derived (Sql.masked sql) = Sql.masked (q.derived sql)
  rw [derived, derived]
  split <;> simp

theorem Query.PlainArgs.resolved {context : Context} {q : Query} (h : q.PlainArgs) : (q.resolved context).PlainArgs := by
  intro args hargs arg harg
  rw [Tree.Plain, isSimple_resolved, leaves_resolved]
  exact h args (groupArgs_resolved_eq_ok_iff.mp hargs) arg harg

namespace Scope

variable {scope : Scope} {q : Query}

/-- The nested queries of the masked query have masked statements. -/
def MasksNested (scope : Scope) (q : Query) : Prop :=
  ∀ i, scope.nestedAt q.masked i = (scope.nestedAt q i).map Statement.masked

theorem MasksNested.view (h : scope.MasksNested q) : scope.view q.masked = (scope.view q).masked := by
  have htables : q.masked.tables = q.tables := by
    rw [Query.masked_eq]
    rfl
  rw [Scope.view, Scope.view, htables, funext h]
  rfl

theorem masksNested
    (h : ∀ (i : Nat) query embedding, q.expr? (.index i) = some (.subquery query embedding) →
      (scope.nested (query.masked.embedded embedding) 0).result =
        (scope.nested (query.embedded embedding) 0).result.map Statement.masked) : scope.MasksNested q := by
  intro i
  have hlength : q.masked.nodes.length = q.nodes.length := by
    rw [Query.masked_eq, Query.length_mapExprs]
  rw [nestedAt, nestedAt, Query.expr?_masked, hlength]
  cases hexpr : q.expr? (.index i) with
  | none => rfl
  | some expr =>
    cases expr with
    | subquery query embedding => exact h i query embedding hexpr
    | _ => rfl

theorem MasksNested.settleIndex (h : scope.MasksNested q) : scope.MasksNested q.settleIndex.1 := by
  intro i
  have hmasked := (scope.leaves_settleIndex q.settleIndex_masked).2
  have hsettled : scope.nestedAt q.settleIndex.1 = scope.nestedAt q := (scope.leaves_settleIndex rfl).2
  rw [hmasked, hsettled]
  exact h i

theorem MasksNested.resolveTrees (h : scope.MasksNested q) (schema : Schema) (type : JoinType) (roots : List NodeRef) :
    scope.MasksNested (q.resolveTrees schema type roots).1 := by
  intro i
  have hmasked := nestedAt_resolveTrees scope schema type roots q.masked
  rw [Query.resolveTrees_masked] at hmasked
  rw [hmasked, nestedAt_resolveTrees]
  exact h i

/-- Passes over a masked query collect masked values. -/
theorem gather_masked (h : scope.MasksNested q) (parts : List (List NodeRef)) (done done' : Nat → Bool) :
    (scope.gather parts done' q.masked).query = (scope.gather parts done q).query.masked ∧
      (scope.gather parts done' q.masked).values = (scope.gather parts done q).values.map (List.map Value.masked) := by
  induction parts generalizing q done done' with
  | nil => exact ⟨rfl, rfl⟩
  | cons roots rest ih =>
    have hnested := h.resolveTrees scope.schema scope.config.joinType roots
    rw [gather, gather, Query.resolveTrees_masked]
    cases hresolve : q.resolveTrees scope.schema scope.config.joinType roots with
    | mk q' fault =>
      rw [hresolve] at hnested
      cases fault with
      | some e => exact ⟨rfl, rfl⟩
      | none =>
        dsimp only
        rw [hnested.view, Query.leaves_masked, View.collect_masked]
        cases (scope.view q').collect (q'.leaves roots) with
        | error e => exact ⟨rfl, rfl⟩
        | ok found =>
          obtain ⟨hquery, hvalues⟩ := ih hnested
            (fun i => done i || ((scope.view q').met (q'.leaves roots)).contains i)
            (fun i => done' i || ((scope.view q').masked.met ((q'.leaves roots).map Leaf.masked)).contains i)
          refine ⟨hquery, ?_⟩
          simp only [Except.map, hvalues]
          cases (scope.gather rest _ q').values <;> simp

/-- The masked query has the masked statement, or fails in the same way. -/
theorem outline_masked (h : scope.MasksNested q) (hplain : q.PlainArgs) :
    (scope.outline q.masked).2 = (scope.outline q).2.map Statement.masked := by
  have hsettled := h.settleIndex
  rw [outline, outline, Query.settleIndex_masked]
  cases hsettle : q.settleIndex with
  | mk q₁ fault =>
    rw [hsettle] at hsettled
    cases fault with
    | some e => rfl
    | none =>
      have hparts : q₁.masked.parts = q₁.parts := by
        rw [Query.masked_eq]
        rfl
      obtain ⟨hquery, hvalues⟩ := gather_masked hsettled q₁.parts (fun _ => false) (fun _ => false)
      dsimp only
      rw [hparts, hquery, hvalues]
      cases hfound : (scope.gather q₁.parts (fun _ => false) q₁).values with
      | error e => rfl
      | ok values =>
        have hresolved : (scope.gather q₁.parts (fun _ => false) q₁).query = q.resolved scope.toContext := by
          rw [Query.resolved, hsettle, Query.resolveTrees_eq]
          exact (congrArg Prod.fst (gather_of_ok hfound).1).symm
        have hview : scope.view (q.resolved scope.toContext).masked = (scope.view (q.resolved scope.toContext)).masked :=
          (h.settleIndex.resolveTrees _ _ _).view
        rw [hresolved, hview, View.clauses_masked _ _ hplain.resolved]
        cases (scope.view (q.resolved scope.toContext)).clauses scope.config (q.resolved scope.toContext) with
        | error e => rfl
        | ok found =>
          simp only [Except.map, bind, Except.bind, pure, Except.pure, Prod.map, ← Sql.masked_joined,
            Query.derived_masked]
          rfl

end Scope

/-! ## All levels -/

/-- The arguments of the grouping are plain, in the query and in all queries nested in it. -/
inductive Query.PlainGroups : Query → Prop where
  | intro {q : Query} (args : q.PlainArgs)
    (nested : ∀ (i : Nat) query embedding, q.expr? (.index i) = some (.subquery query embedding) → query.PlainGroups) :
    q.PlainGroups

theorem Query.masked_embedded (q : Query) (embedding : Embedding) :
    (q.embedded embedding).masked = q.masked.embedded embedding := by
  rw [masked_eq, masked_eq]
  rfl

theorem Query.PlainGroups.embedded {q : Query} (h : q.PlainGroups) (embedding : Embedding) :
    (q.embedded embedding).PlainGroups := by
  cases h with
  | intro args nested => exact .intro args nested

theorem Context.outline_masked {context : Context} (hd : context.dialect.Stateless) {depth : Nat} {q : Query}
    (h : q.PlainGroups) :
    ((context.scope depth).outline q.masked).2 = ((context.scope depth).outline q).2.map Statement.masked := by
  induction depth generalizing q with
  | zero =>
    cases h with
    | intro args nested => exact Scope.outline_masked (Scope.masksNested fun _ _ _ _ => rfl) args
  | succ depth ih =>
    cases h with
    | intro args nested =>
      refine Scope.outline_masked (Scope.masksNested fun i query embedding hexpr => ?_) args
      rw [(nested_scope_succ hd depth _).2, (nested_scope_succ hd depth _).2, ← Query.masked_embedded]
      exact ih ((nested i query embedding hexpr).embedded embedding)

theorem Query.compile_masked {context : Context} (hd : context.dialect.Stateless) {q : Query} (h : q.PlainGroups) :
    (q.masked.compile context).result = (q.compile context).result.map Statement.masked := by
  rw [(compile_eq_outline hd q).2, (compile_eq_outline hd q.masked).2, nesting_masked]
  exact Context.outline_masked hd h

/-- Queries that differ in the values of literals at most, with plain arguments in all groupings, fail with the same
error, or have statements with one text and with values that correspond: they are the literals at the same addresses
in the one query and in the other. -/
theorem Query.compile_noninterference {context : Context} {q q' : Query} (hd : context.dialect.Stateless)
    (hsame : q.masked = q'.masked) (hplain : q.PlainGroups) (hplain' : q'.PlainGroups) :
    (∃ e, (q.compile context).result = .error e ∧ (q'.compile context).result = .error e) ∨
      ∃ statement statement', (q.compile context).result = .ok statement ∧ (q'.compile context).result = .ok statement' ∧
        statement.text = statement'.text ∧ statement.values.length = statement'.values.length ∧
        statement.values.map some = q.literals.map q.literalAt ∧
        statement'.values.map some = q.literals.map q'.literalAt := by
  have hmasked := compile_masked hd hplain
  rw [hsame, compile_masked hd hplain'] at hmasked
  cases hresult : (q.compile context).result with
  | error e =>
    rw [hresult] at hmasked
    cases hresult' : (q'.compile context).result with
    | error e' =>
      rw [hresult'] at hmasked
      cases hmasked
      exact Or.inl ⟨e, rfl, rfl⟩
    | ok statement' => rw [hresult'] at hmasked; cases hmasked
  | ok statement =>
    rw [hresult] at hmasked
    cases hresult' : (q'.compile context).result with
    | error e' => rw [hresult'] at hmasked; cases hmasked
    | ok statement' =>
      rw [hresult'] at hmasked
      have hstatements : statement'.masked = statement.masked := Except.ok.inj hmasked
      have htext : statement.text = statement'.text := by
        rw [← statement.text_masked, ← statement'.text_masked, hstatements]
      have hlength := congrArg (fun s : Statement => s.values.length) hstatements
      simp only [Statement.masked, List.length_map] at hlength
      have hvalues := Context.values_eq_literals hd ((compile_eq_outline hd q).2.symm.trans hresult)
      have hvalues' := Context.values_eq_literals hd ((compile_eq_outline hd q').2.symm.trans hresult')
      -- the addresses do not depend on the values, so the second query has those of the first
      rw [← literals_masked, ← hsame, literals_masked] at hvalues'
      exact Or.inr ⟨statement, statement', rfl, rfl, htext, hlength.symm, hvalues, hvalues'⟩

/-- Regions with an order of a least total and with a customer of a given name. -/
def Query.regions (least name : Value) : Query where
  nodes :=
    [{ expr := .field { name := .text "region" } }, { expr := .func "LOWER" [.index 0] },
     { expr := .value least }, { expr := .summarise [.index 1, .index 2] },
     { expr := .field { name := .text "total" } }, { expr := .cmp .ge (.index 4) (.index 2) },
     { expr := .subquery (customers name) .presence }, { expr := .cond .conj [.index 5, .index 6] }]
  select := [.index 0]
  head := some (.index 7)
  summarise := some (.index 3)
  tables := { table := "orders" }
where
  customers (name : Value) : Query :=
    { nodes :=
        [{ expr := .field { name := .text "name" } }, { expr := .value name }, { expr := .cmp .eq (.index 0) (.index 1) }]
      head := some (.index 2)
      tables := { table := "customers" } }

def Context.regions : Context where
  dialect := .postgres
  schema :=
    { tables := [{ name := "orders", columns := [{ name := "region" }, { name := "total" }] },
                 { name := "customers", columns := [{ name := "name" }] }] }
  config := {}

theorem Query.plainGroups_regions (least name : Value) : (regions least name).PlainGroups := by
  have hcustomers : (regions.customers name).PlainGroups := by
    refine .intro (fun args hargs arg harg => ?_) fun i query embedding hexpr => ?_
    · cases hargs
      cases harg
    · obtain ⟨j, node, hlocate, hnode⟩ := expr?_eq_some_iff.mp hexpr
      have hmem := List.mem_of_getElem? (locate?_eq_some_iff.mp hlocate).2
      simp only [regions.customers, List.mem_cons, List.not_mem_nil, or_false] at hmem
      rcases hmem with rfl | rfl | rfl <;> cases hnode
  refine .intro (fun args hargs arg harg => ?_) fun i query embedding hexpr => ?_
  · cases hargs
    rcases List.mem_cons.mp harg with rfl | harg
    · refine Or.inr fun v hv => ?_
      cases hv with
      | tail _ hv => cases hv
    · rw [List.mem_singleton.mp harg]
      exact Or.inl rfl
  · obtain ⟨j, node, hlocate, hnode⟩ := expr?_eq_some_iff.mp hexpr
    have hmem := List.mem_of_getElem? (locate?_eq_some_iff.mp hlocate).2
    simp only [regions, List.mem_cons, List.not_mem_nil, or_false] at hmem
    rcases hmem with rfl | rfl | rfl | rfl | rfl | rfl | rfl | rfl <;> cases hnode
    exact hcustomers

theorem Query.compile_noninterference_regions :
    ∃ statement statement', ((regions (.int 10) (.str "Ada")).compile .regions).result = .ok statement ∧
      ((regions (.str "1 OR 1 = 1") (.str "'; DROP TABLE orders; --")).compile .regions).result = .ok statement' ∧
      statement.text = "SELECT region FROM orders WHERE (total >= %s) AND (EXISTS (SELECT * FROM customers " ++
        "WHERE name = %s)) GROUP BY LOWER(region) AS LOWER_region_alias, %s" ∧
      statement'.text = statement.text ∧ statement.values = [.int 10, .str "Ada", .int 10] ∧
      statement'.values.length = 3 := by
  have heval : ((regions (.int 10) (.str "Ada")).compile .regions).result.toOption.map (fun s => (s.text, s.values)) =
      some ("SELECT region FROM orders WHERE (total >= %s) AND (EXISTS (SELECT * FROM customers " ++
        "WHERE name = %s)) GROUP BY LOWER(region) AS LOWER_region_alias, %s", [.int 10, .str "Ada", .int 10]) := by
    decide +kernel
  obtain ⟨e, he, -⟩ | ⟨statement, statement', hresult, hresult', htext, hlength, -, -⟩ :=
    compile_noninterference (show Context.regions.dialect.Stateless from fun _ => rfl)
      (show (regions (.int 10) (.str "Ada")).masked = (regions (.str "1 OR 1 = 1") (.str "'; DROP TABLE orders; --")).masked
        from rfl) (plainGroups_regions _ _) (plainGroups_regions _ _)
  · rw [he] at heval
    cases heval
  · rw [hresult] at heval
    obtain ⟨hshown, hvalues⟩ := Prod.mk.inj (Option.some.inj heval)
    exact ⟨statement, statement', hresult, hresult', hshown, htext.symm, hvalues, by rw [← hlength, hvalues]; rfl⟩

end ArenaSql
