import ArenaSql.Proofs.Harvest

/-!
# Drafting clauses

Clauses only read the query of a draft, and the grouping gives aliases. So each clause is the one that the view
of the query gives, and the alias table goes from one clause to the next.
-/

namespace ArenaSql

namespace Scope

variable {scope : Scope} {q : Query} {known : Nat → Prop} {α β : Type}

/-! ## Work that gives aliases -/

/-- From the draft the work ends with the answer, counts placeholders, and leaves the alias table that comes with
the answer. -/
def NamesFrom (work : DraftM α) (answer : Except CompileError (α × AliasTable)) (d : Draft) : Prop :=
  ∃ n table, work.run d = (answer.map (·.1), { d with requested := n, aliases := table }) ∧
    ∀ a t, answer = .ok (a, t) → table = t

variable {work : DraftM α} {next : α → DraftM β} {d : Draft}

theorem NamesFrom.pure (a : α) (d : Draft) : NamesFrom (pure a) (.ok (a, d.aliases)) d :=
  ⟨d.requested, d.aliases, rfl, fun _ _ h => by cases h; rfl⟩

/-- Work that gives no aliases hands the table on. -/
theorem YieldsFrom.names {answer : Except CompileError α} (h : YieldsFrom work answer d) :
    NamesFrom work (answer.map (·, d.aliases)) d := by
  obtain ⟨n, hrun⟩ := h
  cases answer with
  | error e => exact ⟨n, d.aliases, hrun, fun _ _ h => by cases h⟩
  | ok a => exact ⟨n, d.aliases, hrun, fun _ _ h => by cases h; rfl⟩

theorem NamesFrom.bind {answer : Except CompileError (α × AliasTable)}
    {after : α × AliasTable → Except CompileError (β × AliasTable)} (h : NamesFrom work answer d)
    (hnext : ∀ a n table, answer = .ok (a, table) →
      NamesFrom (next a) (after (a, table)) { d with requested := n, aliases := table }) :
    NamesFrom (work >>= next) (answer >>= after) d := by
  obtain ⟨n, table, hrun, htable⟩ := h
  rw [NamesFrom, DraftM.run_bind, hrun]
  cases answer with
  | error e => exact ⟨n, table, rfl, fun _ _ h => by cases h⟩
  | ok found =>
    obtain ⟨a, t⟩ := found
    rw [htable a t rfl]
    obtain ⟨m, table', hrun', htable'⟩ := hnext a n t rfl
    exact ⟨m, table', hrun', htable'⟩

/-- After work that gives no aliases the table is still the same. -/
theorem YieldsFrom.bind_names {answer : Except CompileError α}
    {after : α → Except CompileError (β × AliasTable)} (h : YieldsFrom work answer d)
    (hnext : ∀ a n, answer = .ok a → NamesFrom (next a) (after a) { d with requested := n }) :
    NamesFrom (work >>= next) (answer >>= after) d := by
  obtain ⟨n, hrun⟩ := h
  rw [NamesFrom, DraftM.run_bind, hrun]
  cases answer with
  | error e => exact ⟨n, d.aliases, rfl, fun _ _ h => by cases h⟩
  | ok a =>
    obtain ⟨m, table, hrun', htable⟩ := hnext a n rfl
    exact ⟨m, table, hrun', htable⟩

theorem YieldsFrom.ok_bind_names {a : α} {answer : Except CompileError (β × AliasTable)}
    (h : YieldsFrom work (.ok a) d) (hnext : ∀ n, NamesFrom (next a) answer { d with requested := n }) :
    NamesFrom (work >>= next) answer d := by
  have hbind : NamesFrom (work >>= next) (Except.ok a >>= fun _ => answer) d :=
    h.bind_names fun _ n h => by cases h; exact hnext n
  exact hbind

/-! ## Aliases -/

theorem Yields.isSimple (t : Tree) : scope.Yields q known (Scope.isSimple t) (View.isSimple t) := by
  rw [Scope.isSimple, View.isSimple]
  cases t.isSimple with
  | ok b => exact .pure b
  | error fault => exact .throw _

theorem Yields.canonicalText (hd : scope.dialect.Stateless) (t : Tree) (h : ∀ i, .subquery i ∈ t.leaves → known i) :
    scope.Yields q known (scope.canonicalText t) ((scope.view q).canonicalText t) :=
  (Yields.render hd .inline t h).bind fun _ _ => .pure _

theorem YieldsFrom.aliasOf? (hd : scope.dialect.Stateless) (t : Tree) (h : ∀ i, .subquery i ∈ t.leaves → known i)
    (hready : d.Ready scope q known) :
    YieldsFrom (scope.aliasOf? t) ((scope.view q).aliasOf? d.aliases t) d := by
  rw [Scope.aliasOf?, View.aliasOf?]
  exact (Yields.canonicalText hd t h d hready).bind fun _ n _ => .get (.pure _ _)

theorem NamesFrom.freshAlias (hd : scope.dialect.Stateless) (t : Tree) (h : ∀ i, .subquery i ∈ t.leaves → known i)
    (hready : d.Ready scope q known) :
    NamesFrom (scope.freshAlias t) ((scope.view q).freshAlias scope.config d.aliases t) d := by
  rw [Scope.freshAlias, View.freshAlias]
  refine (Yields.canonicalText hd t h d hready).bind_names fun text n _ => ?_
  rw [NamesFrom, DraftM.run_bind, DraftM.run_get]
  dsimp only
  cases d.aliases.assign scope.config text with
  | error e => exact ⟨n, d.aliases, rfl, fun _ _ h => by cases h⟩
  | ok found => exact ⟨n, found.2, rfl, fun _ _ h => by cases h; rfl⟩

/-- An expression that is not simple is rendered as its alias or with a fresh one. -/
theorem NamesFrom.renderAliased (hd : scope.dialect.Stateless) (t : Tree)
    (h : ∀ i, .subquery i ∈ t.leaves → known i) (hsimple : t.isSimple = .ok false)
    (hready : d.Ready scope q known) :
    NamesFrom (scope.renderAliased t) ((scope.view q).renderAliased scope.config d.aliases t) d := by
  rw [Scope.renderAliased, Scope.isSimple, hsimple, View.renderAliased]
  refine YieldsFrom.bind_names (.aliasOf? hd t h hready) fun found n _ => ?_
  cases found with
  | some name => exact .pure _ _
  | none =>
    refine NamesFrom.bind (.freshAlias hd t h ⟨hready.1, hready.2⟩) fun name m table _ => ?_
    refine YieldsFrom.bind_names (Yields.render hd .bound t h _ ⟨hready.1, hready.2⟩) fun _ _ _ => ?_
    exact .pure _ _

/-! ## Clauses -/

theorem run_tree_bind {ref : NodeRef} {next : Tree → DraftM α} (hready : d.Ready scope q known) :
    (DraftM.tree ref >>= next).run d = (next (q.tree ref)).run d := by
  obtain ⟨done, hquery⟩ := hready.query_eq
  have htree : d.query.tree ref = q.tree ref := by rw [hquery, tree_overlay]
  rw [← htree]
  rfl

/-- Work on the expression that a reference leads to. -/
theorem Yields.tree_bind {ref : NodeRef} {next : Tree → DraftM α} {answer : Except CompileError α}
    (h : scope.Yields q known (next (q.tree ref)) answer) :
    scope.Yields q known (DraftM.tree ref >>= next) answer := by
  intro d hready
  rw [YieldsFrom, run_tree_bind hready]
  exact h d hready

/-- What the work reads off the query of the draft is the same in every overlay. -/
theorem Yields.get {next : Draft → DraftM α} {answer : Except CompileError α}
    (h : ∀ d done, d.query = scope.overlay done q → scope.Yields q known (next d) answer) :
    scope.Yields q known (get >>= next) answer := by
  intro d hready
  obtain ⟨done, hquery⟩ := hready.query_eq
  exact .get (h d done hquery d hready)

theorem Yields.selectItem (hd : scope.dialect.Stateless) (ref : NodeRef)
    (h : ∀ i, .subquery i ∈ (q.tree ref).leaves → known i) :
    scope.Yields q known (scope.selectItem ref) ((scope.view q).selectItem q ref) := by
  rw [Scope.selectItem, View.selectItem]
  refine Yields.tree_bind ((Yields.render hd .bound _ h).bind fun sql _ => ?_)
  refine Yields.get fun d done hquery => ?_
  rw [hquery, aliasName_overlay]
  cases (q.node? ref).bind (·.aliasName.filter (!·.isEmpty)) with
  | some name => exact .pure _
  | none => exact .pure _

theorem Yields.selectItems (hd : scope.dialect.Stateless) (refs : List NodeRef)
    (h : ∀ ref ∈ refs, ∀ i, .subquery i ∈ (q.tree ref).leaves → known i) :
    scope.Yields q known (scope.selectItems refs) (refs.mapM ((scope.view q).selectItem q)) := by
  induction refs with
  | nil => exact .pure _
  | cons ref rest ih =>
    rw [Scope.selectItems, List.mapM_cons]
    refine (Yields.selectItem hd ref (h ref List.mem_cons_self)).bind fun _ _ => ?_
    exact (ih fun r hr => h r (List.mem_cons_of_mem _ hr)).bind fun _ _ => .pure _

theorem Yields.selectClause (hd : scope.dialect.Stateless)
    (h : ∀ ref ∈ q.select, ∀ i, .subquery i ∈ (q.tree ref).leaves → known i) :
    scope.Yields q known scope.selectClause ((scope.view q).selectClause q) := by
  rw [Scope.selectClause, View.selectClause]
  refine Yields.get fun d done hquery => ?_
  have hitems := Yields.selectItems hd q.select h
  rw [hquery, overlay_select]
  cases hselect : q.select with
  | nil => exact .pure _
  | cons ref rest =>
    rw [hselect] at hitems
    exact hitems.bind fun _ _ => .pure _

theorem Yields.fromClause :
    scope.Yields q known Scope.fromClause (.ok (Sql.plain ("FROM " ++ q.tables.text))) := by
  refine Yields.get fun d done hquery => ?_
  rw [hquery, overlay_tables]
  exact .pure _

theorem Yields.whereClause (hd : scope.dialect.Stateless)
    (h : ∀ ref ∈ q.head, ∀ i, .subquery i ∈ (q.tree ref).leaves → known i) :
    scope.Yields q known scope.whereClause ((scope.view q).whereClause q) := by
  rw [Scope.whereClause, View.whereClause]
  refine Yields.get fun d done hquery => ?_
  rw [hquery, overlay_head]
  cases hhead : q.head with
  | none => exact .pure _
  | some root =>
    refine Yields.tree_bind ((Yields.render hd .bound _ (h root hhead)).bind fun sql _ => ?_)
    cases sql.isBlank with
    | true => exact .pure _
    | false => exact .pure _

theorem Yields.havingClause (hd : scope.dialect.Stateless)
    (h : ∀ ref ∈ Scope.shownHaving q, ∀ i, .subquery i ∈ (q.tree ref).leaves → known i) :
    scope.Yields q known scope.havingClause ((scope.view q).havingClause q) := by
  rw [Scope.havingClause, View.havingClause]
  refine Yields.get fun d done hquery => ?_
  dsimp only
  rw [hquery, overlay_summarise, overlay_having]
  rw [Scope.shownHaving] at h
  cases hsum : q.summarise with
  | none => exact .pure _
  | some root =>
    cases hhaving : q.having with
    | none => exact .pure _
    | some ref =>
      have href := h ref (by simp [hsum, hhaving])
      exact Yields.tree_bind ((Yields.render hd .bound _ href).bind fun sql _ => .pure _)

theorem Yields.limitClause :
    scope.Yields q known scope.limitClause (.ok ((q.limit? scope.config.countOption).map Sql.plain)) := by
  refine Yields.get fun d done hquery => ?_
  rw [hquery, overlay_limit?]
  exact .pure _

/-! ## GROUP BY and ORDER BY -/

theorem NamesFrom.groupItem (hd : scope.dialect.Stateless) (ref : NodeRef)
    (h : ∀ i, .subquery i ∈ (q.tree ref).leaves → known i) (hready : d.Ready scope q known) :
    NamesFrom (scope.groupItem ref) ((scope.view q).groupItem scope.config d.aliases (q.tree ref)) d := by
  rw [Scope.groupItem, View.groupItem, NamesFrom, run_tree_bind hready]
  generalize q.tree ref = t at h
  have hrender : ∀ n, NamesFrom (scope.render .bound t)
      (do let sql ← (scope.view q).render .bound t; return (sql, d.aliases)) { d with requested := n } := by
    intro n
    have hnames := YieldsFrom.names (Yields.render hd .bound t h { d with requested := n } ⟨hready.1, hready.2⟩)
    cases hsql : (scope.view q).render .bound t <;> (rw [hsql] at hnames; exact hnames)
  refine YieldsFrom.bind_names (Yields.isSimple t d hready) fun simple n hsimple => ?_
  cases simple with
  | true => exact hrender n
  | false =>
    have hsimple' : t.isSimple = .ok false := by
      rw [View.isSimple] at hsimple
      cases ht : t.isSimple with
      | error fault => rw [ht] at hsimple; cases hsimple
      | ok b => rw [ht] at hsimple; cases hsimple; rfl
    have haliased : ∀ n, NamesFrom (scope.renderAliased t)
        ((scope.view q).renderAliased scope.config d.aliases t) { d with requested := n } :=
      fun n => .renderAliased hd t h hsimple' ⟨hready.1, hready.2⟩
    refine YieldsFrom.bind_names (.aliasOf? hd t h ⟨hready.1, hready.2⟩) fun found n _ => ?_
    cases found with
    | none => exact haliased n
    | some name =>
      refine YieldsFrom.bind_names (Yields.hasValues t h _ ⟨hready.1, hready.2⟩) fun valued n _ => ?_
      cases valued with
      | true => exact hrender n
      | false => exact haliased n

theorem NamesFrom.groupItems (hd : scope.dialect.Stateless) (refs : List NodeRef)
    (h : ∀ ref ∈ refs, ∀ i, .subquery i ∈ (q.tree ref).leaves → known i) {d : Draft}
    (hready : d.Ready scope q known) :
    NamesFrom (scope.groupItems refs) ((scope.view q).groupItems scope.config q d.aliases refs) d := by
  induction refs generalizing d with
  | nil => exact .pure _ _
  | cons ref rest ih =>
    rw [Scope.groupItems, View.groupItems]
    refine NamesFrom.bind (.groupItem hd ref (h ref List.mem_cons_self) hready) fun _ n table _ => ?_
    have hrest := ih (fun r hr => h r (List.mem_cons_of_mem _ hr))
      (show { d with requested := n, aliases := table }.Ready scope q known from ⟨hready.1, hready.2⟩)
    exact hrest.bind fun _ _ _ _ => .pure _ _

@[simp] theorem groupArgs_overlay (scope : Scope) (done : Nat → Bool) (q : Query) :
    (scope.overlay done q).groupArgs = q.groupArgs := by
  rw [Query.groupArgs, Query.groupArgs, overlay_summarise, length_overlay]
  cases q.summarise with
  | none => rfl
  | some root =>
    have hexpr : q.expr? root = (locate? q.nodes root).map (·.2.expr) := by
      rw [Query.expr?, Query.node?, Option.map_map]
      rfl
    dsimp only
    rw [hexpr, overlay, Query.expr?_mapExprs]
    cases locate? q.nodes root with
    | none => rfl
    | some found =>
      obtain ⟨i, aliasName, expr, forms⟩ := found
      cases hdone : done i <;> cases expr <;> simp [hdone, leftover, Expr.className]

theorem run_groupByClause (scope : Scope) (d : Draft) :
    scope.groupByClause.run d =
      (match d.query.groupArgs with
      | .error e => throw e
      | .ok args =>
        if args.isEmpty then pure none
        else do
          let items ← scope.groupItems args
          return some (Sql.plain "GROUP BY " ++ Sql.joined ", " items) : DraftM (Option Sql)).run d := by
  rw [Scope.groupByClause, DraftM.run_bind, DraftM.run_get, Query.groupArgs]
  dsimp only
  cases d.query.summarise with
  | none => rfl
  | some root =>
    dsimp only
    cases d.query.expr? root with
    | none => rfl
    | some expr =>
      cases expr with
      | summarise args => cases args <;> rfl
      | _ => rfl

theorem NamesFrom.groupByClause (hd : scope.dialect.Stateless)
    (h : ∀ args, q.groupArgs = .ok args → ∀ ref ∈ args, ∀ i, .subquery i ∈ (q.tree ref).leaves → known i)
    (hready : d.Ready scope q known) (haliases : d.aliases = {}) :
    NamesFrom scope.groupByClause ((scope.view q).groupByClause scope.config q) d := by
  obtain ⟨done, hquery⟩ := hready.query_eq
  have hargs : d.query.groupArgs = q.groupArgs := by rw [hquery, groupArgs_overlay]
  rw [NamesFrom, run_groupByClause, View.groupByClause, hargs]
  cases hargs : q.groupArgs with
  | error e => exact ⟨d.requested, d.aliases, rfl, fun _ _ h => by cases h⟩
  | ok args =>
    have hitems := NamesFrom.groupItems hd args (h args hargs) hready
    rw [haliases] at hitems
    cases args with
    | nil => exact ⟨d.requested, d.aliases, rfl, fun _ _ h => by cases h; exact haliases⟩
    | cons ref rest => exact hitems.bind fun _ _ _ _ => .pure _ _

theorem YieldsFrom.orderItem (hd : scope.dialect.Stateless) (ref : NodeRef)
    (h : ∀ i, .subquery i ∈ (q.tree ref).leaves → known i) (hready : d.Ready scope q known) :
    YieldsFrom (scope.orderItem ref) ((scope.view q).orderItem d.aliases (q.tree ref)) d := by
  rw [YieldsFrom, Scope.orderItem, run_tree_bind hready]
  generalize q.tree ref = t at h
  cases t with
  | sort expr direction =>
    have hrender : ∀ n, YieldsFrom (scope.render .bound (.sort expr direction))
        ((scope.view q).render .bound (.sort expr direction)) { d with requested := n } :=
      fun n => Yields.render hd .bound (.sort expr direction) h _ ⟨hready.1, hready.2⟩
    rw [View.orderItem]
    refine YieldsFrom.bind (Yields.isSimple (expr ()) d hready) fun simple n _ => ?_
    cases simple with
    | true => exact hrender n
    | false =>
      refine YieldsFrom.bind (Yields.hasValues (expr ()) h _ ⟨hready.1, hready.2⟩) fun valued n _ => ?_
      cases valued with
      | true => exact hrender n
      | false =>
        refine YieldsFrom.bind (.aliasOf? hd (expr ()) h ⟨hready.1, hready.2⟩) fun found n _ => ?_
        cases found with
        | some name => exact .pure _ _
        | none => exact hrender n
  | _ => exact Yields.render hd .bound _ h d hready

theorem YieldsFrom.orderItems (hd : scope.dialect.Stateless) (refs : List NodeRef)
    (h : ∀ ref ∈ refs, ∀ i, .subquery i ∈ (q.tree ref).leaves → known i) {d : Draft}
    (hready : d.Ready scope q known) :
    YieldsFrom (scope.orderItems refs)
      (refs.mapM fun ref => (scope.view q).orderItem d.aliases (q.tree ref)) d := by
  induction refs generalizing d with
  | nil => exact .pure _ d
  | cons ref rest ih =>
    rw [Scope.orderItems, List.mapM_cons]
    refine YieldsFrom.bind (.orderItem hd ref (h ref List.mem_cons_self) hready) fun _ n _ => ?_
    have hrest := ih (fun r hr => h r (List.mem_cons_of_mem _ hr))
      (show { d with requested := n }.Ready scope q known from ⟨hready.1, hready.2⟩)
    exact hrest.bind fun _ _ _ => .pure _ _

theorem YieldsFrom.orderByClause (hd : scope.dialect.Stateless)
    (h : ∀ ref ∈ Scope.shownOrder q, ∀ i, .subquery i ∈ (q.tree ref).leaves → known i)
    (hready : d.Ready scope q known) :
    YieldsFrom scope.orderByClause ((scope.view q).orderByClause q d.aliases) d := by
  obtain ⟨done, hquery⟩ := hready.query_eq
  rw [Scope.orderByClause, View.orderByClause]
  refine YieldsFrom.get ?_
  dsimp only
  have hsimple : d.query.simpleAggregate = q.simpleAggregate := by rw [hquery, overlay_simpleAggregate]
  have hordered : d.query.ordered = q.ordered := by rw [hquery, overlay_ordered]
  have horder : d.query.order = q.order := by rw [hquery, overlay_order]
  rw [hsimple, hordered, horder]
  split
  · exact .pure _ d
  · rename_i hshown
    have hall : Scope.shownOrder q = q.order := by
      simp only [Bool.or_eq_true, not_or, Bool.not_eq_true, Bool.not_eq_false'] at hshown
      rw [Scope.shownOrder, hshown.1.1, hshown.1.2]
      rfl
    rw [hall] at h
    exact YieldsFrom.bind (.orderItems hd q.order h hready) fun _ _ _ => .pure _ _

/-! ## All clauses -/

/-- From a draft without aliases, the clauses are those that the view of the query gives. -/
theorem NamesFrom.clauses (hd : scope.dialect.Stateless)
    (hselect : ∀ ref ∈ q.select, ∀ i, .subquery i ∈ (q.tree ref).leaves → known i)
    (hhead : ∀ ref ∈ q.head, ∀ i, .subquery i ∈ (q.tree ref).leaves → known i)
    (hgroup : ∀ args, q.groupArgs = .ok args → ∀ ref ∈ args, ∀ i, .subquery i ∈ (q.tree ref).leaves → known i)
    (hhaving : ∀ ref ∈ Scope.shownHaving q, ∀ i, .subquery i ∈ (q.tree ref).leaves → known i)
    (horder : ∀ ref ∈ Scope.shownOrder q, ∀ i, .subquery i ∈ (q.tree ref).leaves → known i)
    (hready : d.Ready scope q known) (haliases : d.aliases = {}) :
    NamesFrom scope.clauses ((scope.view q).clauses scope.config q) d := by
  rw [Scope.clauses, View.clauses]
  have hstill : ∀ n table, { d with requested := n, aliases := table }.Ready scope q known :=
    fun _ _ => ⟨hready.1, hready.2⟩
  refine YieldsFrom.bind_names (Yields.selectClause hd hselect d hready) fun _ n _ => ?_
  refine YieldsFrom.ok_bind_names (Yields.fromClause _ (hstill n d.aliases)) fun n => ?_
  refine YieldsFrom.bind_names (Yields.whereClause hd hhead _ (hstill n d.aliases)) fun _ n _ => ?_
  refine NamesFrom.bind (NamesFrom.groupByClause hd hgroup (hstill n d.aliases) haliases) fun _ n table _ => ?_
  refine YieldsFrom.bind_names (Yields.havingClause hd hhaving _ (hstill n table)) fun _ n _ => ?_
  have hordering := YieldsFrom.orderByClause hd horder (hstill n table)
  refine YieldsFrom.bind_names hordering fun _ n _ => ?_
  exact YieldsFrom.ok_bind_names (Yields.limitClause _ (hstill n table)) fun n => NamesFrom.pure _ _

end Scope

end ArenaSql
