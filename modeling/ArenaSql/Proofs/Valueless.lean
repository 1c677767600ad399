import ArenaSql.Proofs.Embedded
import ArenaSql.Proofs.Unfolding

/-!
# Statements without values

Dialects that differ in their placeholders only have the same statements for a query without values. No placeholder is
written then, at any depth. In an expression with literals it suffices that its nested queries have no values, as long as
the literals are written out; its canonical text is then the same for both dialects, and so is the alias that is made from
it.
-/

namespace ArenaSql

theorem Except.mapM_congr {ε α β : Type} {f g : α → Except ε β} {items : List α} (h : ∀ item ∈ items, f item = g item) :
    items.mapM f = items.mapM g := by
  induction items with
  | nil => rfl
  | cons item rest ih =>
    obtain ⟨hfirst, hrest⟩ := List.forall_mem_cons.mp h
    rw [List.mapM_cons, List.mapM_cons, hfirst, ih hrest]

/-- Configurations that give the same aliases and count rows by the same option. -/
structure Config.Agrees (config config' : Config) : Prop where
  assign : ∀ (table : AliasTable) text, table.assign config text = table.assign config' text
  countOption : config.countOption = config'.countOption

namespace View

/-- The nested queries among the leaves have statements without values. -/
def Free (view : View) (leaves : List Leaf) : Prop :=
  ∀ i, .subquery i ∈ leaves → ∃ s, view.nested i = .ok s ∧ s.values = []

/-- None of the leaves has values. -/
def Idle (view : View) (leaves : List Leaf) : Prop :=
  ∀ leaf ∈ leaves, view.leafValues leaf = .ok []

/-- The views of one query for two dialects that match patterns alike. Statements of nested queries that have no values
are the same through both. -/
structure Shares (view view' : View) : Prop where
  like : view.dialect.like = view'.dialect.like
  sources : view.sources = view'.sources
  nested : ∀ i s, view.nested i = .ok s → s.values = [] → ∃ s', view'.nested i = .ok s' ∧ s'.sql = s.sql ∧ s'.values = []

variable {view view' : View} {config config' : Config} {t : Tree} {q : Query} {leaves more : List Leaf}

/-! ## Leaves -/

theorem free_append : view.Free (leaves ++ more) ↔ view.Free leaves ∧ view.Free more := by
  simp only [Free, List.mem_append, or_imp, forall_and]

theorem Free.subset (h : view.Free leaves) (hsubset : more ⊆ leaves) : view.Free more :=
  fun i hi => h i (hsubset hi)

theorem Idle.subset (h : view.Idle leaves) (hsubset : more ⊆ leaves) : view.Idle more :=
  fun leaf hleaf => h leaf (hsubset hleaf)

theorem Idle.free (h : view.Idle leaves) : view.Free leaves := by
  intro i hi
  have hvalues := h _ hi
  rw [leafValues] at hvalues
  obtain ⟨s, hs, hvalues⟩ := Except.bind_eq_ok_iff.mp hvalues
  exact ⟨s, hs, Except.ok.inj hvalues⟩

theorem Idle.null (h : view.Idle leaves) {v : Value} (hv : .value v ∈ leaves) : v = .null := by
  have hvalues := h _ hv
  cases v with
  | null => rfl
  | _ => cases hvalues

theorem idle_of_collect (h : view.collect leaves = .ok []) : view.Idle leaves := by
  induction leaves with
  | nil => exact fun leaf hleaf => by cases hleaf
  | cons leaf rest ih =>
    obtain ⟨first, more, hfirst, hmore, heq⟩ := collect_cons_eq_ok h
    obtain ⟨rfl, rfl⟩ := List.append_eq_nil_iff.mp heq.symm
    exact List.forall_mem_cons.mpr ⟨hfirst, ih hmore⟩

theorem Shares.leafValues (h : view.Shares view') {leaf : Leaf} (hfree : view.Free [leaf]) :
    view.leafValues leaf = view'.leafValues leaf := by
  cases leaf with
  | subquery i =>
    obtain ⟨s, hs, hvalues⟩ := hfree i (List.mem_singleton_self _)
    obtain ⟨s', hs', -, hvalues'⟩ := h.nested i s hs hvalues
    rw [View.leafValues, View.leafValues, hs, hs']
    exact congrArg Except.ok (hvalues.trans hvalues'.symm)
  | value v => cases v <;> rfl
  | field | unknown | broken => rfl

theorem Shares.collect (h : view.Shares view') (hfree : view.Free leaves) : view.collect leaves = view'.collect leaves := by
  induction leaves with
  | nil => rfl
  | cons leaf rest ih =>
    obtain ⟨hleaf, hrest⟩ := free_append.mp (show view.Free ([leaf] ++ rest) from hfree)
    rw [View.collect, View.collect, h.leafValues hleaf, ih hrest]

theorem Shares.anyValues (h : view.Shares view') (hfree : view.Free leaves) :
    view.anyValues leaves = view'.anyValues leaves := by
  induction leaves with
  | nil => rfl
  | cons leaf rest ih =>
    obtain ⟨hleaf, hrest⟩ := free_append.mp (show view.Free ([leaf] ++ rest) from hfree)
    rw [View.anyValues, View.anyValues, h.leafValues hleaf, ih hrest]

/-! ## Expressions -/

theorem Shares.spelling (h : view.Shares view') (op : CmpOp) : op.spelling view.dialect = op.spelling view'.dialect := by
  cases op with
  | like op => exact congrFun h.like op
  | _ => rfl

mutual

/-- With literals written out, only the values of nested queries have placeholders. -/
theorem Shares.render_inline (h : view.Shares view') :
    (t : Tree) → view.Free t.leaves → view.render .inline t = view'.render .inline t
  | .field _ f, _ => by rw [View.render, View.render, h.sources]
  | .value v, _ => by
    rw [View.render, View.render]
    cases v <;> rfl
  | .func _ args, hfree | .cond _ args, hfree | .summarise args, hfree => by
    rw [View.render, View.render, h.renderAll_inline args hfree]
  | .calc _ left right, hfree => by
    obtain ⟨hleft, hright⟩ := free_append.mp hfree
    rw [View.render, View.render, h.render_inline (left ()) hleft, h.render_inline (right ()) hright]
  | .cmp op left right, hfree => by
    obtain ⟨hleft, hright⟩ := free_append.mp hfree
    rw [View.render, View.render, h.render_inline (left ()) hleft, h.render_inline (right ()) hright, h.spelling]
  | .sort expr _, hfree => by
    rw [View.render, View.render, h.render_inline (expr ()) hfree]
  | .subquery i embedding, hfree => by
    obtain ⟨s, hs, hvalues⟩ := hfree i (List.mem_singleton_self _)
    obtain ⟨s', hs', hsql, -⟩ := h.nested i s hs hvalues
    rw [View.render, View.render, hs, hs']
    exact congrArg (fun sql => Except.ok (embedding.wrap sql)) hsql.symm
  | .unknown _, _ | .broken _, _ => by rw [View.render, View.render]

theorem Shares.renderAll_inline (h : view.Shares view') : (ts : List (Unit → Tree)) →
    view.Free (Tree.leaves.leavesAll ts) → view.renderAll .inline ts = view'.renderAll .inline ts
  | [], _ => by rw [View.renderAll, View.renderAll]
  | t :: rest, hfree => by
    obtain ⟨hfirst, hrest⟩ := free_append.mp hfree
    rw [View.renderAll, View.renderAll, h.render_inline (t ()) hfirst, h.renderAll_inline rest hrest]

end

theorem Shares.canonicalText (h : view.Shares view') (hfree : view.Free t.leaves) :
    view.canonicalText t = view'.canonicalText t := by
  rw [View.canonicalText, View.canonicalText, h.render_inline t hfree]

theorem Shares.render (h : view.Shares view') (style : Style) (hidle : view.Idle t.leaves) :
    view.render style t = view'.render style t := by
  have hinline := h.render_inline t hidle.free
  cases style with
  | inline => exact hinline
  | bound => rw [render_bound_eq_inline view t fun _ => hidle.null, render_bound_eq_inline view' t fun _ => hidle.null, hinline]

/-! ## Clauses -/

section

variable (h : view.Shares view') (hconfig : config.Agrees config')
include h

theorem Shares.selectClause (hidle : ∀ ref ∈ q.select, view.Idle (q.tree ref).leaves) :
    view.selectClause q = view'.selectClause q := by
  have hitem : ∀ ref ∈ q.select, view.selectItem q ref = view'.selectItem q ref := by
    intro ref href
    rw [View.selectItem, View.selectItem, h.render .bound (hidle ref href)]
  rw [View.selectClause, View.selectClause]
  split
  · rfl
  · rw [Except.mapM_congr hitem]

theorem Shares.whereClause (hidle : ∀ ref ∈ q.head, view.Idle (q.tree ref).leaves) :
    view.whereClause q = view'.whereClause q := by
  rw [View.whereClause, View.whereClause]
  split
  · rfl
  · rename_i root hroot
    rw [h.render .bound (hidle root hroot)]

theorem Shares.havingClause (hidle : ∀ ref ∈ Scope.shownHaving q, view.Idle (q.tree ref).leaves) :
    view.havingClause q = view'.havingClause q := by
  rw [havingClause_eq, havingClause_eq]
  split
  · rfl
  · rename_i root rest hroot
    rw [h.render .bound (hidle root (hroot ▸ List.mem_cons_self))]

theorem Shares.aliasOf? (table : AliasTable) (hfree : view.Free t.leaves) :
    view.aliasOf? table t = view'.aliasOf? table t := by
  rw [View.aliasOf?, View.aliasOf?, h.canonicalText hfree]

theorem Shares.orderItem (table : AliasTable) (hidle : view.Idle t.leaves) :
    view.orderItem table t = view'.orderItem table t := by
  cases t with
  | sort expr direction =>
    have hinside : view.Idle (expr ()).leaves := hidle
    rw [View.orderItem, View.orderItem, h.render .bound hidle, h.anyValues hinside.free, h.aliasOf? table hinside.free]
  | _ => exact h.render .bound hidle

theorem Shares.orderByClause (table : AliasTable) (hidle : ∀ ref ∈ Scope.shownOrder q, view.Idle (q.tree ref).leaves) :
    view.orderByClause q table = view'.orderByClause q table := by
  rw [orderByClause_eq, orderByClause_eq, Except.mapM_congr fun ref href => h.orderItem table (hidle ref href)]

include hconfig

theorem Shares.groupItem (table : AliasTable) (hidle : view.Idle t.leaves) :
    view.groupItem config table t = view'.groupItem config' table t := by
  simp only [View.groupItem, View.renderAliased, View.freshAlias, h.render .bound hidle, h.aliasOf? table hidle.free,
    h.anyValues hidle.free, h.canonicalText hidle.free, hconfig.assign]

theorem Shares.groupItems (table : AliasTable) {refs : List NodeRef} (hidle : ∀ ref ∈ refs, view.Idle (q.tree ref).leaves) :
    view.groupItems config q table refs = view'.groupItems config' q table refs := by
  induction refs generalizing table with
  | nil => rfl
  | cons ref rest ih =>
    obtain ⟨hfirst, hrest⟩ := List.forall_mem_cons.mp hidle
    simp only [View.groupItems, h.groupItem hconfig table hfirst, ih _ hrest]

theorem Shares.groupByClause (hidle : ∀ args, q.groupArgs = .ok args → ∀ ref ∈ args, view.Idle (q.tree ref).leaves) :
    view.groupByClause config q = view'.groupByClause config' q := by
  rw [View.groupByClause, View.groupByClause]
  cases hargs : q.groupArgs with
  | error e => rfl
  | ok args => simp only [bind, Except.bind, h.groupItems hconfig {} (hidle args hargs)]

/-- Without values, a query has the same clauses and the same aliases. -/
theorem Shares.clauses (hroots : view.Idle (q.leaves q.roots))
    (hargs : ∀ args, q.groupArgs = .ok args → view.Idle (q.leaves args)) :
    view.clauses config q = view'.clauses config' q := by
  have hidle : ∀ refs, view.Idle (q.leaves refs) → ∀ ref ∈ refs, view.Idle (q.tree ref).leaves :=
    fun refs h ref href => h.subset fun leaf hleaf => List.mem_flatMap.mpr ⟨ref, href, hleaf⟩
  have hroot := hidle q.roots hroots
  obtain ⟨hselect, hhead, -, hhaving, horder⟩ := q.subset_roots
  simp only [View.clauses, h.selectClause fun ref href => hroot ref (hselect href),
    h.whereClause fun ref href => hroot ref (hhead (Option.mem_toList.mpr href)),
    h.groupByClause hconfig fun args heq => hidle args (hargs args heq),
    h.havingClause fun ref href => hroot ref (hhaving href),
    h.orderByClause _ fun ref href => hroot ref (horder href), hconfig.countOption]

end

end View

/-! ## Compilations -/

namespace Scope

variable {scope scope' : Scope} {q : Query}

/-- Scopes for two dialects that match patterns alike. Nested queries without values have the same statement in both. -/
structure Shares (scope scope' : Scope) : Prop where
  like : scope.dialect.like = scope'.dialect.like
  schema : scope.schema = scope'.schema
  joinType : scope.config.joinType = scope'.config.joinType
  config : scope.config.Agrees scope'.config
  nested : ∀ q s, (scope.nested q 0).result = .ok s → s.values = [] →
    ∃ s', (scope'.nested q 0).result = .ok s' ∧ s'.sql = s.sql ∧ s'.values = []

theorem Shares.view (h : scope.Shares scope') (q : Query) : (scope.view q).Shares (scope'.view q) where
  like := h.like
  sources := rfl
  nested i s hs hvalues := by
    obtain ⟨query, embedding, hexpr⟩ := nestedAt_eq_ok hs
    have hresult : scope.nestedAt q i = (scope.nested (query.embedded embedding) 0).result := by rw [nestedAt, hexpr]
    have hresult' : scope'.nestedAt q i = (scope'.nested (query.embedded embedding) 0).result := by rw [nestedAt, hexpr]
    obtain ⟨s', hs', hsame⟩ := h.nested _ s (hresult.symm.trans hs) hvalues
    exact ⟨s', hresult'.trans hs', hsame⟩

/-- A query without values has the same statement in both scopes. -/
theorem Shares.outline (h : scope.Shares scope') {statement : Statement} (hok : (scope.outline q).2 = .ok statement)
    (hvalues : statement.values = []) :
    ∃ statement', (scope'.outline q).2 = .ok statement' ∧ statement'.sql = statement.sql ∧ statement'.values = [] := by
  obtain ⟨q₁, q₂, clauses, table, hs⟩ := outline_eq_ok_iff.mp hok
  have hidle := View.idle_of_collect (hvalues ▸ hs.collected)
  have hidle₂ := View.idle_of_collect (hvalues ▸ hs.collect_eq)
  have hunbroken := View.unbroken_of_collect hs.collect_eq
  have hlive : q₂.liveRoots = q₂.roots := by
    obtain ⟨settled, joins, rfl⟩ := hs.settledAt_eq
    exact (hs.intact.settledAt settled joins).liveRoots_eq
  have hclauses : (scope'.view q₂).clauses scope'.config q₂ = .ok (clauses, table) := by
    rw [← hs.rendered]
    refine ((h.view q₂).clauses h.config (hlive ▸ hidle₂) fun args hargs => ?_).symm
    rw [leaves_groupArgs_of_live hargs hunbroken]
    refine hidle₂.subset fun leaf hleaf => ?_
    obtain ⟨root, hroot, hleaf⟩ := List.mem_flatMap.mp hleaf
    exact List.mem_flatMap.mpr ⟨root, hlive ▸ q₂.subset_roots.2.2.1 hroot, hleaf⟩
  refine ⟨⟨statement.sql, [], scope'.dialect.name⟩, outline_eq_ok_iff.mpr ⟨q₁, q₂, clauses, table, ?_⟩, rfl, rfl⟩
  have hresolved := hs.resolved
  rw [h.schema, h.joinType] at hresolved
  have hcollected := (h.view q₁).collect hidle.free
  exact ⟨hs.settled, hresolved, (hvalues ▸ hcollected.symm.trans hs.collected), hclauses, hs.sql_eq, rfl⟩

end Scope

/-- The context with another dialect, which the configuration may know by another name. -/
def Context.withDialect (context : Context) (dialect : Dialect) (name : String) : Context :=
  { context with dialect := dialect, config.dialect := name }

theorem Context.shares_scope {context : Context} {dialect : Dialect} (name : String) (hd : context.dialect.Stateless)
    (hd' : dialect.Stateless) (hlike : context.dialect.like = dialect.like) (depth : Nat) :
    (context.scope depth).Shares ((context.withDialect dialect name).scope depth) := by
  have hconfig : context.config.Agrees { context.config with dialect := name } := ⟨fun _ _ => rfl, rfl⟩
  induction depth with
  | zero => exact ⟨hlike, rfl, rfl, hconfig, fun _ _ h => by cases h⟩
  | succ depth ih =>
    refine ⟨hlike, rfl, rfl, hconfig, fun q s hs hvalues => ?_⟩
    rw [(nested_scope_succ hd depth q).2] at hs
    obtain ⟨s', hs', hsame⟩ := ih.outline hs hvalues
    exact ⟨s', (@nested_scope_succ (context.withDialect dialect name) hd' depth q).2.trans hs', hsame⟩

end ArenaSql
