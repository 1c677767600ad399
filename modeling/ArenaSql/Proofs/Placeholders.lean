import ArenaSql.Proofs.Names
import ArenaSql.Proofs.Occurrences

/-!
# Statements and their placeholders

A statement has a placeholder for each of its values. The values are the live literals of the query, and where all
names are clean the placeholders can be counted in the text.
-/

namespace ArenaSql

open Text

variable {p : Char → Bool} {F : String → Prop}

/-- Whatever the view adds to a text is quiet. -/
structure View.Quiet (F : String → Prop) (view : View) : Prop where
  sources : ∀ s ∈ view.sources.names, F s
  keywords : ∀ op, F (view.dialect.like op)
  nested : ∀ i statement, view.nested i = .ok statement → statement.sql.Quiet F

namespace View

variable {view : View} {q : Query}

theorem Quiet.spelling (hview : view.Quiet F) {op : CmpOp} (hop : F op.text) : F (op.spelling view.dialect) := by
  cases op with
  | like op => exact hview.keywords op
  | _ => exact hop

/-- An expression is rendered quietly if its names have the property and what it refers to is rendered quietly. -/
theorem Quiet.render_treeWith (hF : Wording p F) (hview : view.Quiet F) (i : Nat) {sub : NodeRef → Tree}
    (hsub : ∀ ref sql, view.render .bound (sub ref) = .ok sql → sql.Quiet F) :
    (expr : Expr) → (∀ s ∈ expr.names, F s) → (sql : Sql) →
      view.render .bound (expr.treeWith i sub) = .ok sql → sql.Quiet F
  | .field f, hnames, sql, h => by
    rw [Expr.treeWith, render] at h
    cases h
    refine .text (.inl (Field.clean_text hF hview.sources (hnames _ (by simp [Expr.names])) fun table htable => ?_))
    exact hnames table (by simp [Expr.names, Option.mem_def.mp htable])
  | .value v, _, sql, h => by
    rw [Expr.treeWith, render] at h
    cases h
    cases v with
    | null => exact .text (.inl (hF.fixed rfl))
    | _ => exact .piece
  | .func name args, hnames, sql, h => by
    rw [Expr.treeWith, render] at h
    obtain ⟨parts, hparts, h⟩ := Except.bind_eq_ok_iff.mp h
    cases h
    have hname : F (name ++ "(") := hF.append (hnames name (by simp [Expr.names])) (hF.fixed rfl) (.inr rfl)
    have hlisted := Sql.Quiet.listed hF (Except.forall_mem_of_mapM hsub (renderAll_map ▸ hparts))
    exact (hlisted.after hname (isOpening_append name rfl)).before (hF.fixed rfl) rfl
  | .calc op left right, hnames, sql, h => by
    rw [Expr.treeWith, render] at h
    obtain ⟨l, hl, h⟩ := Except.bind_eq_ok_iff.mp h
    obtain ⟨r, hr, h⟩ := Except.bind_eq_ok_iff.mp h
    cases h
    have hop : F (" " ++ op.text ++ " ") ∨ " " ++ op.text ++ " " = " % " := by
      by_cases hmod : op = .mod
      · subst hmod
        exact .inr rfl
      · exact .inl (hF.spaced (hnames _ (by simp [Expr.names, hmod])))
    exact ((hsub _ _ hl).operand hF).around hop (isClosing_spaced _) (isOpening_append _ rfl) ((hsub _ _ hr).operand hF)
  | .cmp op left right, hnames, sql, h => by
    rw [Expr.treeWith] at h
    obtain ⟨l, hl, h⟩ := render_cmp_eq_ok h
    rcases h with ⟨test, htest, -, rfl⟩ | ⟨r, hr, rfl⟩
    · refine ((hsub _ _ hl).operand hF).before (hF.append (hF.fixed rfl) ?_ (.inl rfl)) (isClosing_append rfl test)
      cases op with
      | eq | ne => cases htest; exact hF.fixed rfl
      | _ => cases htest
    · have hop := hF.spaced (hview.spelling (hnames op.text (by simp [Expr.names])))
      exact ((hsub _ _ hl).operand hF).around (.inl hop) (isClosing_spaced _) (isOpening_append _ rfl)
        ((hsub _ _ hr).operand hF)
  | .cond op args, hnames, sql, h => by
    rw [Expr.treeWith, render] at h
    obtain ⟨parts, hparts, h⟩ := Except.bind_eq_ok_iff.mp h
    exact .connect hF (hnames op.text (by simp [Expr.names])) (Except.forall_mem_of_mapM hsub (renderAll_map ▸ hparts)) h
  | .sort expr direction, hnames, sql, h => by
    rw [Expr.treeWith, render] at h
    obtain ⟨inside, hinside, h⟩ := Except.bind_eq_ok_iff.mp h
    cases h
    have hdirection : F (" " ++ direction.text) :=
      hF.append (hF.fixed rfl) (hnames _ (by simp [Expr.names])) (.inl rfl)
    exact (hsub _ _ hinside).before hdirection (isClosing_append rfl _)
  | .summarise args, _, sql, h => by
    rw [Expr.treeWith, render] at h
    obtain ⟨parts, hparts, h⟩ := Except.bind_eq_ok_iff.mp h
    cases h
    exact .listed hF (Except.forall_mem_of_mapM hsub (renderAll_map ▸ hparts))
  | .subquery query embedding, _, sql, h => by
    rw [Expr.treeWith, render] at h
    obtain ⟨statement, hstatement, h⟩ := Except.bind_eq_ok_iff.mp h
    cases h
    exact (hview.nested i statement hstatement).wrap hF embedding
  | .bare, _, sql, h | .raw _, _, sql, h => by
    rw [Expr.treeWith, render] at h
    cases h

theorem Quiet.render_unfold (hF : Wording p F) (hview : view.Quiet F) {nodes : List Node}
    (hnodes : ∀ node ∈ nodes, ∀ s ∈ node.expr.names, F s) (n : Nat) (ref : NodeRef) (sql : Sql)
    (h : view.render .bound (Tree.unfold nodes n ref) = .ok sql) : sql.Quiet F := by
  induction n generalizing ref sql with
  | zero =>
    rw [Tree.unfold, render] at h
    cases h
  | succ n ih =>
    cases hlocate : locate? nodes ref with
    | none =>
      rw [Tree.unfold_of_none n hlocate, render] at h
      cases h
    | some found =>
      obtain ⟨i, node⟩ := found
      rw [Tree.unfold_of_some n hlocate] at h
      have hnames := hnodes node (List.mem_of_getElem? (locate?_eq_some_iff.mp hlocate).2)
      exact hview.render_treeWith hF i ih node.expr hnames sql h

theorem Quiet.render (hF : Wording p F) (hview : view.Quiet F) (hq : q.Clean F) {ref : NodeRef} {sql : Sql}
    (h : view.render .bound (q.tree ref) = .ok sql) : sql.Quiet F :=
  hview.render_unfold hF hq.exprs _ ref sql h

/-! ## Clauses -/

theorem clean_direction (hq : q.Clean F) {ref : NodeRef} {expr : Unit → Tree} {direction : Direction}
    (h : q.tree ref = .sort expr direction) : F direction.text := by
  rw [Query.tree] at h
  cases hlocate : locate? q.nodes ref with
  | none => rw [Tree.unfold_of_none _ hlocate] at h; cases h
  | some found =>
    obtain ⟨i, node⟩ := found
    have hnames := hq.exprs node (List.mem_of_getElem? (locate?_eq_some_iff.mp hlocate).2)
    rw [Tree.unfold_of_some _ hlocate] at h
    cases hexpr : node.expr with
    | sort inner d =>
      rw [hexpr] at h hnames
      cases h
      exact hnames _ (by simp [Expr.names])
    | _ => rw [hexpr] at h; cases h

section

variable (hF : Wording p F) (hview : view.Quiet F) (hq : q.Clean F)

include hF

/-- A fragment with an alias behind it. -/
theorem Quiet.named {sql : Sql} (h : sql.Quiet F) {name : String} (hname : F name) :
    (sql ++ Sql.plain (" AS " ++ name)).Quiet F :=
  h.before (hF.append (hF.fixed rfl) hname (.inl rfl)) (isClosing_append rfl name)

include hview hq

theorem Quiet.selectClause {sql : Sql} (h : view.selectClause q = .ok sql) : sql.Quiet F := by
  rw [View.selectClause] at h
  split at h
  · cases h
    exact .text (.inl (hF.fixed rfl))
  · obtain ⟨items, hitems, h⟩ := Except.bind_eq_ok_iff.mp h
    cases h
    refine .after (hF.fixed rfl) rfl (.listed hF (Except.forall_mem_of_mapM (fun ref sql hsql => ?_) hitems))
    rw [selectItem] at hsql
    obtain ⟨inside, hinside, hsql⟩ := Except.bind_eq_ok_iff.mp hsql
    split at hsql
    · rename_i name hname
      cases hsql
      obtain ⟨node, hnode, hname⟩ := Option.bind_eq_some_iff.mp hname
      have hlocated : node ∈ q.nodes := by
        obtain ⟨found, hfound, rfl⟩ := Option.map_eq_some_iff.mp hnode
        exact List.mem_of_getElem? (locate?_eq_some_iff.mp hfound).2
      exact Quiet.named hF (hview.render hF hq hinside)
        (hq.aliases node hlocated name (Option.filter_eq_some_iff.mp hname).1)
    · cases hsql
      exact hview.render hF hq hinside

theorem Quiet.whereClause {clause : Option Sql} (h : view.whereClause q = .ok clause) :
    ∀ sql ∈ clause, sql.Quiet F := by
  rw [View.whereClause] at h
  split at h
  · cases h
    exact fun _ hsql => by cases hsql
  · obtain ⟨sql, hsql, h⟩ := Except.bind_eq_ok_iff.mp h
    split at h
    · cases h
      exact fun _ hsql => by cases hsql
    · cases h
      intro clause hclause
      cases hclause
      exact .after (hF.fixed rfl) rfl (hview.render hF hq hsql)

theorem Quiet.havingClause {clause : Option Sql} (h : view.havingClause q = .ok clause) :
    ∀ sql ∈ clause, sql.Quiet F := by
  rw [View.havingClause] at h
  split at h
  · obtain ⟨sql, hsql, h⟩ := Except.bind_eq_ok_iff.mp h
    cases h
    intro clause hclause
    cases hclause
    exact .after (hF.fixed rfl) rfl (hview.render hF hq hsql)
  · cases h
    exact fun _ hsql => by cases hsql

variable {config : Config}

theorem Quiet.groupItems (hbase : madeOf p config.emptyAliasBase) (hsuffix : madeOf p config.aliasSuffix)
    {table table' : AliasTable} (htable : ∀ name ∈ table.aliases, madeOf p name) {refs : List NodeRef}
    {parts : List Sql} (h : view.groupItems config q table refs = .ok (parts, table')) :
    (∀ part ∈ parts, part.Quiet F) ∧ ∀ name ∈ table'.aliases, madeOf p name := by
  induction refs generalizing table parts with
  | nil =>
    cases h
    exact ⟨fun _ hpart => (by cases hpart), htable⟩
  | cons ref rest ih =>
    rw [View.groupItems] at h
    obtain ⟨⟨sql, table₁⟩, hsql, h⟩ := Except.bind_eq_ok_iff.mp h
    obtain ⟨⟨more, table₂⟩, hmore, h⟩ := Except.bind_eq_ok_iff.mp h
    cases h
    have hfirst : sql.Quiet F ∧ ∀ name ∈ table₁.aliases, madeOf p name := by
      rcases groupItem_eq_ok hsql with ⟨hinside, rfl⟩ | ⟨_, name, -, hname, -, rfl, rfl⟩ |
        ⟨_, name, inside, -, -, hassign, hinside, rfl⟩
      · exact ⟨hview.render hF hq hinside, htable⟩
      · exact ⟨.text (.inl (hF.chars name (htable name (AliasTable.mem_aliases_of_find? hname)))), htable⟩
      · obtain ⟨hname, htable₁⟩ := AliasTable.madeOf_assign hF.basic hbase hsuffix htable hassign
        exact ⟨Quiet.named hF (hview.render hF hq hinside) (hF.chars name hname), htable₁⟩
    obtain ⟨hrest, htable'⟩ := ih hfirst.2 hmore
    exact ⟨List.forall_mem_cons.mpr ⟨hfirst.1, hrest⟩, htable'⟩

theorem Quiet.groupByClause (hbase : madeOf p config.emptyAliasBase) (hsuffix : madeOf p config.aliasSuffix)
    {table : AliasTable} {clause : Option Sql} (h : view.groupByClause config q = .ok (clause, table)) :
    (∀ sql ∈ clause, sql.Quiet F) ∧ ∀ name ∈ table.aliases, madeOf p name := by
  rw [View.groupByClause] at h
  obtain ⟨args, -, h⟩ := Except.bind_eq_ok_iff.mp h
  split at h
  · cases h
    exact ⟨fun _ hsql => (by cases hsql), fun _ hname => by cases hname⟩
  · obtain ⟨⟨items, table'⟩, hitems, h⟩ := Except.bind_eq_ok_iff.mp h
    cases h
    have hempty : ∀ name ∈ ({} : AliasTable).aliases, madeOf p name := fun _ hname => by cases hname
    obtain ⟨hparts, htable⟩ := hview.groupItems hF hq hbase hsuffix hempty hitems
    refine ⟨fun sql hsql => ?_, htable⟩
    cases hsql
    exact .after (hF.fixed rfl) rfl (.listed hF hparts)

theorem Quiet.orderByClause {table : AliasTable} (htable : ∀ name ∈ table.aliases, madeOf p name) {clause : Option Sql}
    (h : view.orderByClause q table = .ok clause) : ∀ sql ∈ clause, sql.Quiet F := by
  rw [View.orderByClause] at h
  split at h
  · cases h
    exact fun _ hsql => by cases hsql
  · obtain ⟨items, hitems, h⟩ := Except.bind_eq_ok_iff.mp h
    cases h
    intro clause hclause
    cases hclause
    refine .after (hF.fixed rfl) rfl (.listed hF (Except.forall_mem_of_mapM (fun ref sql hsql => ?_) hitems))
    rcases orderItem_eq_ok hsql with hinside | ⟨expr, direction, _, name, htree, -, hname, -, rfl⟩
    · exact hview.render hF hq hinside
    · have hname := hF.chars name (htable name (AliasTable.mem_aliases_of_find? hname))
      exact .text (.inl (hF.between hname (clean_direction hq htree) rfl rfl rfl))

theorem Quiet.clauses (hbase : madeOf p config.emptyAliasBase) (hsuffix : madeOf p config.aliasSuffix)
    (hsources : view.sources = q.tables) {clauses : List Sql} {table : AliasTable}
    (h : view.clauses config q = .ok (clauses, table)) : ∀ clause ∈ clauses, clause.Quiet F := by
  rw [View.clauses] at h
  obtain ⟨selecting, hselect, h⟩ := Except.bind_eq_ok_iff.mp h
  obtain ⟨filter, hwhere, h⟩ := Except.bind_eq_ok_iff.mp h
  obtain ⟨⟨grouping, table'⟩, hgroup, h⟩ := Except.bind_eq_ok_iff.mp h
  obtain ⟨having, hhaving, h⟩ := Except.bind_eq_ok_iff.mp h
  obtain ⟨ordering, horder, h⟩ := Except.bind_eq_ok_iff.mp h
  cases h
  obtain ⟨hgrouping, htable⟩ := hview.groupByClause hF hq hbase hsuffix hgroup
  have hlimit : ∀ sql ∈ (q.limit? config.countOption).map Sql.plain, sql.Quiet F := by
    intro sql hsql
    obtain ⟨text, htext, rfl⟩ := Option.map_eq_some_iff.mp hsql
    exact .text (.inl (hF.fixed (Query.isBasic_limit htext)))
  have hfrom : F q.tables.text := Sources.clean_text hF (hsources ▸ hview.sources)
  intro clause hclause
  simp only [List.mem_cons, List.mem_filterMap, id, exists_eq_right, List.not_mem_nil, or_false] at hclause
  rcases hclause with rfl | rfl | h | h | h | h | h
  · exact hview.selectClause hF hq hselect
  · exact .text (.inl (hF.append (hF.fixed rfl) hfrom (.inl rfl)))
  · exact hview.whereClause hF hq hwhere clause h.symm
  · exact hgrouping clause h.symm
  · exact hview.havingClause hF hq hhaving clause h.symm
  · exact hview.orderByClause hF hq htable horder clause h.symm
  · exact hlimit clause h.symm

end

end View

theorem Query.Clean.derived (hF : Wording p F) {q : Query} {sql : Sql} (hq : q.Clean F) (h : sql.Quiet F) :
    (q.derived sql).Quiet F := by
  have hname : F q.derivedName := by
    rw [derivedName]
    cases hfilter : q.aliasName.filter (!·.isEmpty) with
    | none => exact hF.fixed rfl
    | some name => exact hq.aliasName name (Option.filter_eq_some_iff.mp hfilter).1
  rw [Query.derived]
  split
  · exact View.Quiet.named hF (h.parenthesized hF) hname
  · exact h

/-- A property that all names have makes quiet statements. -/
theorem Context.quiet_sql_of_wording (hF : Wording p F) {context : Context} (hd : context.dialect.Stateless)
    (hbase : madeOf p context.config.emptyAliasBase) (hsuffix : madeOf p context.config.aliasSuffix)
    (hnames : ∀ s ∈ context.names, F s) {depth : Nat} {q : Query} {statement : Statement} (hq : q.Clean F)
    (h : ((context.scope depth).outline q).2 = .ok statement) : statement.sql.Quiet F := by
  refine outline_induction hd (p := fun q statement => q.Clean F → statement.sql.Quiet F)
    (fun scope q statement hcontext hnested houtline hq => ?_) h hq
  clear h
  subst hcontext
  obtain ⟨q₁, q₂, clauses, table, hs⟩ := Scope.outline_eq_ok_iff.mp houtline
  have hq₂ : q₂.Clean F := (hq.settleIndex hF hs.settled).resolveLeaves hF hnames hs.resolved
  have hview : (scope.view q₂).Quiet F := by
    refine ⟨hq₂.sources, fun op => ?_, fun i nested hstatement => ?_⟩
    · cases op <;> exact hnames _ (by simp [names, Scope.view])
    · have hstatement : scope.nestedAt q i = .ok nested := by rw [← hs.nestedAt_eq]; exact hstatement
      obtain ⟨query, embedding, hexpr⟩ := Scope.nestedAt_eq_ok hstatement
      exact hnested i query embedding nested hexpr hstatement (hq.nested hexpr)
  rw [hs.sql_eq]
  exact hq₂.derived hF (.joined (hF.fixed rfl) rfl rfl (hview.clauses hF hq₂ hbase hsuffix rfl hs.rendered))

/-- Clean names make quiet statements. -/
theorem Context.quiet_sql {context : Context} (hd : context.dialect.Stateless) (hbase : context.config.NamedBase)
    (hnames : ∀ s ∈ context.names, isClean s) {depth : Nat} {q : Query} {statement : Statement}
    (hq : q.Clean (isClean ·)) (h : ((context.scope depth).outline q).2 = .ok statement) :
    statement.sql.Quiet (isClean ·) := by
  refine quiet_sql_of_wording wording_isClean hd (List.all_eq_true.mpr fun c hc => ?_) (hnames _ (by simp [names])) hnames
    hq h
  exact isCleanChar_of_isBasicChar (isBasicChar_of_isNameChar (List.all_eq_true.mp hbase c hc))

/-- The statement of a query is made of plain text and placeholders. Each placeholder is spelled as the dialect has
it and stands for a value other than null; from left to right these are the values of the statement, and they are
the live literals of the query and of the queries nested in it. If no name has a question mark or a percent sign,
the placeholder stands in the text as often as there are values. -/
theorem Query.placeholders_synchronous {context : Context} {q : Query} {statement : Statement}
    (hd : context.dialect.Stateless) (hmark : context.dialect.mark = "?" ∨ context.dialect.mark = "%s")
    (h : (q.compile context).result = .ok statement) :
    (∀ v m, .bound v m ∈ statement.sql → m = context.dialect.mark ∧ v ≠ .null) ∧
      statement.sql.values = statement.values ∧
      statement.values.map some = q.literals.map q.literalAt ∧
      (context.config.NamedBase → (∀ s ∈ context.names ++ q.names, isClean s) →
        occurrences context.dialect.mark.toList statement.text.toList = statement.values.length) := by
  rw [(compile_eq_outline hd q).2] at h
  have hisMark : isMark context.dialect.mark := by
    rcases hmark with hmark | hmark <;> rw [hmark] <;> rfl
  have hne : context.dialect.mark ≠ "" := by
    rcases hmark with hmark | hmark <;> rw [hmark] <;> decide
  have hbinds := Context.sql_binds hd hne h
  refine ⟨hbinds.marked, hbinds.values_eq, Context.values_eq_literals hd h, fun hbase hnames => ?_⟩
  obtain ⟨hcontext, hquery⟩ := List.forall_mem_append.mp hnames
  have hquiet := Context.quiet_sql hd hbase hcontext (clean_iff.mpr hquery) h
  rw [← hbinds.values_eq]
  exact hquiet.occurrences hisMark fun v m hm => (hbinds.marked v m hm).1

/-- Orders, which belong to regions through their customers. -/
def Context.orders : Context where
  dialect := .postgres
  schema :=
    { tables := [{ name := "orders", columns := [{ name := "id" }, { name := "total" }] }]
      lookups := [{ key := "customer", fromTable := "orders", fromCol := "cid", toTable := "customers",
                    columns := ["region"] }] }
  config := {}

/-- The orders with a known region whose total is that of order seven, grouped twice by the same remainder. -/
def Query.regionalOrders : Query where
  nodes :=
    [{ expr := .field { name := .text "total" } }, { expr := .value (.int 10) },
     { expr := .calc .mod (.index 0) (.index 1) }, { expr := .summarise [.index 2, .index 2] },
     { expr := .field { name := .text "region" } }, { expr := .value .null },
     { expr := .cmp .ne (.index 4) (.index 5) }, { expr := .subquery orderSeven .scalar },
     { expr := .cmp .eq (.index 0) (.index 7) }, { expr := .cond .conj [.index 6, .index 8] }]
  select := [.index 2]
  head := some (.index 9)
  summarise := some (.index 3)
  tables := { table := "orders" }
where
  orderSeven : Query :=
    { nodes :=
        [{ expr := .field { name := .text "total" } }, { expr := .field { name := .text "id" } },
         { expr := .value (.int 7) }, { expr := .cmp .eq (.index 1) (.index 2) }]
      select := [.index 0]
      head := some (.index 3)
      tables := { table := "orders" } }

theorem Query.placeholders_regionalOrders :
    ∃ statement, (regionalOrders.compile .orders).result = .ok statement ∧
      statement.text = "SELECT orders.total % %s FROM orders LEFT JOIN customers ON orders.cid = customers.id " ++
        "WHERE (customers.region IS NOT NULL) AND (orders.total = (SELECT total FROM orders WHERE id = %s)) " ++
        "GROUP BY orders.total % %s AS orders_total_alias, orders.total % %s" ∧
      statement.values = [.int 10, .int 7, .int 10, .int 10] ∧
      statement.values.map some = regionalOrders.literals.map regionalOrders.literalAt ∧
      occurrences "%s".toList statement.text.toList = statement.values.length := by
  have heval : (regionalOrders.compile .orders).result.toOption.map (fun s => (s.text, s.values)) =
      some ("SELECT orders.total % %s FROM orders LEFT JOIN customers ON orders.cid = customers.id " ++
        "WHERE (customers.region IS NOT NULL) AND (orders.total = (SELECT total FROM orders WHERE id = %s)) " ++
        "GROUP BY orders.total % %s AS orders_total_alias, orders.total % %s",
        [.int 10, .int 7, .int 10, .int 10]) := by decide +kernel
  cases hresult : (regionalOrders.compile .orders).result with
  | error e => rw [hresult] at heval; cases heval
  | ok statement =>
    rw [hresult] at heval
    obtain ⟨htext, hvalues⟩ := Prod.mk.inj (Option.some.inj heval)
    have h := placeholders_synchronous (fun _ => rfl) (Or.inr rfl) hresult
    exact ⟨statement, rfl, htext, hvalues, h.2.2.1, h.2.2.2 rfl (by decide +kernel)⟩

end ArenaSql
