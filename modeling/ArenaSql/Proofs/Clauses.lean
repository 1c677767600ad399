import ArenaSql.Proofs.Renders

/-!
# When clauses can be rendered

The clauses of a query can be rendered just when the expressions can be that its clauses start from, and the
grouping is one. The number of a generated alias may get too long on the way.
-/

namespace ArenaSql

open Relation

/-- There is a result, or the number of a generated alias got too long. -/
def Completes {α : Type} (x : Except CompileError α) : Prop :=
  (∃ a, x = .ok a) ∨ ∃ e, x = .error (.aliasNumber e)

theorem Completes.ok {α : Type} (a : α) : Completes (.ok a : Except CompileError α) :=
  Or.inl ⟨a, rfl⟩

theorem Completes.bind {α β : Type} {x : Except CompileError α} {f : α → Except CompileError β} (h : Completes x)
    (hf : ∀ a, x = .ok a → Completes (f a)) : Completes (x >>= f) := by
  rcases h with ⟨a, rfl⟩ | ⟨e, rfl⟩
  · exact hf a rfl
  · exact Or.inr ⟨e, rfl⟩

/-- The references that the clauses start from: the select list, the filter, the grouping, the condition on groups
if there is a grouping, and the ordering if it is shown. -/
def Query.roots (q : Query) : List NodeRef :=
  q.select ++ (q.head.toList ++ (q.summarise.toList ++ (Scope.shownHaving q ++ Scope.shownOrder q)))

theorem Query.mem_liveRoots_iff {q : Query} {ref : NodeRef} : ref ∈ q.liveRoots ↔ ref ∈ q.roots ∧ ref.isNull = false := by
  rw [liveRoots_eq, List.mem_filter, roots, Bool.not_eq_true']

namespace View

variable {view : View} {q : Query} {ref : NodeRef}

/-- The expression of a reference is unbroken, and all nodes it reaches have what they need. -/
def CanRender (view : View) (q : Query) (ref : NodeRef) : Prop :=
  (q.tree ref).Unbroken ∧ ∀ other, ReflTransGen q.Refers ref other → view.AdmitsAt q other

theorem CanRender.child (h : view.CanRender q ref) {child : NodeRef} (hchild : q.Refers ref child) :
    view.CanRender q child :=
  ⟨Query.unbroken_of_refers h.1 hchild, fun other hreach => h.2 other (.head hchild hreach)⟩

theorem CanRender.of_children {i : Nat} {node : Node} (hunbroken : (q.tree ref).Unbroken)
    (hlocate : locate? q.nodes ref = some (i, node)) (hadmits : view.Admits i q.tree node.expr)
    (h : ∀ child ∈ node.expr.children, view.CanRender q child) : view.CanRender q ref := by
  refine ⟨hunbroken, fun other hreach => ?_⟩
  rcases hreach.cases_head with rfl | ⟨child, ⟨expr, hexpr, hchild⟩, hreach⟩
  · intro j node' hlocate'
    rw [hlocate] at hlocate'
    cases hlocate'
    exact hadmits
  · rw [Query.expr?_of_locate? hlocate] at hexpr
    cases hexpr
    exact (h child hchild).2 other hreach

theorem CanRender.render (h : view.CanRender q ref) (style : Style) : ∃ sql, view.render style (q.tree ref) = .ok sql := by
  obtain ⟨sql, hsql, -⟩ := exists_render h.1 h.2
  exact ⟨sql, hsql⟩

theorem CanRender.canonicalText (h : view.CanRender q ref) : ∃ text, view.canonicalText (q.tree ref) = .ok text := by
  obtain ⟨sql, hsql⟩ := h.render .inline
  exact ⟨sql.text, by rw [View.canonicalText, hsql]; rfl⟩

theorem CanRender.leafValues (h : view.CanRender q ref) {leaf : Leaf} (hleaf : leaf ∈ (q.tree ref).leaves) :
    ∃ values, view.leafValues leaf = .ok values := by
  cases leaf with
  | subquery i =>
    obtain ⟨other, j, node, hreach, hlocate, hnode⟩ := (Query.mem_leaves_iff h.1).mp hleaf
    have hadmits := h.2 other hreach j node hlocate
    cases hexpr : node.expr <;> rw [hexpr] at hnode <;> cases hnode
    rw [hexpr] at hadmits
    obtain ⟨statement, hstatement⟩ := hadmits
    exact ⟨statement.values, by rw [View.leafValues, hstatement]; rfl⟩
  | broken fault => exact absurd hleaf (h.1 fault)
  | value v => cases v <;> exact ⟨_, rfl⟩
  | field | unknown => exact ⟨_, rfl⟩

theorem exists_anyValues {leaves : List Leaf} (h : ∀ leaf ∈ leaves, ∃ values, view.leafValues leaf = .ok values) :
    ∃ found, view.anyValues leaves = .ok found := by
  induction leaves with
  | nil => exact ⟨false, rfl⟩
  | cons leaf rest ih =>
    obtain ⟨values, hvalues⟩ := h leaf List.mem_cons_self
    obtain ⟨found, hfound⟩ := ih fun other hother => h other (List.mem_cons_of_mem _ hother)
    rw [anyValues, hvalues]
    cases values with
    | nil => exact ⟨found, hfound⟩
    | cons => exact ⟨true, rfl⟩

theorem exists_isSimple : (t : Tree) → t.Unbroken → ∃ simple, isSimple t = .ok simple
  | .sort expr _, h => exists_isSimple (expr ()) h
  | .broken fault, h => absurd h (Tree.not_unbroken_broken fault)
  | .field .., _ | .value _, _ => ⟨true, rfl⟩
  | .func .., _ | .calc .., _ | .cmp .., _ | .cond .., _ | .summarise _, _ | .subquery .., _ | .unknown _, _ =>
    ⟨false, rfl⟩

/-! ## From expressions to clauses -/

theorem exists_selectClause (h : ∀ ref ∈ q.select, view.CanRender q ref) : ∃ sql, view.selectClause q = .ok sql := by
  have hitems : ∀ ref ∈ q.select, ∃ sql, view.selectItem q ref = .ok sql := by
    intro ref href
    obtain ⟨sql, hsql⟩ := (h ref href).render .bound
    rw [selectItem, hsql]
    cases (q.node? ref).bind (·.aliasName.filter (!·.isEmpty)) <;> exact ⟨_, rfl⟩
  rw [selectClause]
  split
  · exact ⟨_, rfl⟩
  · obtain ⟨items, hitems⟩ := Except.exists_mapM_eq_ok_iff.mpr hitems
    exact ⟨_, by rw [hitems]; rfl⟩

theorem exists_whereClause (h : ∀ ref ∈ q.head, view.CanRender q ref) : ∃ clause, view.whereClause q = .ok clause := by
  rw [whereClause]
  split
  · exact ⟨_, rfl⟩
  · rename_i root hroot
    obtain ⟨sql, hsql⟩ := (h root hroot).render .bound
    rw [hsql]
    cases hblank : sql.isBlank
    · exact ⟨some _, by simp only [bind, Except.bind, hblank]; rfl⟩
    · exact ⟨none, by simp only [bind, Except.bind, hblank]; rfl⟩

theorem exists_havingClause (h : ∀ ref ∈ Scope.shownHaving q, view.CanRender q ref) :
    ∃ clause, view.havingClause q = .ok clause := by
  rw [havingClause]
  split
  · rename_i root hsum hhaving
    obtain ⟨sql, hsql⟩ := (h root (by simp [Scope.shownHaving, hsum, hhaving])).render .bound
    exact ⟨_, by rw [hsql]; rfl⟩
  · exact ⟨_, rfl⟩

theorem exists_aliasOf? (table : AliasTable) (h : view.CanRender q ref) :
    ∃ found, view.aliasOf? table (q.tree ref) = .ok found := by
  obtain ⟨text, htext⟩ := h.canonicalText
  exact ⟨table.find? text, by rw [aliasOf?, htext]; rfl⟩

theorem completes_freshAlias {config : Config} {table : AliasTable} (h : view.CanRender q ref) :
    Completes (view.freshAlias config table (q.tree ref)) := by
  obtain ⟨text, htext⟩ := h.canonicalText
  rw [freshAlias, htext]
  refine (Completes.ok _).bind fun found hfound => ?_
  cases hfound
  -- the number of the alias may be too long to be written
  cases table.assign config text with
  | ok entry => exact .ok _
  | error e => exact Or.inr ⟨e, rfl⟩

theorem completes_renderAliased {config : Config} {table : AliasTable} (h : view.CanRender q ref) :
    Completes (view.renderAliased config table (q.tree ref)) := by
  obtain ⟨known, hknown⟩ := exists_aliasOf? table h
  rw [renderAliased, hknown]
  refine (Completes.ok _).bind fun found hfound => ?_
  cases hfound
  cases known with
  | some name => exact .ok _
  | none =>
    obtain ⟨sql, hsql⟩ := h.render .bound
    refine (completes_freshAlias h).bind fun entry _ => ?_
    rw [hsql]
    exact .ok _

theorem completes_groupItem {config : Config} {table : AliasTable} (h : view.CanRender q ref) :
    Completes (view.groupItem config table (q.tree ref)) := by
  obtain ⟨simple, hsimple⟩ := exists_isSimple _ h.1
  obtain ⟨sql, hsql⟩ := h.render .bound
  obtain ⟨known, hknown⟩ := exists_aliasOf? table h
  obtain ⟨valued, hvalued⟩ := exists_anyValues fun leaf hleaf => h.leafValues hleaf
  rw [groupItem, hsimple]
  refine (Completes.ok _).bind fun simple' hsame => ?_
  cases hsame
  cases simple with
  | true =>
    rw [hsql]
    exact .ok _
  | false =>
    rw [hknown]
    refine (Completes.ok _).bind fun found hfound => ?_
    cases hfound
    cases known with
    | none => exact completes_renderAliased h
    | some name =>
      rw [hvalued]
      refine (Completes.ok _).bind fun valued' hsame => ?_
      cases hsame
      cases valued with
      | true =>
        rw [hsql]
        exact .ok _
      | false => exact completes_renderAliased h

theorem completes_groupItems {config : Config} {table : AliasTable} {refs : List NodeRef}
    (h : ∀ ref ∈ refs, view.CanRender q ref) : Completes (view.groupItems config q table refs) := by
  induction refs generalizing table with
  | nil => exact .ok _
  | cons ref rest ih =>
    rw [groupItems]
    refine (completes_groupItem (h ref List.mem_cons_self)).bind fun item _ => ?_
    exact (ih fun other hother => h other (List.mem_cons_of_mem _ hother)).bind fun items _ => .ok _

theorem refers_of_groupArgs {args : List NodeRef} (hargs : q.groupArgs = .ok args) {arg : NodeRef} (harg : arg ∈ args) :
    ∃ root ∈ q.summarise, q.Refers root arg := by
  rw [Query.groupArgs] at hargs
  split at hargs
  · cases hargs
    cases harg
  · rename_i root hroot
    split at hargs
    · cases hargs
    · rename_i args' hexpr
      cases hargs
      exact ⟨root, hroot, _, hexpr, harg⟩
    · cases hargs

theorem completes_groupByClause {config : Config} {args : List NodeRef} (hargs : q.groupArgs = .ok args)
    (h : ∀ ref ∈ q.summarise, view.CanRender q ref) : Completes (view.groupByClause config q) := by
  rw [groupByClause, hargs]
  refine (Completes.ok _).bind fun args' hsame => ?_
  cases hsame
  split
  · exact .ok _
  · refine (completes_groupItems fun arg harg => ?_).bind fun items _ => .ok _
    obtain ⟨root, hroot, hrefers⟩ := refers_of_groupArgs hargs harg
    exact (h root hroot).child hrefers

/-- The tree of a sort node has the tree of the sorted expression below it. -/
theorem CanRender.sorted (h : view.CanRender q ref) {expr : Unit → Tree} {direction : Direction}
    (htree : q.tree ref = .sort expr direction) : ∃ child, q.Refers ref child ∧ expr () = q.tree child := by
  obtain ⟨i, node, hlocate, heq, -⟩ := Query.tree_eq_treeWith h.1
  rw [htree] at heq
  cases hexpr : node.expr with
  | sort child d =>
    rw [hexpr] at heq
    cases heq
    exact ⟨child, ⟨_, Query.expr?_of_locate? hlocate, by simp [hexpr, Expr.children]⟩, rfl⟩
  | _ => rw [hexpr] at heq; cases heq

theorem exists_orderItem {table : AliasTable} (h : view.CanRender q ref) :
    ∃ sql, view.orderItem table (q.tree ref) = .ok sql := by
  obtain ⟨sql, hsql⟩ := h.render .bound
  cases htree : q.tree ref with
  | sort expr direction =>
    obtain ⟨child, hrefers, hchild⟩ := h.sorted htree
    have hsorted := h.child hrefers
    obtain ⟨simple, hsimple⟩ := exists_isSimple _ hsorted.1
    obtain ⟨valued, hvalued⟩ := exists_anyValues fun leaf hleaf => hsorted.leafValues hleaf
    obtain ⟨text, htext⟩ := hsorted.canonicalText
    rw [htree] at hsql
    rw [orderItem, hchild, hsimple]
    cases simple with
    | true => exact ⟨sql, hsql⟩
    | false =>
      cases valued with
      | true => exact ⟨sql, by rw [hvalued]; exact hsql⟩
      | false =>
        rw [hvalued, aliasOf?, htext]
        cases hname : table.find? text with
        | some name => exact ⟨_, by simp only [bind, Except.bind, pure, Except.pure, hname]; rfl⟩
        | none => exact ⟨sql, by simp only [bind, Except.bind, pure, Except.pure, hname]; exact hsql⟩
  | _ =>
    rw [htree] at hsql
    exact ⟨sql, hsql⟩

theorem exists_orderByClause {table : AliasTable} (h : ∀ ref ∈ Scope.shownOrder q, view.CanRender q ref) :
    ∃ clause, view.orderByClause q table = .ok clause := by
  rw [orderByClause]
  split
  · exact ⟨_, rfl⟩
  · rename_i hshown
    have hall : Scope.shownOrder q = q.order := by
      rw [Scope.shownOrder]
      cases hordered : q.ordered <;> cases hsimple : q.simpleAggregate <;> simp_all
    rw [hall] at h
    have hterms : ∀ ref ∈ q.order, ∃ sql, view.orderItem table (q.tree ref) = .ok sql :=
      fun ref href => exists_orderItem (h ref href)
    obtain ⟨items, hitems⟩ := Except.exists_mapM_eq_ok_iff.mpr hterms
    exact ⟨_, by rw [hitems]; rfl⟩

theorem completes_clauses {config : Config} {args : List NodeRef} (hargs : q.groupArgs = .ok args)
    (h : ∀ ref ∈ q.roots, view.CanRender q ref) : Completes (view.clauses config q) := by
  simp only [Query.roots, List.forall_mem_append, Option.mem_toList] at h
  obtain ⟨hselect, hhead, hsummarise, hhaving, horder⟩ := h
  obtain ⟨selecting, hselecting⟩ := exists_selectClause hselect
  obtain ⟨filter, hfilter⟩ := exists_whereClause hhead
  obtain ⟨having, hhaving⟩ := exists_havingClause hhaving
  rw [clauses, hselecting, hfilter, hhaving]
  refine (completes_groupByClause hargs hsummarise).bind fun found _ => ?_
  obtain ⟨grouping, table⟩ := found
  obtain ⟨ordering, hordering⟩ : ∃ clause, view.orderByClause q table = .ok clause := exists_orderByClause horder
  simp only [bind, Except.bind, hordering]
  exact .ok _

/-! ## From clauses to expressions -/

theorem isNull_of_render {style : Style} {sql : Sql} (h : view.render style (q.tree ref) = .ok sql) :
    ref.isNull = false := by
  cases hnull : ref.isNull with
  | false => rfl
  | true =>
    rw [Query.tree, Tree.unfold_of_none _ (locate?_of_isNull hnull), render] at h
    cases h

theorem isNull_of_orderItem {table : AliasTable} {sql : Sql} (h : view.orderItem table (q.tree ref) = .ok sql) :
    ref.isNull = false := by
  rcases orderItem_eq_ok h with hinside | ⟨_, _, _, _, htree, -⟩
  · exact isNull_of_render hinside
  · cases hnull : ref.isNull with
    | false => rfl
    | true =>
      rw [Query.tree, Tree.unfold_of_none _ (locate?_of_isNull hnull)] at htree
      cases htree

theorem isNull_of_groupArgs {args : List NodeRef} (hargs : q.groupArgs = .ok args) (href : ref ∈ q.summarise) :
    ref.isNull = false := by
  cases hnull : ref.isNull with
  | false => rfl
  | true =>
    rw [Query.groupArgs, Option.mem_def.mp href] at hargs
    dsimp only at hargs
    rw [Query.expr?, Query.node?, locate?_of_isNull hnull] at hargs
    cases hargs

/-- The clauses are rendered from the expressions that they show. -/
theorem shown_of_clauses {config : Config} {clauses : List Sql} {table : AliasTable}
    (h : view.clauses config q = .ok (clauses, table)) :
    (∀ ref ∈ q.select, ∃ sql, view.render .bound (q.tree ref) = .ok sql) ∧
      (∀ ref ∈ q.head.toList, ∃ sql, view.render .bound (q.tree ref) = .ok sql) ∧
      (∃ clause, view.groupByClause config q = .ok (clause, table)) ∧
      (∀ ref ∈ Scope.shownHaving q, ∃ sql, view.render .bound (q.tree ref) = .ok sql) ∧
      ∀ ref ∈ Scope.shownOrder q, ∃ sql, view.orderItem table (q.tree ref) = .ok sql := by
  rw [View.clauses] at h
  obtain ⟨selecting, hselect, h⟩ := Except.bind_eq_ok_iff.mp h
  obtain ⟨filter, hwhere, h⟩ := Except.bind_eq_ok_iff.mp h
  obtain ⟨⟨grouping, table'⟩, hgroup, h⟩ := Except.bind_eq_ok_iff.mp h
  obtain ⟨having, hhaving, h⟩ := Except.bind_eq_ok_iff.mp h
  obtain ⟨ordering, horder, h⟩ := Except.bind_eq_ok_iff.mp h
  cases h
  refine ⟨fun ref href => ?_, fun ref href => ?_, ⟨grouping, hgroup⟩, fun ref href => ?_, fun ref href => ?_⟩
  · rw [selectClause] at hselect
    split at hselect
    · rename_i hnone
      rw [hnone] at href
      cases href
    · obtain ⟨items, hitems, -⟩ := Except.bind_eq_ok_iff.mp hselect
      obtain ⟨sql, hsql⟩ := Except.exists_mapM_eq_ok_iff.mp ⟨_, hitems⟩ ref href
      rw [selectItem] at hsql
      obtain ⟨inside, hinside, -⟩ := Except.bind_eq_ok_iff.mp hsql
      exact ⟨inside, hinside⟩
  · rw [whereClause, Option.mem_toList.mp href] at hwhere
    obtain ⟨sql, hsql, -⟩ := Except.bind_eq_ok_iff.mp hwhere
    exact ⟨sql, hsql⟩
  · have hsome : q.summarise.isSome ∧ q.having = some ref := by
      rw [Scope.shownHaving] at href
      split at href
      · exact ⟨‹_›, Option.mem_toList.mp href⟩
      · cases href
    obtain ⟨root, hroot⟩ := Option.isSome_iff_exists.mp hsome.1
    rw [havingClause, hroot, hsome.2] at hhaving
    obtain ⟨sql, hsql, -⟩ := Except.bind_eq_ok_iff.mp hhaving
    exact ⟨sql, hsql⟩
  · have hshown : q.ordered = true ∧ q.simpleAggregate = false ∧ ref ∈ q.order := by
      rw [Scope.shownOrder] at href
      split at href
      · simp_all
      · cases href
    have hitems : ∃ items, q.order.mapM (fun ref => view.orderItem table (q.tree ref)) = .ok items := by
      rw [orderByClause, if_neg] at horder
      · obtain ⟨items, hitems, -⟩ := Except.bind_eq_ok_iff.mp horder
        exact ⟨items, hitems⟩
      · simp [hshown.1, hshown.2.1, List.ne_nil_of_mem hshown.2.2]
    exact Except.exists_mapM_eq_ok_iff.mp hitems ref hshown.2.2

/-- No clause is rendered from null in the place of a reference. -/
theorem isNull_of_clauses {config : Config} {clauses : List Sql} {table : AliasTable}
    (h : view.clauses config q = .ok (clauses, table)) : ∀ ref ∈ q.roots, ref.isNull = false := by
  obtain ⟨hselect, hhead, ⟨clause, hgroup⟩, hhaving, horder⟩ := shown_of_clauses h
  have hrender : ∀ ref, (∃ sql, view.render .bound (q.tree ref) = .ok sql) → ref.isNull = false :=
    fun ref ⟨_, hsql⟩ => isNull_of_render hsql
  rw [groupByClause] at hgroup
  obtain ⟨args, hargs, -⟩ := Except.bind_eq_ok_iff.mp hgroup
  simp only [Query.roots, List.forall_mem_append]
  refine ⟨fun ref href => hrender ref (hselect ref href), fun ref href => hrender ref (hhead ref href),
    fun ref href => isNull_of_groupArgs hargs (Option.mem_toList.mp href),
    fun ref href => hrender ref (hhaving ref href), fun ref href => ?_⟩
  obtain ⟨sql, hsql⟩ := horder ref href
  exact isNull_of_orderItem hsql

theorem null_of_not_anyValues {leaves : List Leaf} (h : view.anyValues leaves = .ok false) {v : Value}
    (hv : .value v ∈ leaves) : v = .null := by
  induction leaves with
  | nil => cases hv
  | cons leaf rest ih =>
    rw [anyValues] at h
    obtain ⟨found, hfound, h⟩ := Except.bind_eq_ok_iff.mp h
    cases found with
    | cons => cases h
    | nil =>
      rcases List.mem_cons.mp hv with rfl | hv
      · cases v with
        | null => rfl
        | _ => cases hfound
      · exact ih h hv

section

variable (hmark : view.dialect.mark ≠ "")

include hmark

theorem CanRender.of_render (hunbroken : (q.tree ref).Unbroken) {sql : Sql}
    (h : view.render .bound (q.tree ref) = .ok sql) : view.CanRender q ref :=
  ⟨hunbroken, (admits_of_render hmark hunbroken (Or.inl rfl) h).1⟩

/-- Where an alias stands for an expression, the expression has no literals, and its canonical text shows all. -/
theorem CanRender.of_canonicalText (hunbroken : (q.tree ref).Unbroken) {text : String}
    (h : view.canonicalText (q.tree ref) = .ok text) (hvalued : view.anyValues (q.tree ref).leaves = .ok false) :
    view.CanRender q ref := by
  rw [View.canonicalText] at h
  obtain ⟨sql, hsql, -⟩ := Except.bind_eq_ok_iff.mp h
  exact ⟨hunbroken, (admits_of_render hmark hunbroken (Or.inr fun _ hv => null_of_not_anyValues hvalued hv) hsql).1⟩

theorem CanRender.of_groupItem {config : Config} {table table' : AliasTable} (hunbroken : (q.tree ref).Unbroken)
    {sql : Sql} (h : view.groupItem config table (q.tree ref) = .ok (sql, table')) : view.CanRender q ref := by
  rcases groupItem_eq_ok h with ⟨hinside, -⟩ | ⟨_, _, htext, -, hvalued, -⟩ | ⟨_, _, inside, -, -, -, hinside, -⟩
  · exact .of_render hmark hunbroken hinside
  · exact .of_canonicalText hmark hunbroken htext hvalued
  · exact .of_render hmark hunbroken hinside

theorem CanRender.of_groupItems {config : Config} {table table' : AliasTable} {refs : List NodeRef} {parts : List Sql}
    (hunbroken : ∀ ref ∈ refs, (q.tree ref).Unbroken) (h : view.groupItems config q table refs = .ok (parts, table')) :
    ∀ ref ∈ refs, view.CanRender q ref := by
  induction refs generalizing table parts with
  | nil => exact fun _ href => by cases href
  | cons ref rest ih =>
    rw [groupItems] at h
    obtain ⟨⟨sql, table₁⟩, hsql, h⟩ := Except.bind_eq_ok_iff.mp h
    obtain ⟨⟨more, table₂⟩, hmore, h⟩ := Except.bind_eq_ok_iff.mp h
    cases h
    obtain ⟨hfirst, hrest⟩ := List.forall_mem_cons.mp hunbroken
    exact List.forall_mem_cons.mpr ⟨.of_groupItem hmark hfirst hsql, ih hrest hmore⟩

theorem CanRender.of_orderItem {table : AliasTable} (hunbroken : (q.tree ref).Unbroken) {sql : Sql}
    (h : view.orderItem table (q.tree ref) = .ok sql) : view.CanRender q ref := by
  rcases orderItem_eq_ok h with hinside | ⟨expr, direction, text, _, htree, htext, -, hvalued, -⟩
  · exact .of_render hmark hunbroken hinside
  · obtain ⟨i, node, hlocate, heq, hchildren⟩ := Query.tree_eq_treeWith hunbroken
    rw [htree] at heq
    cases hexpr : node.expr with
    | sort child d =>
      rw [hexpr] at heq hchildren
      cases heq
      have hchild := CanRender.of_canonicalText hmark (hchildren child List.mem_cons_self) htext hvalued
      refine .of_children hunbroken hlocate (by rw [hexpr]; trivial) fun other hother => ?_
      rw [hexpr] at hother
      rw [List.mem_singleton.mp hother]
      exact hchild
    | _ => rw [hexpr] at heq; cases heq

theorem CanRender.of_groupByClause {config : Config} {table : AliasTable} {clause : Option Sql}
    (hunbroken : ∀ root ∈ q.summarise, root.isNull = false → (q.tree root).Unbroken)
    (h : view.groupByClause config q = .ok (clause, table)) : ∀ root ∈ q.summarise, view.CanRender q root := by
  rw [groupByClause] at h
  obtain ⟨args, hargs, h⟩ := Except.bind_eq_ok_iff.mp h
  intro root hroot
  have hnull := isNull_of_groupArgs hargs hroot
  rw [Query.groupArgs, Option.mem_def.mp hroot] at hargs
  dsimp only at hargs
  have hroot := hunbroken root hroot hnull
  obtain ⟨i, node, hlocate, -, hchildren⟩ := Query.tree_eq_treeWith hroot
  rw [Query.expr?_of_locate? hlocate] at hargs
  cases hexpr : node.expr with
  | summarise refs =>
    rw [hexpr] at hargs hchildren
    cases hargs
    refine .of_children hroot hlocate (by rw [hexpr]; trivial) ?_
    rw [hexpr]
    split at h
    · rename_i hnone
      rw [List.isEmpty_iff.mp hnone]
      exact fun _ href => by cases href
    · obtain ⟨⟨items, table'⟩, hitems, -⟩ := Except.bind_eq_ok_iff.mp h
      exact .of_groupItems hmark hchildren hitems
  | _ => rw [hexpr] at hargs; cases hargs

/-- If the clauses were rendered, so were all expressions that they start from. -/
theorem CanRender.of_clauses {config : Config} {clauses : List Sql} {table : AliasTable}
    (hunbroken : ∀ ref ∈ q.roots, ref.isNull = false → (q.tree ref).Unbroken)
    (h : view.clauses config q = .ok (clauses, table)) : ∀ ref ∈ q.roots, view.CanRender q ref := by
  have hnull := isNull_of_clauses h
  obtain ⟨hselect, hhead, ⟨clause, hgroup⟩, hhaving, horder⟩ := shown_of_clauses h
  have hunbroken' : ∀ ref ∈ q.roots, (q.tree ref).Unbroken := fun ref href => hunbroken ref href (hnull ref href)
  have hrender : ∀ ref ∈ q.roots, (∃ sql, view.render .bound (q.tree ref) = .ok sql) → view.CanRender q ref :=
    fun ref href ⟨_, hsql⟩ => .of_render hmark (hunbroken' ref href) hsql
  simp only [Query.roots, List.forall_mem_append] at hunbroken hunbroken' hrender ⊢
  refine ⟨fun ref href => hrender.1 ref href (hselect ref href), fun ref href => hrender.2.1 ref href (hhead ref href),
    fun ref href => ?_, fun ref href => hrender.2.2.2.1 ref href (hhaving ref href), fun ref href => ?_⟩
  · exact .of_groupByClause hmark (fun root hroot => hunbroken.2.2.1 root (Option.mem_toList.mpr hroot)) hgroup ref
      (Option.mem_toList.mp href)
  · obtain ⟨sql, hsql⟩ := horder ref href
    exact .of_orderItem hmark (hunbroken'.2.2.2.2 ref href) hsql

end

end View

end ArenaSql
