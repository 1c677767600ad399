import ArenaSql.Proofs.Stocked

/-!
# Aliases and their uses

An alias is given to the text of an argument of the grouping where that text first comes up. A later argument with the
text is the alias, and so is a term of the ordering that sorts by it, unless there are values to be bound again. So
every alias is introduced once, and before it is used.
-/

namespace ArenaSql

/-- The clause with some items, which is left out if there are none. -/
def Sql.clause? (keyword : String) (items : List Sql) : Option Sql :=
  if items.isEmpty then none else some (plain keyword ++ joined ", " items)

/-- A fragment with the alias that was asked for, if any. -/
def Sql.labelled (sql : Sql) : Option String → Sql
  | some name => sql ++ plain (" AS " ++ name)
  | none => sql

/-- What the clauses of a statement hold. -/
structure Layout where
  selected : List Sql
  filter : Option Sql
  grouping : List Sql
  having : Option Sql
  ordering : List Sql
  limit : Option Sql

namespace Layout

/-- The clauses of the layout. A filter that has no text is left out. -/
def clauses (layout : Layout) (sources : Sources) : List Sql :=
  let joined := sources.joins.map fun join =>
    join.type.text ++ " JOIN " ++ join.table ++ " ON " ++ sources.qualifier ++ "." ++ join.fromCol ++ " = " ++
      join.table ++ "." ++ join.toCol
  (Sql.clause? "SELECT " layout.selected).getD (Sql.plain "SELECT *") ::
    Sql.plain ("FROM " ++ " ".intercalate (sources.primaryText :: joined)) ::
    [(layout.filter.filter (!·.isBlank)).map (Sql.plain "WHERE " ++ ·), Sql.clause? "GROUP BY " layout.grouping,
      layout.having.map (Sql.plain "HAVING " ++ ·), Sql.clause? "ORDER BY " layout.ordering, layout.limit].filterMap id

/-- What is written for expressions. A filter that is left out has no text. -/
def items (layout : Layout) : List Sql :=
  layout.selected ++ (layout.filter.toList ++ (layout.grouping ++ (layout.having.toList ++ layout.ordering)))

end Layout

namespace Scope

open DraftM

variable {scope : Scope} {d e e' : Draft} {args before rest : List NodeRef} {text name : String}

/-! ## What is to be shown

All texts are read in one draft, which this does not change. -/

/-- The argument is not simple and has the text. -/
def Bears (scope : Scope) (d : Draft) (text : String) (ref : NodeRef) : Prop :=
  (d.query.tree ref).isSimple = .ok false ∧ (scope.canonicalText (d.query.tree ref)).run d = (.ok text, d)

/-- The argument at the position is the first that bears the text. -/
def Introduces (scope : Scope) (d : Draft) (args : List NodeRef) (k : Nat) (text : String) : Prop :=
  (∃ ref, args[k]? = some ref ∧ scope.Bears d text ref) ∧ ∀ ref ∈ args.take k, ¬ scope.Bears d text ref

/-- How the argument at a position is shown. -/
inductive GroupItem (scope : Scope) (d : Draft) (table : AliasTable) (args : List NodeRef) (k : Nat) (t : Tree) :
    Sql → Prop where
  | simple {sql : Sql} (hsimple : t.isSimple = .ok true) (hsql : scope.WritesOut d t sql) :
    GroupItem scope d table args k t sql
  | introduces {text name : String} {sql : Sql} (hfirst : scope.Introduces d args k text)
    (hname : table.find? text = some name) (hsql : scope.WritesOut d t sql) :
    GroupItem scope d table args k t (sql ++ Sql.plain (" AS " ++ name))
  | bare {j : Nat} {text name : String} (hj : j < k) (hfirst : scope.Introduces d args j text)
    (hsimple : t.isSimple = .ok false) (htext : (scope.canonicalText t).run d = (.ok text, d))
    (hname : table.find? text = some name) (hvalues : (scope.hasValues t).run d = (.ok false, d)) :
    GroupItem scope d table args k t (Sql.plain name)
  | again {j : Nat} {text : String} {sql : Sql} (hj : j < k) (hfirst : scope.Introduces d args j text)
    (hsimple : t.isSimple = .ok false) (htext : (scope.canonicalText t).run d = (.ok text, d))
    (hvalues : (scope.hasValues t).run d = (.ok true, d)) (hsql : scope.WritesOut d t sql) :
    GroupItem scope d table args k t sql

/-- The term sorts by an expression that is not simple and has no values, and an argument introduces the text. -/
def SortsByAlias (scope : Scope) (d : Draft) (args : List NodeRef) (expr : Tree) (text : String) : Prop :=
  expr.isSimple = .ok false ∧ (scope.hasValues expr).run d = (.ok false, d) ∧
    (scope.canonicalText expr).run d = (.ok text, d) ∧ ∃ k, scope.Introduces d args k text

/-- How a term of the ordering is shown. -/
inductive OrderItem (scope : Scope) (d : Draft) (args : List NodeRef) : Tree → Sql → Prop where
  | bare {expr : Unit → Tree} {direction : Direction} {text name : String}
    (hsorts : scope.SortsByAlias d args (expr ()) text) (hname : d.aliases.find? text = some name) :
    OrderItem scope d args (.sort expr direction) (Sql.plain (name ++ " " ++ direction.text))
  | full {t : Tree} {sql : Sql} (hother : ∀ expr direction text, t = .sort expr direction →
      ¬ scope.SortsByAlias d args (expr ()) text) (hsql : scope.WritesOut d t sql) : OrderItem scope d args t sql

/-- The layout in which a statement ends. What is selected, the filter and the condition on groups are written out, and
the arguments of the grouping and the terms of the ordering are shown as their texts demand. -/
structure Lays (scope : Scope) (d : Draft) (args : List NodeRef) (layout : Layout) : Prop where
  selected : List.Forall₂ (fun ref item => ∃ sql, scope.WritesOut d (d.query.tree ref) sql ∧
    item = sql.labelled ((d.query.node? ref).bind (·.aliasName.filter (!·.isEmpty)))) d.query.select layout.selected
  filter : List.Forall₂ (fun ref sql => scope.WritesOut d (d.query.tree ref) sql) d.query.head.toList
    layout.filter.toList
  length_grouping : layout.grouping.length = args.length
  grouping : ∀ k ref, args[k]? = some ref → ∃ sql, layout.grouping[k]? = some sql ∧
    scope.GroupItem d d.aliases args k (d.query.tree ref) sql
  having : List.Forall₂ (fun ref sql => scope.WritesOut d (d.query.tree ref) sql) (shownHaving d.query)
    layout.having.toList
  ordering : List.Forall₂ (fun ref sql => scope.OrderItem d args (d.query.tree ref) sql) (shownOrder d.query)
    layout.ordering
  limit : layout.limit = (d.query.limit? scope.config.countOption).map Sql.plain

/-! ## First arguments -/

theorem exists_introduces (h : ∃ ref ∈ args, scope.Bears d text ref) :
    ∃ k < args.length, scope.Introduces d args k text := by
  induction args with
  | nil =>
    obtain ⟨_, hmem, -⟩ := h
    cases hmem
  | cons ref rest ih =>
    by_cases hbears : scope.Bears d text ref
    · exact ⟨0, Nat.succ_pos _, ⟨ref, rfl, hbears⟩, fun _ hmem => by cases hmem⟩
    · obtain ⟨other, hother, hbears'⟩ := h
      have hrest : other ∈ rest := by
        refine (List.mem_cons.mp hother).resolve_left ?_
        rintro rfl
        exact hbears hbears'
      obtain ⟨k, hk, hfirst, hnone⟩ := ih ⟨other, hrest, hbears'⟩
      exact ⟨k + 1, Nat.succ_lt_succ hk, hfirst, List.forall_mem_cons.mpr ⟨hbears, hnone⟩⟩

namespace Introduces

variable {j k : Nat}

theorem lt_length (h : scope.Introduces d args k text) : k < args.length := by
  obtain ⟨⟨ref, hk, -⟩, -⟩ := h
  exact (List.getElem?_eq_some_iff.mp hk).1

theorem append (h : scope.Introduces d before k text) (rest : List NodeRef) :
    scope.Introduces d (before ++ rest) k text := by
  have hk := h.lt_length
  rw [Introduces, List.getElem?_append_left hk, List.take_append_of_le_length (Nat.le_of_lt hk)]
  exact h

theorem not_lt (hj : scope.Introduces d args j text) (hk : scope.Introduces d args k text) : ¬ j < k := by
  intro hlt
  obtain ⟨⟨ref, href, hbears⟩, -⟩ := hj
  refine hk.2 ref (List.mem_of_getElem? (i := j) ?_) hbears
  rw [List.getElem?_take_of_lt hlt, href]

theorem unique (hj : scope.Introduces d args j text) (hk : scope.Introduces d args k text) : j = k :=
  Nat.le_antisymm (Nat.le_of_not_lt (hk.not_lt hj)) (Nat.le_of_not_lt (hj.not_lt hk))

end Introduces

/-! ## The grouping -/

/-- Texts are read in the same way in drafts that agree. -/
theorem run_of_agrees {α : Type} {work : DraftM α} (h : work.Replays) (hagrees : d.Agrees e) {a : α}
    (hrun : work.run e = (.ok a, e)) : work.run d = (.ok a, d) :=
  h.again hrun d hagrees.symm.grows

theorem Bears.unique {ref : NodeRef} {text' : String} (h : scope.Bears d text ref) (h' : scope.Bears d text' ref) :
    text = text' := by
  have hsame := h.2.symm.trans h'.2
  cases hsame
  rfl

/-- The table has aliases for the texts that the arguments bear and no others, different ones for different texts. -/
structure Names (scope : Scope) (d : Draft) (args : List NodeRef) (table : AliasTable) : Prop where
  listed : ∀ name ∈ table.aliases, ∃ text, table.find? text = some name
  texts : ∀ text, (table.find? text).isSome ↔ ∃ ref ∈ args, scope.Bears d text ref
  distinct : ∀ text text' name, table.find? text = some name → table.find? text' = some name → text = text'

theorem Names.nil (scope : Scope) (d : Draft) : scope.Names d [] {} := by
  refine ⟨fun name h => (by cases h), fun text => ?_, fun text text' name h => by cases h⟩
  simp [AliasTable.find?]

theorem Names.exists_introduces {table : AliasTable} (h : scope.Names d args table)
    (hname : table.find? text = some name) :
    ∃ k < args.length, scope.Introduces d args k text :=
  Scope.exists_introduces ((h.texts text).mp (by rw [hname]; rfl))

/-- Nothing is to be added for an argument that bears no new text. -/
theorem Names.snoc {table : AliasTable} {ref : NodeRef} (h : scope.Names d before table)
    (hknown : ∀ text, scope.Bears d text ref → (table.find? text).isSome) : scope.Names d (before ++ [ref]) table := by
  refine ⟨h.listed, fun text => ?_, h.distinct⟩
  simp only [List.mem_append, List.mem_singleton, or_and_right, exists_or, exists_eq_left, ← h.texts]
  exact ⟨Or.inl, fun hor => hor.elim id (hknown text)⟩

theorem Names.snoc_insert {table : AliasTable} {ref : NodeRef} (h : scope.Names d before table)
    (hbears : scope.Bears d text ref) (hnone : table.find? text = none) (hfresh : name ∉ table.aliases) :
    scope.Names d (before ++ [ref]) (table.insert text name) := by
  have hold : ∀ text' name', text' ≠ text → (table.insert text name).find? text' = some name' → name' ≠ name := by
    intro text' name' hne hfind heq
    rw [AliasTable.find?_insert_of_ne _ _ hne] at hfind
    exact hfresh (heq ▸ AliasTable.mem_aliases_of_find? hfind)
  constructor
  · intro name' hname'
    obtain rfl | hname' := AliasTable.mem_aliases_insert hname'
    · exact ⟨text, AliasTable.find?_insert_self ..⟩
    · obtain ⟨text', htext'⟩ := h.listed name' hname'
      refine ⟨text', ?_⟩
      rw [AliasTable.find?_insert_of_ne]
      · exact htext'
      · rintro rfl
        cases hnone.symm.trans htext'
  · intro text'
    simp only [List.mem_append, List.mem_singleton, or_and_right, exists_or, exists_eq_left, ← h.texts]
    by_cases hsame : text' = text
    · subst hsame
      simp [AliasTable.find?_insert_self, hbears]
    · rw [AliasTable.find?_insert_of_ne _ _ hsame]
      exact ⟨Or.inl, fun hor => hor.elim id fun hbears' => absurd (hbears'.unique hbears) hsame⟩
  · intro text₁ text₂ name' h₁ h₂
    by_cases hsame₁ : text₁ = text
    · by_cases hsame₂ : text₂ = text
      · rw [hsame₁, hsame₂]
      · rw [hsame₁, AliasTable.find?_insert_self] at h₁
        exact absurd (Option.some.inj h₁).symm (hold text₂ name' hsame₂ h₂)
    · by_cases hsame₂ : text₂ = text
      · rw [hsame₂, AliasTable.find?_insert_self] at h₂
        exact absurd (Option.some.inj h₂).symm (hold text₁ name' hsame₁ h₁)
      · rw [AliasTable.find?_insert_of_ne _ _ hsame₁] at h₁
        rw [AliasTable.find?_insert_of_ne _ _ hsame₂] at h₂
        exact h.distinct text₁ text₂ name' h₁ h₂

/-- An argument is shown as it should be, and the table goes on to have aliases for the texts so far. -/
theorem groupItem_shows (hd : d.Stocked) {ref : NodeRef} {sql : Sql}
    (hargs : d.query.groupArgs = .ok (before ++ ref :: rest)) (hagrees : d.Agrees e)
    (hnames : scope.Names d before e.aliases) (h : (scope.groupItem ref).run e = (.ok sql, e')) :
    d.Agrees e' ∧ scope.Names d (before ++ [ref]) e'.aliases ∧
      (∀ text name, e.aliases.find? text = some name → e'.aliases.find? text = some name) ∧
      scope.GroupItem d e'.aliases (before ++ ref :: rest) before.length (d.query.tree ref) sql := by
  have hleaves : ∀ i, .subquery i ∈ (d.query.tree ref).leaves → (d.statement? i).isSome :=
    fun i => hd.of_arg hargs (List.mem_append_right _ List.mem_cons_self)
  have hrender : ∀ {e₁ : Draft} {inside : Sql}, (scope.render .bound (d.query.tree ref)).run e₁ = (.ok inside, e') →
      d.Agrees e₁ → d.Agrees e' ∧ e'.aliases = e₁.aliases ∧ scope.WritesOut d (d.query.tree ref) inside := by
    intro e₁ inside hrun he₁
    have hkeeps := keeps_render (scope.invariant_agrees hd (· = e₁.aliases)) .bound _ hleaves
    obtain ⟨he', haliases⟩ := hkeeps.of_ok ⟨he₁, rfl⟩ hrun
    exact ⟨he', haliases, writesOut_of_run he₁ hrun⟩
  -- an argument that bears a text with an alias comes behind the one that introduced it
  have hrepeats : ∀ {text name : String}, scope.Bears d text ref → e.aliases.find? text = some name →
      scope.Names d (before ++ [ref]) e.aliases ∧
        ∃ j < before.length, scope.Introduces d (before ++ ref :: rest) j text := by
    intro text name hbears hname
    obtain ⟨j, hj, hfirst⟩ := hnames.exists_introduces hname
    refine ⟨hnames.snoc fun text' hbears' => ?_, j, hj, hfirst.append _⟩
    rw [hbears'.unique hbears, hname]
    rfl
  have hgroups := groups_of_run (scope.invariant_agrees hd (· = e.aliases)) (by rwa [hagrees.query]) ⟨hagrees, rfl⟩ h
  rw [hagrees.query] at hgroups
  cases hgroups with
  | simple hsimple he hsql =>
    obtain ⟨he', haliases, hwrites⟩ := hrender hsql he.1
    rw [haliases, he.2]
    refine ⟨he', hnames.snoc fun text hbears => ?_, fun _ _ => id, .simple hsimple hwrites⟩
    cases hsimple.symm.trans hbears.1
  | @introduces _ _ text name inside hsimple he htext hnone hfresh hsql =>
    obtain ⟨he', haliases, hwrites⟩ := hrender hsql ⟨he.1.query, he.1.statements⟩
    have hbears : scope.Bears d text ref := ⟨hsimple, run_of_agrees (replays_canonicalText scope _) he.1 htext⟩
    rw [he.2] at hnone hfresh
    have hfirst : scope.Introduces d (before ++ ref :: rest) before.length text := by
      refine ⟨⟨ref, by simp, hbears⟩, fun other hother hbears' => ?_⟩
      rw [List.take_left] at hother
      have hsome := (hnames.texts text).mpr ⟨other, hother, hbears'⟩
      rw [hnone] at hsome
      cases hsome
    rw [haliases, he.2]
    refine ⟨he', hnames.snoc_insert hbears hnone hfresh, fun text' name' hfind => ?_,
      .introduces hfirst (AliasTable.find?_insert_self ..) hwrites⟩
    rw [AliasTable.find?_insert_of_ne]
    · exact hfind
    · rintro rfl
      rw [hnone] at hfind
      cases hfind
  | bare hsimple he htext hname hvalues =>
    have htext := run_of_agrees (replays_canonicalText scope _) he.1 htext
    rw [he.2] at hname ⊢
    obtain ⟨hnames', j, hj, hfirst⟩ := hrepeats ⟨hsimple, htext⟩ hname
    refine ⟨he.1, hnames', fun _ _ => id, .bare hj hfirst hsimple htext hname ?_⟩
    exact run_of_agrees (replays_hasValues scope _) he.1 hvalues
  | again hsimple he htext hname hvalues hsql =>
    have htext := run_of_agrees (replays_canonicalText scope _) he.1 htext
    obtain ⟨he', haliases, hwrites⟩ := hrender hsql he.1
    rw [he.2] at hname haliases
    rw [haliases]
    obtain ⟨hnames', j, hj, hfirst⟩ := hrepeats ⟨hsimple, htext⟩ hname
    refine ⟨he', hnames', fun _ _ => id, .again hj hfirst hsimple htext ?_ hwrites⟩
    exact run_of_agrees (replays_hasValues scope _) he.1 hvalues

theorem GroupItem.mono {table table' : AliasTable} {k : Nat} {t : Tree} {sql : Sql}
    (h : scope.GroupItem d table args k t sql)
    (hle : ∀ text name, table.find? text = some name → table'.find? text = some name) :
    scope.GroupItem d table' args k t sql := by
  cases h with
  | simple hsimple hsql => exact .simple hsimple hsql
  | introduces hfirst hname hsql => exact .introduces hfirst (hle _ _ hname) hsql
  | bare hj hfirst hsimple htext hname hvalues => exact .bare hj hfirst hsimple htext (hle _ _ hname) hvalues
  | again hj hfirst hsimple htext hvalues hsql => exact .again hj hfirst hsimple htext hvalues hsql

/-- All arguments are shown as they should be. -/
theorem groupItems_show (hd : d.Stocked) {items : List Sql} (hargs : d.query.groupArgs = .ok (before ++ rest))
    (hagrees : d.Agrees e) (hnames : scope.Names d before e.aliases)
    (h : (scope.groupItems rest).run e = (.ok items, e')) :
    d.Agrees e' ∧ scope.Names d (before ++ rest) e'.aliases ∧
      (∀ text name, e.aliases.find? text = some name → e'.aliases.find? text = some name) ∧
      items.length = rest.length ∧
      ∀ k ref, rest[k]? = some ref → ∃ sql, items[k]? = some sql ∧
        scope.GroupItem d e'.aliases (before ++ rest) (before.length + k) (d.query.tree ref) sql := by
  induction rest generalizing before e items with
  | nil =>
    cases h
    exact ⟨hagrees, by rwa [List.append_nil], fun _ _ => id, rfl, fun k ref hk => by simp at hk⟩
  | cons ref rest ih =>
    obtain ⟨sql, e₁, hsql, h⟩ := run_bind_eq_ok_iff.mp h
    obtain ⟨more, _, hmore, hlast⟩ := run_bind_eq_ok_iff.mp h
    cases hlast
    obtain ⟨hagrees₁, hnames₁, hle₁, hitem⟩ := groupItem_shows hd hargs hagrees hnames hsql
    rw [List.append_cons] at hargs
    obtain ⟨hagrees', hnames', hle, hlength, hitems⟩ := ih hargs hagrees₁ hnames₁ hmore
    rw [← List.append_cons] at hnames' hitems
    refine ⟨hagrees', hnames', fun text name hfind => hle text name (hle₁ text name hfind), ?_, fun k other hk => ?_⟩
    · rw [List.length_cons, List.length_cons, hlength]
    · cases k with
      | zero =>
        cases hk
        exact ⟨sql, rfl, hitem.mono hle⟩
      | succ k =>
        obtain ⟨sql', hsql', hitem'⟩ := hitems k other hk
        refine ⟨sql', hsql', ?_⟩
        rw [List.length_append, List.length_singleton, Nat.add_assoc, Nat.add_comm 1 k] at hitem'
        exact hitem'

/-! ## The ordering -/

theorem orderItem_shows (hd : d.Stocked) (hnames : scope.Names d args d.aliases) {ref : NodeRef} {sql : Sql}
    (href : ref ∈ d.query.roots) (hagrees : d.Agrees e) (haliases : e.aliases = d.aliases)
    (h : (scope.orderItem ref).run e = (.ok sql, e')) : scope.OrderItem d args (d.query.tree ref) sql := by
  have hleaves : ∀ i, .subquery i ∈ (d.query.tree ref).leaves → (d.statement? i).isSome := fun i => hd.of_root href
  have hinvariant := scope.invariant_agrees hd (· = d.aliases)
  have horders := orders_of_run hinvariant (by rwa [hagrees.query]) ⟨hagrees, haliases⟩ h
  rw [hagrees.query] at horders
  generalize d.query.tree ref = t at horders
  cases horders with
  | bare hsimple he hvalues htext hname =>
    rw [he.2] at hname
    obtain ⟨k, -, hfirst⟩ := hnames.exists_introduces hname
    exact .bare ⟨hsimple, run_of_agrees (replays_hasValues scope _) he.1 hvalues,
      run_of_agrees (replays_canonicalText scope _) he.1 htext, k, hfirst⟩ hname
  | full he hsql hother =>
    refine .full ?_ (writesOut_of_run he.1 hsql)
    rintro expr direction text ht ⟨hsimple, hvalues, htext, k, ⟨first, hfirst, hbears⟩, -⟩
    obtain hsimple' | hvalues' | ⟨text', htext', hnone⟩ := hother expr direction ht
    · cases hsimple.symm.trans hsimple'
    · cases hvalues.symm.trans (run_of_agrees (replays_hasValues scope _) he.1 hvalues')
    · cases htext.symm.trans (run_of_agrees (replays_canonicalText scope _) he.1 htext')
      have hsome := (hnames.texts text).mpr ⟨first, List.mem_of_getElem? hfirst, hbears⟩
      rw [← he.2, hnone] at hsome
      cases hsome

theorem orderItems_show (hd : d.Stocked) (hnames : scope.Names d args d.aliases) {refs : List NodeRef}
    {items : List Sql} (hrefs : ∀ ref ∈ refs, ref ∈ d.query.roots) (hagrees : d.Agrees e)
    (haliases : e.aliases = d.aliases)
    (h : (scope.orderItems refs).run e = (.ok items, e')) :
    List.Forall₂ (fun ref sql => scope.OrderItem d args (d.query.tree ref) sql) refs items := by
  induction refs generalizing e items with
  | nil =>
    cases h
    exact .nil
  | cons ref rest ih =>
    obtain ⟨sql, e₁, hsql, h⟩ := run_bind_eq_ok_iff.mp h
    obtain ⟨more, _, hmore, hlast⟩ := run_bind_eq_ok_iff.mp h
    cases hlast
    obtain ⟨href, hrest⟩ := List.forall_mem_cons.mp hrefs
    have hinvariant := scope.invariant_agrees hd (· = d.aliases)
    have hkeeps := keeps_orderItem hinvariant ref (hinvariant.roots d ⟨.refl d, rfl⟩ ref href)
    obtain ⟨hagrees₁, haliases₁⟩ := hkeeps.of_ok ⟨hagrees, haliases⟩ hsql
    exact .cons (orderItem_shows hd hnames href hagrees haliases hsql) (ih hrest hagrees₁ haliases₁ hmore)

/-! ## Clauses -/

theorem groupByClause_shows (hd : d.Stocked) {clause : Option Sql} (hargs : d.query.groupArgs = .ok args)
    (hagrees : d.Agrees e) (haliases : e.aliases = {}) (h : scope.groupByClause.run e = (.ok clause, e')) :
    ∃ items, clause = Sql.clause? "GROUP BY " items ∧ d.Agrees e' ∧ scope.Names d args e'.aliases ∧
      items.length = args.length ∧ ∀ k ref, args[k]? = some ref → ∃ sql, items[k]? = some sql ∧
        scope.GroupItem d e'.aliases args k (d.query.tree ref) sql := by
  have hnames : scope.Names d [] e.aliases := haliases ▸ .nil scope d
  rw [run_groupByClause, hagrees.query, hargs] at h
  cases args with
  | nil =>
    cases h
    exact ⟨[], rfl, hagrees, hnames, rfl, fun k ref hk => by simp at hk⟩
  | cons first rest =>
    have hargs : d.query.groupArgs = .ok ([] ++ first :: rest) := hargs
    obtain ⟨items, _, hitems, hlast⟩ := run_bind_eq_ok_iff.mp h
    cases hlast
    obtain ⟨hagrees', hnames', -, hlength, hshow⟩ := groupItems_show hd hargs hagrees hnames hitems
    simp only [List.length_nil, Nat.zero_add, List.nil_append] at hshow
    refine ⟨items, ?_, hagrees', hnames', hlength, hshow⟩
    cases items with
    | nil => cases hlength
    | cons => rfl

theorem orderByClause_shows (hd : d.Stocked) (hnames : scope.Names d args d.aliases) {clause : Option Sql}
    (hagrees : d.Agrees e) (haliases : e.aliases = d.aliases) (h : scope.orderByClause.run e = (.ok clause, e')) :
    ∃ terms, clause = Sql.clause? "ORDER BY " terms ∧
      List.Forall₂ (fun ref sql => scope.OrderItem d args (d.query.tree ref) sql) (shownOrder d.query) terms := by
  obtain ⟨_, _, hget, h⟩ := run_bind_eq_ok_iff.mp h
  cases hget
  rw [hagrees.query] at h
  dsimp only at h
  split at h
  · rename_i hhidden
    cases h
    have hnone : shownOrder d.query = [] := by
      simp only [Bool.or_eq_true, Bool.not_eq_true', List.isEmpty_iff] at hhidden
      rw [shownOrder]
      rcases hhidden with (haggregate | hordered) | horder
      · simp [haggregate]
      · simp [hordered]
      · simp [horder]
    exact ⟨[], rfl, hnone ▸ .nil⟩
  · rename_i hshown
    simp only [Bool.or_eq_true, not_or, Bool.not_eq_true, Bool.not_eq_false', List.isEmpty_eq_false_iff] at hshown
    have horder : shownOrder d.query = d.query.order := by simp [shownOrder, hshown.1.1, hshown.1.2]
    obtain ⟨terms, _, hterms, hlast⟩ := run_bind_eq_ok_iff.mp h
    cases hlast
    have hroots : ∀ ref ∈ d.query.order, ref ∈ d.query.roots := by
      intro ref href
      rw [← horder] at href
      simp [Query.roots, href]
    have hshow := orderItems_show hd hnames hroots hagrees haliases hterms
    refine ⟨terms, ?_, horder ▸ hshow⟩
    cases terms with
    | nil => exact absurd (List.forall₂_nil_right_iff.mp hshow) hshown.2
    | cons => rfl

/-- From a stocked draft, an expression of a clause is written out, and aliases stay as they are. -/
theorem render_shows (hd : d.Stocked) {ref : NodeRef} {sql : Sql} (href : ref ∈ d.query.roots) (hagrees : d.Agrees e)
    (h : (scope.render .bound (d.query.tree ref)).run e = (.ok sql, e')) :
    d.Agrees e' ∧ scope.WritesOut d (d.query.tree ref) sql := by
  have hkeeps := keeps_render (scope.invariant_agrees hd fun _ => True) .bound _ fun i => hd.of_root href
  exact ⟨(hkeeps.of_ok ⟨hagrees, trivial⟩ h).1, writesOut_of_run hagrees h⟩

theorem selectItems_show (hd : d.Stocked) {refs : List NodeRef} {items : List Sql}
    (hrefs : ∀ ref ∈ refs, ref ∈ d.query.roots) (hagrees : d.Agrees e)
    (h : (scope.selectItems refs).run e = (.ok items, e')) :
    List.Forall₂ (fun ref item => ∃ sql, scope.WritesOut d (d.query.tree ref) sql ∧
      item = sql.labelled ((d.query.node? ref).bind (·.aliasName.filter (!·.isEmpty)))) refs items := by
  induction refs generalizing e items with
  | nil =>
    cases h
    exact .nil
  | cons ref rest ih =>
    obtain ⟨item, e₁, hitem, h⟩ := run_bind_eq_ok_iff.mp h
    obtain ⟨more, _, hmore, hlast⟩ := run_bind_eq_ok_iff.mp h
    cases hlast
    obtain ⟨href, hrest⟩ := List.forall_mem_cons.mp hrefs
    obtain ⟨_, _, htree, hitem⟩ := run_bind_eq_ok_iff.mp hitem
    cases htree
    obtain ⟨sql, e₂, hsql, hitem⟩ := run_bind_eq_ok_iff.mp hitem
    obtain ⟨_, _, hget, hitem⟩ := run_bind_eq_ok_iff.mp hitem
    cases hget
    rw [hagrees.query] at hsql
    obtain ⟨hagrees₂, hwrites⟩ := render_shows hd href hagrees hsql
    rw [hagrees₂.query] at hitem
    have hlabelled : item = sql.labelled ((d.query.node? ref).bind (·.aliasName.filter (!·.isEmpty))) ∧ e₁ = e₂ := by
      split at hitem
      · rename_i name hname
        cases hitem
        rw [hname]
        exact ⟨rfl, rfl⟩
      · rename_i hname
        cases hitem
        rw [hname]
        exact ⟨rfl, rfl⟩
    obtain ⟨hlabel, rfl⟩ := hlabelled
    exact .cons ⟨sql, hwrites, hlabel⟩ (ih hrest hagrees₂ hmore)

theorem selectClause_shows (hd : d.Stocked) {clause : Sql} (hagrees : d.Agrees e)
    (h : scope.selectClause.run e = (.ok clause, e')) :
    ∃ items, clause = (Sql.clause? "SELECT " items).getD (Sql.plain "SELECT *") ∧
      List.Forall₂ (fun ref item => ∃ sql, scope.WritesOut d (d.query.tree ref) sql ∧
        item = sql.labelled ((d.query.node? ref).bind (·.aliasName.filter (!·.isEmpty)))) d.query.select items := by
  obtain ⟨_, _, hget, h⟩ := run_bind_eq_ok_iff.mp h
  cases hget
  rw [hagrees.query] at h
  have hroots : ∀ ref ∈ d.query.select, ref ∈ d.query.roots := fun ref href => by simp [Query.roots, href]
  cases hselect : d.query.select with
  | nil =>
    rw [hselect] at h
    cases h
    exact ⟨[], rfl, .nil⟩
  | cons first rest =>
    rw [hselect] at h hroots
    obtain ⟨items, _, hitems, hlast⟩ := run_bind_eq_ok_iff.mp h
    cases hlast
    have hshow := selectItems_show hd hroots hagrees hitems
    refine ⟨items, ?_, hshow⟩
    cases hshow
    rfl

theorem whereClause_shows (hd : d.Stocked) {clause : Option Sql} (hagrees : d.Agrees e)
    (h : scope.whereClause.run e = (.ok clause, e')) :
    ∃ filter : Option Sql, clause = (filter.filter (!·.isBlank)).map (Sql.plain "WHERE " ++ ·) ∧
      List.Forall₂ (fun ref sql => scope.WritesOut d (d.query.tree ref) sql) d.query.head.toList filter.toList := by
  obtain ⟨_, _, hget, h⟩ := run_bind_eq_ok_iff.mp h
  cases hget
  rw [hagrees.query] at h
  cases hhead : d.query.head with
  | none =>
    rw [hhead] at h
    cases h
    exact ⟨none, rfl, .nil⟩
  | some root =>
    rw [hhead] at h
    obtain ⟨_, _, htree, h⟩ := run_bind_eq_ok_iff.mp h
    cases htree
    obtain ⟨sql, _, hsql, h⟩ := run_bind_eq_ok_iff.mp h
    rw [hagrees.query] at hsql
    have hshow := (render_shows hd (by simp [Query.roots, hhead]) hagrees hsql).2
    refine ⟨some sql, ?_, .cons hshow .nil⟩
    cases hblank : sql.isBlank with
    | true => rw [hblank] at h; cases h; simp [Option.filter, hblank]
    | false => rw [hblank] at h; cases h; simp [Option.filter, hblank]

theorem havingClause_shows (hd : d.Stocked) {clause : Option Sql} (hagrees : d.Agrees e)
    (h : scope.havingClause.run e = (.ok clause, e')) :
    ∃ having : Option Sql, clause = having.map (Sql.plain "HAVING " ++ ·) ∧
      List.Forall₂ (fun ref sql => scope.WritesOut d (d.query.tree ref) sql) (shownHaving d.query) having.toList := by
  obtain ⟨_, _, hget, h⟩ := run_bind_eq_ok_iff.mp h
  cases hget
  rw [hagrees.query] at h
  have hroots : ∀ ref ∈ shownHaving d.query, ref ∈ d.query.roots := fun ref href => by simp [Query.roots, href]
  rw [shownHaving] at hroots ⊢
  cases hgrouped : d.query.summarise with
  | none =>
    simp only [hgrouped] at h
    cases h
    exact ⟨none, rfl, .nil⟩
  | some grouping =>
    cases hhaving : d.query.having with
    | none =>
      simp only [hgrouped, hhaving] at h
      cases h
      exact ⟨none, rfl, .nil⟩
    | some root =>
      simp only [hgrouped, hhaving] at h
      obtain ⟨_, _, htree, h⟩ := run_bind_eq_ok_iff.mp h
      cases htree
      obtain ⟨sql, _, hsql, hlast⟩ := run_bind_eq_ok_iff.mp h
      cases hlast
      rw [hagrees.query] at hsql
      have hshow := (render_shows hd (hroots root (by simp [hgrouped, hhaving])) hagrees hsql).2
      exact ⟨some sql, rfl, .cons hshow .nil⟩

/-- The clauses make up a layout. All drafts from the first one on agree with the last, in which the texts are read. -/
theorem clauses_lay {d₁ : Draft} {clauses : List Sql} (hstocked : d₁.Stocked) (haliases : d₁.aliases = {})
    (hargs : d₁.query.groupArgs = .ok args) (h : scope.clauses.run d₁ = (.ok clauses, d)) :
    d.Stocked ∧ scope.Names d args d.aliases ∧
      ∃ layout, clauses = layout.clauses d.query.tables ∧ scope.Lays d args layout := by
  have hagrees : d₁.Agrees d :=
    ((keeps_clauses (scope.invariant_agrees hstocked fun _ => True)
      fun _ _ he => ⟨⟨he.1.query, he.1.statements⟩, trivial⟩).of_ok ⟨.refl d₁, trivial⟩ h).1
  have hd : d.Stocked := hstocked.of_agrees hagrees
  have hkept := fun table : AliasTable => scope.invariant_agrees hd (· = table)
  rw [← hagrees.query] at hargs
  obtain ⟨selecting, e₁, hselect, hrun⟩ := run_bind_eq_ok_iff.mp h
  obtain ⟨sources, e₂, hfrom, hrun⟩ := run_bind_eq_ok_iff.mp hrun
  obtain ⟨filter, e₃, hwhere, hrun⟩ := run_bind_eq_ok_iff.mp hrun
  obtain ⟨grouping, e₄, hgroup, hrun⟩ := run_bind_eq_ok_iff.mp hrun
  obtain ⟨having, e₅, hhaving, hrun⟩ := run_bind_eq_ok_iff.mp hrun
  obtain ⟨ordering, e₆, hordering, hrun⟩ := run_bind_eq_ok_iff.mp hrun
  obtain ⟨limit, e₇, hlimit, hlast⟩ := run_bind_eq_ok_iff.mp hrun
  cases hfrom
  cases hlimit
  cases hlast
  obtain ⟨hagrees₁, haliases₁⟩ := (keeps_selectClause (hkept {})).of_ok ⟨hagrees.symm, haliases⟩ hselect
  obtain ⟨hagrees₃, haliases₃⟩ := (keeps_whereClause (hkept {})).of_ok ⟨hagrees₁, haliases₁⟩ hwhere
  obtain ⟨selected, rfl, hselected⟩ := selectClause_shows hd hagrees.symm hselect
  obtain ⟨filter, rfl, hfilter⟩ := whereClause_shows hd hagrees₁ hwhere
  obtain ⟨items, rfl, hagrees₄, hnames, hlength, hitems⟩ := groupByClause_shows hd hargs hagrees₃ haliases₃ hgroup
  obtain ⟨hagrees₅, haliases₅⟩ := (keeps_havingClause (hkept e₄.aliases)).of_ok ⟨hagrees₄, rfl⟩ hhaving
  obtain ⟨having, rfl, hshown⟩ := havingClause_shows hd hagrees₄ hhaving
  obtain ⟨-, haliases₆⟩ := (keeps_orderByClause (hkept e₄.aliases)).of_ok ⟨hagrees₅, haliases₅⟩ hordering
  rw [← haliases₆] at hnames hitems haliases₅
  obtain ⟨terms, rfl, hterms⟩ := orderByClause_shows hd hnames hagrees₅ haliases₅ hordering
  refine ⟨hd, hnames, ⟨selected, filter, items, having, terms, _⟩, ?_,
    ⟨hselected, hfilter, hlength, hitems, hshown, hterms, rfl⟩⟩
  rw [← hagrees₁.query]
  rfl

/-- The argument that introduces a text is written out with the alias of the text. -/
theorem Introduces.writesOut {table : AliasTable} {k : Nat} {items : List Sql} (h : scope.Introduces d args k text)
    (hname : table.find? text = some name)
    (hitems : ∀ k ref, args[k]? = some ref → ∃ sql, items[k]? = some sql ∧
      scope.GroupItem d table args k (d.query.tree ref) sql) :
    ∃ ref sql, args[k]? = some ref ∧ scope.WritesOut d (d.query.tree ref) sql ∧
      items[k]? = some (sql ++ Sql.plain (" AS " ++ name)) := by
  obtain ⟨ref, href, hbears⟩ := h.1
  obtain ⟨sql, hsql, hitem⟩ := hitems k ref href
  -- the text is the one that the argument bears, and no earlier argument bears it
  have hlater : ∀ j text', j < k → scope.Introduces d args j text' → ¬ scope.Bears d text' ref := by
    intro j text' hj hfirst hbears'
    rw [hbears'.unique hbears] at hfirst
    exact hfirst.not_lt h hj
  cases hitem with
  | simple hsimple => cases hbears.1.symm.trans hsimple
  | introduces hfirst hname' hwrites =>
    obtain ⟨ref', href', hbears'⟩ := hfirst.1
    cases href.symm.trans href'
    rw [hbears'.unique hbears, hname] at hname'
    cases hname'
    exact ⟨ref, _, href, hwrites, hsql⟩
  | bare hj hfirst hsimple htext => exact absurd ⟨hsimple, htext⟩ (hlater _ _ hj hfirst)
  | again hj hfirst hsimple htext => exact absurd ⟨hsimple, htext⟩ (hlater _ _ hj hfirst)

/-- A compiled statement is a layout, which may be read in the last draft. -/
theorem exists_layout {q : Query} {requested : Nat} {statement : Statement}
    (h : (scope.compile q requested).result = .ok statement) (hargs : q.groupArgs = .ok args) :
    let d := scope.lastDraft q requested
    d.Stocked ∧ scope.Names d args d.aliases ∧ ∃ layout : Layout,
      statement.sql = d.query.derived (Sql.joined " " (layout.clauses d.query.tables)) ∧ scope.Lays d args layout := by
  intro d
  obtain ⟨d₁, clauses, hdrafts⟩ := exists_drafts h
  have hargs : d₁.query.groupArgs = .ok args := by
    rw [hdrafts.query.groupArgs]
    exact Query.groupArgs_resolved_eq_ok_iff.mpr hargs
  obtain ⟨hstocked, hnames, layout, rfl, hlays⟩ := clauses_lay hdrafts.stocked hdrafts.aliases hargs hdrafts.rendered
  refine ⟨hstocked, hnames, layout, ?_, hlays⟩
  rw [hdrafts.sql_eq, (hdrafts.query.trans hdrafts.grows.query).derived]

end Scope

/-! ## Statements -/

/-- A grouped query that compiles shows its arguments and its ordering as follows. Every alias is introduced by one
argument, which is the first that bears its text, and different texts have different aliases. A later argument with the
text is the alias, or written out if it has values. So is a term that sorts by an expression with the text, and all
other arguments and terms are written out. -/
theorem Scope.aliases_introducedOnce {scope : Scope} {q : Query} {requested : Nat} {statement : Statement}
    {args : List NodeRef} (h : (scope.compile q requested).result = .ok statement) (hargs : q.groupArgs = .ok args) :
    let d := scope.lastDraft q requested
    ∃ (selecting sources : Sql) (filter : Option Sql) (items : List Sql) (having : Option Sql) (terms : List Sql)
        (limit : Option Sql),
      statement.sql = d.query.derived (Sql.joined " " (selecting :: sources ::
        [filter, Sql.clause? "GROUP BY " items, having, Sql.clause? "ORDER BY " terms, limit].filterMap id)) ∧
      items.length = args.length ∧
      (∀ k ref, args[k]? = some ref → ∃ sql, items[k]? = some sql ∧
        scope.GroupItem d d.aliases args k (d.query.tree ref) sql) ∧
      (∀ name ∈ d.aliases.aliases, ∃! k, ∃ ref text sql, args[k]? = some ref ∧ scope.Introduces d args k text ∧
        d.aliases.find? text = some name ∧ scope.WritesOut d (d.query.tree ref) sql ∧
        items[k]? = some (sql ++ Sql.plain (" AS " ++ name))) ∧
      (∀ text text' name, d.aliases.find? text = some name → d.aliases.find? text' = some name → text = text') ∧
      List.Forall₂ (fun ref sql => scope.OrderItem d args (d.query.tree ref) sql) (shownOrder q) terms := by
  intro d
  have horder : shownOrder d.query = shownOrder q := by
    obtain ⟨d₁, clauses, hdrafts⟩ := exists_drafts h
    obtain ⟨g, recordIndex, forms, tables, -, heq⟩ := Query.resolved_eq scope.toContext q
    rw [(hdrafts.query.trans hdrafts.grows.query).roots.2.2.2, heq]
    rfl
  obtain ⟨-, hnames, layout, hsql, hlays⟩ := exists_layout h hargs
  refine ⟨_, _, _, layout.grouping, _, layout.ordering, layout.limit, hsql, hlays.length_grouping, hlays.grouping, ?_,
    hnames.distinct, horder ▸ hlays.ordering⟩
  intro name hname
  obtain ⟨text, htext⟩ := hnames.listed name hname
  obtain ⟨k, -, hfirst⟩ := hnames.exists_introduces htext
  obtain ⟨ref, sql, href, hwrites, hitem⟩ := hfirst.writesOut htext hlays.grouping
  refine ⟨k, ⟨ref, text, sql, href, hfirst, htext, hwrites, hitem⟩, ?_⟩
  rintro j ⟨_, text', _, -, hfirst', htext', -⟩
  rw [hnames.distinct text' text name htext' htext] at hfirst'
  exact hfirst'.unique hfirst

def Context.regionTotals : Context where
  dialect := .generic
  schema := { tables := [{ name := "orders", columns := [{ name := "region" }, { name := "total" }] }] }
  config := {}

/-- Orders by region and raised total, each of them given twice. -/
def Query.raisedTotals : Query where
  nodes :=
    [{ expr := .field { name := .text "region" } }, { expr := .func "upper" [.index 0] },
     { expr := .field { name := .text "total" } }, { expr := .value (.int 1) },
     { expr := .calc .add (.index 2) (.index 3) },
     { expr := .summarise [.index 1, .index 2, .index 4, .index 1, .index 4] },
     { expr := .sort (.index 1) .desc }, { expr := .sort (.index 4) .asc }]
  summarise := some (.index 5)
  order := [.index 6, .index 7]
  ordered := true
  tables := { table := "orders" }

/-- The region is the alias from the second time on, and the raised total is written out every time. -/
theorem Query.aliases_raisedTotals :
    let scope := Context.regionTotals.scopeWith .regionTotals raisedTotals
    let d := scope.lastDraft raisedTotals 0
    let args : List NodeRef := [.index 1, .index 2, .index 4, .index 1, .index 4]
    raisedTotals.groupArgs = .ok args ∧ ∃ statement, (scope.compile raisedTotals 0).result = .ok statement ∧
      statement.text = "SELECT * FROM orders GROUP BY upper(region) AS upper_region_alias, total, " ++
        "total + ? AS total_alias, upper_region_alias, total + ? ORDER BY upper_region_alias DESC, total + ? ASC" ∧
      d.aliases.aliases = ["upper_region_alias", "total_alias"] ∧
      ∃ items : List Sql, items.length = args.length ∧ ∀ name ∈ ["upper_region_alias", "total_alias"],
        ∃! k, ∃ ref text sql, args[k]? = some ref ∧ scope.Introduces d args k text ∧
          d.aliases.find? text = some name ∧ scope.WritesOut d (d.query.tree ref) sql ∧
          items[k]? = some (sql ++ Sql.plain (" AS " ++ name)) := by
  intro scope d args
  have htext : (scope.compile raisedTotals 0).result.toOption.map Statement.text =
      some ("SELECT * FROM orders GROUP BY upper(region) AS upper_region_alias, total, " ++
        "total + ? AS total_alias, upper_region_alias, total + ? ORDER BY upper_region_alias DESC, total + ? ASC") := by
    decide +kernel
  have haliases : d.aliases.aliases = ["upper_region_alias", "total_alias"] := by decide +kernel
  refine ⟨rfl, ?_⟩
  cases hresult : (scope.compile raisedTotals 0).result with
  | error e => rw [hresult] at htext; cases htext
  | ok statement =>
    rw [hresult] at htext
    obtain ⟨_, _, _, items, _, _, _, -, hlength, -, hintroduced, -⟩ := Scope.aliases_introducedOnce hresult rfl
    exact ⟨statement, rfl, Option.some.inj htext, haliases, items, hlength, haliases ▸ hintroduced⟩

end ArenaSql
