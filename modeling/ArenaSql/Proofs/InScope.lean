import ArenaSql.Proofs.JoinOrder
import ArenaSql.Proofs.LaidOut

/-!
# Columns in scope

Fields are rendered after all of them were resolved. So wherever a clause writes a column without a qualifier, it is
written as the joins of the whole query demand, wherever the join was added that made it ambiguous. A field may still be
missing, but only if aliases stand for all expressions with it, and were made for arguments of the same text that have
a literal.
-/

namespace ArenaSql

/-! ## How a column is written -/

/-- How a column that is named alone is written, once the sources of the query are known: alone or behind the primary
table if it is a column of that table, and else behind the table of the first lookup from there that exposes it, which
is then joined. -/
inductive Context.Writes (context : Context) (sources : Sources) (column : String) : String → Prop where
  | alone (hcolumn : context.schema.hasColumn sources.table column) (hjoins : sources.joins = []) :
    context.Writes sources column column
  | primary (hcolumn : context.schema.hasColumn sources.table column) (hjoins : sources.joins ≠ []) :
    context.Writes sources column (sources.qualifier ++ "." ++ column)
  | joined {l : Lookup} (hcolumn : context.schema.hasColumn sources.table column = false)
    (hlookup :
      context.schema.lookups.find? (fun l => l.fromTable == sources.table && l.columns.contains column) = some l)
    (hjoin : l.join context.config.joinType ∈ sources.joins) :
    context.Writes sources column (l.toTable ++ "." ++ column)

/-- If there are joins, no column is written alone. -/
theorem Context.Writes.ne_of_joins {context : Context} {sources : Sources} {column written : String}
    (h : context.Writes sources column written) (hjoins : sources.joins ≠ []) : written ≠ column := by
  have hbehind : ∀ table : String, table ++ "." ++ column ≠ column := by
    intro table hsame
    have hlength := congrArg String.length hsame
    have hpoint : ".".length = 1 := rfl
    rw [String.length_append, String.length_append, hpoint] at hlength
    omega
  cases h with
  | alone _ hnone => exact absurd hnone hjoins
  | primary => exact hbehind _
  | joined => exact hbehind _

theorem Schema.place_unqualified {s : Schema} {primary column : String} (hpoint : '.' ∉ column.toList)
    (hstar : column ≠ "*") : s.place primary (.text column) = s.placeColumn primary (.text column) := by
  rw [place, ColumnRef.table_parse_eq_none_iff.mpr hpoint]
  exact if_neg hstar

namespace Field

variable {context : Context} {sources : Sources} {f : Field} {column : String}

theorem text_of_table {table : String} (htable : f.table = some table) (hne : table ≠ "") :
    f.text sources = table ++ "." ++ f.name.column := by
  have hfilter : (some table).filter (!·.isEmpty) = some table := by simp [Option.filter, hne]
  rw [text, htable, hfilter]

/-- Without a table, a column is written behind the primary one as soon as there are joins. -/
theorem text_of_table_eq_none (hname : f.name = .text column) (hpoint : '.' ∉ column.toList) (hstar : column ≠ "*")
    (htable : f.table = none) :
    f.text sources = if sources.joins = [] then column else sources.qualifier ++ "." ++ column := by
  have hparse := ColumnRef.parse_of_table_eq_none (ColumnRef.table_parse_eq_none_iff.mpr hpoint)
  cases hjoins : sources.joins <;>
    simp [text, htable, hname, hjoins, hparse, FieldName.isStar, FieldName.column, FieldName.written, ColumnRef.text,
      hstar]

/-- A settled field is written as the sources demand. -/
theorem writes_settled (hname : f.name = .text column) (hpoint : '.' ∉ column.toList) (hstar : column ≠ "*")
    (htable : f.table = none) (hfresh : f.resolved = false)
    (hplaced : f.unplaced? context.schema sources.table = none)
    (htables : ∀ l ∈ context.schema.lookups, l.toTable ≠ "")
    (hjoined : ∀ l, f.needed? context.schema sources.table = some l → l.join context.config.joinType ∈ sources.joins) :
    context.Writes sources column ((f.settled context.schema sources.table).text sources) := by
  rw [unplaced?, hfresh] at hplaced
  rw [settled, hfresh]
  simp only [needed?, hfresh, Bool.false_eq_true, if_false] at hplaced hjoined ⊢
  cases hplace : context.schema.place sources.table f.name with
  | error e => rw [hplace] at hplaced; cases hplaced
  | ok placement =>
    rw [hplace] at hjoined
    rw [hname, Schema.place_unqualified hpoint hstar] at hplace
    rcases Schema.placeColumn_eq_ok hplace with ⟨hcolumn, rfl⟩ | ⟨hcolumn, l, hlookup, rfl⟩
    · dsimp only
      have htext : (Placement.settle f .primary).text sources = _ :=
        text_of_table_eq_none hname hpoint hstar htable
      rw [htext]
      split
      · rename_i hjoins
        exact .alone hcolumn hjoins
      · rename_i hjoins
        exact .primary hcolumn hjoins
    · dsimp only
      have hne := htables l (List.mem_of_find?_eq_some hlookup)
      have hparse := ColumnRef.parse_of_table_eq_none (ColumnRef.table_parse_eq_none_iff.mpr hpoint)
      have htext : (Placement.settle f (.through l)).text sources = l.toTable ++ "." ++ column := by
        rw [text_of_table rfl hne]
        simp [Placement.settle, hname, FieldName.column, hparse]
      rw [htext]
      exact .joined hcolumn hlookup (hjoined l rfl)

end Field

/-! ## What the clauses show -/

/-- The expressions that the clauses are made from, and those that the ordering sorts by. -/
def Query.expressions (q : Query) (args : List NodeRef) : List Tree :=
  (q.select ++ (q.head.toList ++ (args ++ (Scope.shownHaving q ++ Scope.shownOrder q)))).map q.tree ++
    (Scope.shownOrder q).map fun ref => (q.tree ref).sorted

theorem Query.exists_of_mem_expressions {q : Query} {args : List NodeRef} {t : Tree} (h : t ∈ q.expressions args) :
    ∃ ref, (ref ∈ args ∨ ref ∈ q.roots) ∧ (t = q.tree ref ∨ t = (q.tree ref).sorted) := by
  rcases List.mem_append.mp h with h | h
  · obtain ⟨ref, href, rfl⟩ := List.mem_map.mp h
    refine ⟨ref, ?_, Or.inl rfl⟩
    simp only [List.mem_append] at href
    simp only [roots, List.mem_append]
    tauto
  · obtain ⟨ref, href, rfl⟩ := List.mem_map.mp h
    exact ⟨ref, Or.inr (by simp [roots, href]), Or.inr rfl⟩

namespace Scope

open DraftM

variable {scope : Scope} {d : Draft} {args : List NodeRef} {layout : Layout} {ref : NodeRef} {t : Tree} {k : Nat}

/-- The expression has no literals, but its text was introduced before the position, by an argument that has some. -/
def Borrows (scope : Scope) (d : Draft) (args : List NodeRef) (k : Nat) (t : Tree) : Prop :=
  ¬ t.HasLiteral ∧ ∃ j < k, ∃ ref text, args[j]? = some ref ∧ scope.Introduces d args j text ∧
    (d.query.tree ref).HasLiteral ∧ (scope.canonicalText t).run d = (.ok text, d)

/-- The expression is written out, and an item of a clause begins with the text. -/
def Shows (scope : Scope) (d : Draft) (layout : Layout) (t : Tree) (sql : Sql) : Prop :=
  scope.WritesOut d t sql ∧ ∃ item ∈ layout.items, ∃ rest, item.text = sql.text ++ rest

/-- Aliases stand for all expressions with the field at a position, and were made for arguments that have a literal. -/
structure Obscures (scope : Scope) (d : Draft) (args : List NodeRef) (i : Nat) : Prop where
  clauses : ∀ ref ∈ d.query.select ++ (d.query.head.toList ++ shownHaving d.query), .field i ∉ (d.query.tree ref).leaves
  grouping : ∀ k ref, args[k]? = some ref → .field i ∈ (d.query.tree ref).leaves →
    scope.Borrows d args k (d.query.tree ref)
  ordering : ∀ ref ∈ shownOrder d.query, .field i ∈ (d.query.tree ref).leaves →
    scope.Borrows d args args.length (d.query.tree ref).sorted

theorem exists_shows_of_append {sql rest : Sql} (hsql : scope.WritesOut d t sql) (hitem : sql ++ rest ∈ layout.items) :
    ∃ sql, scope.Shows d layout t sql :=
  ⟨sql, hsql, _, hitem, rest.text, Sql.text_append ..⟩

theorem exists_shows_of_mem {sql : Sql} (hsql : scope.WritesOut d t sql) (hitem : sql ∈ layout.items) :
    ∃ sql, scope.Shows d layout t sql :=
  ⟨sql, hsql, sql, hitem, "", String.append_empty.symm⟩

theorem exists_mem_of_forall₂ {α β : Type} {R : α → β → Prop} {as : List α} {bs : List β} (h : List.Forall₂ R as bs)
    {a : α} (ha : a ∈ as) : ∃ b ∈ bs, R a b := by
  induction h with
  | nil => cases ha
  | cons hfirst _ ih =>
    rcases List.mem_cons.mp ha with rfl | ha
    · exact ⟨_, List.mem_cons_self, hfirst⟩
    · obtain ⟨b, hb, hrel⟩ := ih ha
      exact ⟨b, List.mem_cons_of_mem _ hb, hrel⟩

namespace Lays

theorem shows_of_clause (h : scope.Lays d args layout)
    (href : ref ∈ d.query.select ++ (d.query.head.toList ++ shownHaving d.query)) :
    ∃ sql, scope.Shows d layout (d.query.tree ref) sql := by
  simp only [List.mem_append] at href
  rcases href with href | href | href
  · obtain ⟨item, hitem, sql, hsql, rfl⟩ := exists_mem_of_forall₂ h.selected href
    have hitem : sql.labelled _ ∈ layout.items := List.mem_append_left _ hitem
    generalize (d.query.node? ref).bind _ = label at hitem
    cases label with
    | none => exact exists_shows_of_mem hsql hitem
    | some name => exact exists_shows_of_append hsql hitem
  · obtain ⟨sql, hsql, hwrites⟩ := exists_mem_of_forall₂ h.filter href
    exact exists_shows_of_mem hwrites (by simp [Layout.items, Option.mem_toList.mp hsql])
  · obtain ⟨sql, hsql, hwrites⟩ := exists_mem_of_forall₂ h.having href
    exact exists_shows_of_mem hwrites (by simp [Layout.items, Option.mem_toList.mp hsql])

/-- Where an alias stands for an expression, the argument that introduced it has the text of the expression, or else a
literal. -/
theorem shows_or_borrows {j : Nat} {text name : String} (h : scope.Lays d args layout)
    (hfirst : scope.Introduces d args j text) (hj : j < k) (hname : d.aliases.find? text = some name)
    (htext : (scope.canonicalText t).run d = (.ok text, d)) (hvalues : (scope.hasValues t).run d = (.ok false, d)) :
    (∃ sql, scope.Shows d layout t sql) ∨ scope.Borrows d args k t := by
  have hnone : ¬ t.HasLiteral := Tree.not_hasLiteral_iff.mpr fun v hv => null_of_not_hasValues hvalues hv
  obtain ⟨ref, sql, href, hsql, hitem⟩ := hfirst.writesOut hname h.grouping
  by_cases hliteral : (d.query.tree ref).HasLiteral
  · exact Or.inr ⟨hnone, j, hj, ref, text, href, hfirst, hliteral, htext⟩
  · obtain ⟨sql', hsql', hsame⟩ := exists_writesOut_of_canonicalText hnone htext
    obtain ⟨⟨ref', href', hbears⟩, -⟩ := hfirst
    cases href.symm.trans href'
    refine Or.inl ⟨sql', hsql', sql ++ Sql.plain (" AS " ++ name), ?_, (Sql.plain (" AS " ++ name)).text, ?_⟩
    · simp [Layout.items, List.mem_of_getElem? hitem]
    · rw [Sql.text_append, hsql.text_eq hliteral hbears.2, hsame]

theorem shows_or_borrows_arg (h : scope.Lays d args layout) (hk : args[k]? = some ref) :
    (∃ sql, scope.Shows d layout (d.query.tree ref) sql) ∨ scope.Borrows d args k (d.query.tree ref) := by
  obtain ⟨item, hitem, hgroup⟩ := h.grouping k ref hk
  have hmem : item ∈ layout.items := by simp [Layout.items, List.mem_of_getElem? hitem]
  cases hgroup with
  | simple _ hsql => exact Or.inl (exists_shows_of_mem hsql hmem)
  | introduces _ _ hsql => exact Or.inl (exists_shows_of_append hsql hmem)
  | bare hj hfirst _ htext hname hvalues => exact h.shows_or_borrows hfirst hj hname htext hvalues
  | again _ _ _ _ _ hsql => exact Or.inl (exists_shows_of_mem hsql hmem)

theorem shows_or_borrows_order (h : scope.Lays d args layout) (href : ref ∈ shownOrder d.query) :
    (∃ sql, scope.Shows d layout (d.query.tree ref) sql) ∨ (∃ sql, scope.Shows d layout (d.query.tree ref).sorted sql) ∨
      scope.Borrows d args args.length (d.query.tree ref).sorted := by
  obtain ⟨item, hitem, horder⟩ := exists_mem_of_forall₂ h.ordering href
  generalize d.query.tree ref = t at horder
  cases horder with
  | bare hsorts hname =>
    obtain ⟨-, hvalues, htext, j, hfirst⟩ := hsorts
    exact Or.inr (h.shows_or_borrows hfirst hfirst.lt_length hname htext hvalues)
  | full _ hsql => exact Or.inl (exists_shows_of_mem hsql (by simp [Layout.items, hitem]))

/-- A field is shown in one of the expressions with it, or else aliases stand for all of them. -/
theorem shows_or_obscures (h : scope.Lays d args layout) (i : Nat) :
    (∃ t ∈ d.query.expressions args, .field i ∈ t.leaves ∧ ∃ sql, scope.Shows d layout t sql) ∨
      scope.Obscures d args i := by
  rw [or_iff_not_imp_left]
  intro hnone
  have hhidden : ∀ t ∈ d.query.expressions args, .field i ∈ t.leaves → ¬ ∃ sql, scope.Shows d layout t sql :=
    fun t ht hi hshows => hnone ⟨t, ht, hi, hshows⟩
  have htree : ∀ {ref : NodeRef},
      ref ∈ d.query.select ++ (d.query.head.toList ++ (args ++ (shownHaving d.query ++ shownOrder d.query))) →
        .field i ∈ (d.query.tree ref).leaves → ¬ ∃ sql, scope.Shows d layout (d.query.tree ref) sql :=
    fun href => hhidden _ (List.mem_append_left _ (List.mem_map_of_mem href))
  refine ⟨fun ref href hi => ?_, fun k ref hk hi => ?_, fun ref href hi => ?_⟩
  · refine htree ?_ hi (h.shows_of_clause href)
    simp only [List.mem_append] at href ⊢
    tauto
  · exact (h.shows_or_borrows_arg hk).resolve_left (htree (by simp [List.mem_of_getElem? hk]) hi)
  · rcases h.shows_or_borrows_order href with hshows | hshows | hborrows
    · exact absurd hshows (htree (by simp [href]) hi)
    · refine absurd hshows (hhidden _ (List.mem_append_right _ (List.mem_map_of_mem href)) ?_)
      rwa [Tree.leaves_sorted]
    · exact hborrows

end Lays

/-- The expressions of the clauses are laid out with the columns that the last draft has. -/
theorem laidOut_of_expressions {column : Nat → String → Prop} {sql : Sql} (hd : d.Stocked)
    (hargs : d.query.groupArgs = .ok args) (ht : t ∈ d.query.expressions args)
    (hfields : ∀ i f, .field i ∈ t.leaves → d.query.fieldAt? i = some f → column i (f.text d.query.tables))
    (hsql : scope.WritesOut d t sql) : t.LaidOut scope.dialect column d.statement? sql := by
  obtain ⟨ref, href, ht⟩ := Query.exists_of_mem_expressions ht
  have hleaves : t.leaves = (d.query.tree ref).leaves := by
    rcases ht with rfl | rfl
    · rfl
    · rw [Tree.leaves_sorted]
  rw [hleaves] at hfields
  have hlays : scope.LaysOut column d (d.query.tree ref) := laysOut_tree ref hfields
  have hnested : ∀ i, .subquery i ∈ t.leaves → (d.statement? i).isSome := by
    intro i hi
    rw [hleaves] at hi
    exact href.elim (hd.of_arg hargs · hi) (hd.of_root · hi)
  rcases ht with rfl | rfl
  · exact hlays.of_writesOut hd hnested hsql
  · exact hlays.sorted.of_writesOut hd hnested hsql

/-- The arguments of the grouping were found if there are clauses. -/
theorem exists_groupArgs_of_clauses {d' : Draft} {clauses : List Sql} (h : scope.clauses.run d = (.ok clauses, d')) :
    ∃ args, d.query.groupArgs = .ok args := by
  obtain ⟨selecting, e₁, hselect, hrun⟩ := run_bind_eq_ok_iff.mp h
  obtain ⟨sources, e₂, hfrom, hrun⟩ := run_bind_eq_ok_iff.mp hrun
  obtain ⟨filter, e₃, hwhere, hrun⟩ := run_bind_eq_ok_iff.mp hrun
  obtain ⟨grouping, e₄, hgroup, -⟩ := run_bind_eq_ok_iff.mp hrun
  cases hfrom
  have hselected := (moves_selectClause scope).of_run hselect
  have hfiltered := (moves_whereClause scope).of_run hwhere
  rw [run_groupByClause, hfiltered.query.groupArgs, hselected.query.groupArgs] at hgroup
  cases hargs : d.query.groupArgs with
  | error e => rw [hargs] at hgroup; cases hgroup
  | ok args => exact ⟨args, rfl⟩

end Scope

/-! ## Live fields -/

namespace Query

variable {context : Context} {q : Query} {statement : Statement} {args : List NodeRef} {t : Tree} {i : Nat} {f : Field}

/-- If the field at the position names a column alone, it is written as the sources of the compiled query demand, and
not alone if there are joins. -/
def WritesAt (context : Context) (q : Query) (i : Nat) (written : String) : Prop :=
  let sources := (q.compile context).query.tables
  ∀ f column, q.fieldAt? i = some f → f.name = .text column → '.' ∉ column.toList → column ≠ "*" →
    context.Writes sources column written ∧ (sources.joins ≠ [] → written ≠ column)

/-- Compiling settles the live fields. -/
theorem fieldAt?_compile (h : (q.compile context).result = .ok statement) (hi : .field i ∈ q.leaves q.liveRoots)
    (hf : q.fieldAt? i = some f) :
    (q.compile context).query.fieldAt? i = some (f.settled context.schema q.tables.table) := by
  obtain ⟨d₁, clauses, hdrafts⟩ := Scope.exists_drafts h
  have hresolved := hdrafts.resolved
  rw [resolveTrees_eq, leaves_settleIndex] at hresolved
  obtain ⟨done, joins, heq, hall⟩ := q.settleIndex.1.resolveLeaves_eq context.schema context.config.joinType
    (q.leaves q.liveRoots)
  have hquery : q.resolved context = q.settleIndex.1.settledAt context.schema done joins :=
    congrArg Prod.fst (hresolved.symm.trans heq)
  rw [(resolved_sameButNested h).fieldAt?, hquery, fieldAt?_settledAt, hall (fault?_of_compile h) i hi,
    fieldAt?_settleIndex, hf, tables_settleIndex]
  rfl

theorem leaves_tree_compile (h : (q.compile context).result = .ok statement) (ref : NodeRef) :
    ((q.compile context).query.tree ref).leaves = (q.tree ref).leaves := by
  rw [(resolved_sameButNested h).tree, leaves_resolved]

/-- The clauses of a compiled query start from the references that were given. -/
theorem roots_compile (h : (q.compile context).result = .ok statement) :
    (q.compile context).query.roots = q.roots ∧ (q.compile context).query.select = q.select ∧
      (q.compile context).query.head = q.head ∧
      Scope.shownHaving (q.compile context).query = Scope.shownHaving q ∧
      Scope.shownOrder (q.compile context).query = Scope.shownOrder q := by
  obtain ⟨f, -, hquery⟩ := resolved_sameButNested h
  obtain ⟨g, recordIndex, forms, tables, -, heq⟩ := resolved_eq context q
  rw [hquery, heq]
  exact ⟨rfl, rfl, rfl, rfl, rfl⟩

/-- The clauses of a compiled query show live fields only. -/
theorem mem_liveLeaves_of_expressions (h : (q.compile context).result = .ok statement) (hargs : q.groupArgs = .ok args)
    (ht : t ∈ (q.compile context).query.expressions args) (hi : .field i ∈ t.leaves) :
    .field i ∈ q.leaves q.liveRoots := by
  obtain ⟨ref, href, ht⟩ := exists_of_mem_expressions ht
  have hleaf : .field i ∈ (q.tree ref).leaves := by
    rw [← leaves_tree_compile h]
    rcases ht with rfl | rfl
    · exact hi
    · rwa [Tree.leaves_sorted] at hi
  have hlive : ∀ root ∈ q.roots, .field i ∈ (q.tree root).leaves → .field i ∈ q.leaves q.liveRoots := by
    intro root hroot hroot'
    refine List.mem_flatMap.mpr ⟨root, mem_liveRoots_iff.mpr ⟨hroot, ?_⟩, hroot'⟩
    cases hnull : root.isNull with
    | true => cases eq_broken_of_isNull hnull hroot'
    | false => rfl
  rcases href with href | href
  · have hunbroken := (fault?_eq_none_iff.mp (fault?_of_compile h)).1
    have hmem : .field i ∈ q.leaves args := List.mem_flatMap.mpr ⟨ref, href, hleaf⟩
    rw [Scope.leaves_groupArgs_of_live hargs hunbroken] at hmem
    obtain ⟨root, hroot, hleaf⟩ := List.mem_flatMap.mp hmem
    exact hlive root (by simp [roots, Option.mem_toList.mp hroot]) hleaf
  · exact hlive ref ((roots_compile h).1 ▸ href) hleaf

theorem groupArgs_of_compile (h : (q.compile context).result = .ok statement) (hargs : q.groupArgs = .ok args) :
    (q.compile context).query.groupArgs = .ok args := by
  rw [(resolved_sameButNested h).groupArgs]
  exact groupArgs_resolved_eq_ok_iff.mpr hargs

/-- Where a live field names a column alone, the column is written as the sources demand. -/
theorem writesAt_of_live (hkeys : context.schema.lookupKeys.Nodup)
    (htables : ∀ l ∈ context.schema.lookups, l.toTable ≠ "") (hjoins : q.tables.joins = [])
    (hfresh : ∀ f ∈ q.liveFields, f.table = none ∧ f.resolved = false)
    (h : (q.compile context).result = .ok statement) (hi : .field i ∈ q.leaves q.liveRoots)
    (hf : (q.compile context).query.fieldAt? i = some f) :
    q.WritesAt context i (f.text (q.compile context).query.tables) := by
  intro given column hgiven hname hpoint hstar
  have hlive : given ∈ q.liveFields := mem_fieldsOf.mpr ⟨i, hi, hgiven⟩
  have hprimary : (q.compile context).query.tables.table = q.tables.table := by
    rw [tables_compile h, Sources.table_joinAll]
  have hplaced := unplaced?_of_compile h hlive
  have hsettled := fieldAt?_compile h hi hgiven
  rw [← hprimary] at hplaced hsettled
  rw [hf] at hsettled
  cases hsettled
  suffices hwrites : context.Writes (q.compile context).query.tables column _ from ⟨hwrites, hwrites.ne_of_joins⟩
  refine Field.writes_settled hname hpoint hstar (hfresh given hlive).1 (hfresh given hlive).2 hplaced htables ?_
  intro l hl
  rw [joins_compile hkeys hjoins h]
  rw [hprimary] at hl
  exact List.mem_map_of_mem (List.mem_eraseDups.mpr (List.mem_filterMap.mpr ⟨given, hlive, hl⟩))

theorem exists_groupArgs_of_compile (h : (q.compile context).result = .ok statement) :
    ∃ args, q.groupArgs = .ok args := by
  obtain ⟨d₁, clauses, hdrafts⟩ := Scope.exists_drafts h
  obtain ⟨args, hargs⟩ := Scope.exists_groupArgs_of_clauses hdrafts.rendered
  rw [hdrafts.query.groupArgs] at hargs
  exact ⟨args, groupArgs_resolved_eq_ok_iff.mp hargs⟩

end Query

/-! ## Columns of compiled queries -/

/-- If lookups are told apart by their keys and lead to named tables, and a query compiles that had no joins and whose
fields had no tables, then the statement shows the sources of the whole query, and the expressions of its clauses are
laid out with every column that is named alone as those sources demand, never alone if there are joins. A live field
with such a column is shown in one of the expressions with it, unless aliases stand for all of them that were made for
arguments with literals. -/
theorem Query.columns_inScope {context : Context} {q : Query} {statement : Statement}
    (hkeys : context.schema.lookupKeys.Nodup) (htables : ∀ l ∈ context.schema.lookups, l.toTable ≠ "")
    (hjoins : q.tables.joins = []) (hfresh : ∀ f ∈ q.liveFields, f.table = none ∧ f.resolved = false)
    (h : (q.compile context).result = .ok statement) :
    let scope := context.scopeWith context q
    let d := scope.lastDraft q 0
    let sources := (q.compile context).query.tables
    ∃ args layout, q.groupArgs = .ok args ∧
      statement.sql = d.query.derived (Sql.joined " " (layout.clauses sources)) ∧ scope.Lays d args layout ∧
      (∀ t ∈ d.query.expressions args, ∀ sql, scope.WritesOut d t sql →
        t.LaidOut context.dialect (q.WritesAt context) d.statement? sql) ∧
      ∀ i f column, .field i ∈ q.leaves q.liveRoots → q.fieldAt? i = some f → f.name = .text column →
        '.' ∉ column.toList → column ≠ "*" →
        ∃ written, context.Writes sources column written ∧
          ((∃ t ∈ d.query.expressions args, .field i ∈ t.leaves ∧
              ∃ sql, scope.Shows d layout t sql ∧ sql.Mentions written) ∨
            scope.Obscures d args i) := by
  intro scope d sources
  obtain ⟨args, hargs⟩ := exists_groupArgs_of_compile h
  obtain ⟨hstocked, -, layout, hsql, hlays⟩ := Scope.exists_layout h hargs
  have hlive : ∀ {i f}, .field i ∈ q.leaves q.liveRoots → d.query.fieldAt? i = some f →
      q.WritesAt context i (f.text sources) := writesAt_of_live hkeys htables hjoins hfresh h
  have hlaidOut : ∀ t ∈ d.query.expressions args, ∀ sql, scope.WritesOut d t sql →
      t.LaidOut context.dialect (q.WritesAt context) d.statement? sql := by
    intro t ht sql
    refine Scope.laidOut_of_expressions hstocked (groupArgs_of_compile h hargs) ht fun i f hi => ?_
    exact hlive (mem_liveLeaves_of_expressions h hargs ht hi)
  refine ⟨args, layout, hargs, hsql, hlays, hlaidOut, fun i f column hi hf hname hpoint hstar => ?_⟩
  rcases hlays.shows_or_obscures i with ⟨t, ht, hleaf, sql, hshows⟩ | hobscures
  · obtain ⟨written, hwrites, hmentions⟩ := (hlaidOut t ht sql hshows.1).mentions hleaf
    exact ⟨written, (hwrites f column hf hname hpoint hstar).1, Or.inl ⟨t, ht, hleaf, sql, hshows, hmentions⟩⟩
  · have hwrites := hlive hi (fieldAt?_compile h hi hf) f column hf hname hpoint hstar
    exact ⟨_, hwrites.1, Or.inr hobscures⟩

/-- Large orders, of which only the ordering needs the customers. -/
def Query.totalsByName : Query where
  nodes := [{ expr := .field { name := .text "total" } }, { expr := .field { name := .text "name" } },
    { expr := .sort (.index 1) .asc }, { expr := .value (.int 100) }, { expr := .cmp .gt (.index 0) (.index 3) }]
  select := [.index 0]
  head := some (.index 4)
  order := [.index 2]
  ordered := true
  tables := { table := "orders" }

theorem Query.columns_totalsByName :
    let scope := Context.deliveries.scopeWith .deliveries totalsByName
    let d := scope.lastDraft totalsByName 0
    let sources := (totalsByName.compile .deliveries).query.tables
    ∃ statement, (totalsByName.compile .deliveries).result = .ok statement ∧
      statement.text = "SELECT orders.total FROM orders LEFT JOIN customers ON orders.customer = customers.number " ++
        "WHERE orders.total > %s ORDER BY customers.name ASC" ∧
      ∃ layout : Layout, statement.sql = d.query.derived (Sql.joined " " (layout.clauses sources)) ∧
        scope.Lays d [] layout ∧
        (∀ t ∈ d.query.expressions [], ∀ sql, scope.WritesOut d t sql →
          t.LaidOut Context.deliveries.dialect (totalsByName.WritesAt .deliveries) d.statement? sql) ∧
        ∃ written, Context.deliveries.Writes sources "total" written ∧ ∃ t ∈ d.query.expressions [],
          .field 0 ∈ t.leaves ∧ ∃ sql, scope.Shows d layout t sql ∧ sql.Mentions written := by
  intro scope d sources
  have heval : (totalsByName.compile .deliveries).result.toOption.map Statement.text =
      some ("SELECT orders.total FROM orders LEFT JOIN customers ON orders.customer = customers.number " ++
        "WHERE orders.total > %s ORDER BY customers.name ASC") := by decide +kernel
  have hleaves : totalsByName.leaves totalsByName.liveRoots = [.field 0, .field 0, .value (.int 100), .field 1] := rfl
  cases hresult : (totalsByName.compile .deliveries).result with
  | error e => rw [hresult] at heval; cases heval
  | ok statement =>
    rw [hresult] at heval
    obtain ⟨args, layout, hargs, hsql, hlays, hlaidOut, hfields⟩ :=
      columns_inScope (by decide) (by decide) rfl (by decide +kernel) hresult
    cases hargs
    refine ⟨statement, rfl, Option.some.inj heval, layout, hsql, hlays, hlaidOut, ?_⟩
    obtain ⟨written, hwrites, hshown | hobscures⟩ := hfields 0 _ _ (by simp [hleaves]) rfl rfl (by decide) (by decide)
    · exact ⟨written, hwrites, hshown⟩
    · have hselect : d.query.select = [.index 0] := (roots_compile hresult).2.1
      refine absurd ?_ (hobscures.clauses (.index 0) (List.mem_append_left _ ?_))
      · rw [show (d.query.tree (.index 0)).leaves = _ from leaves_tree_compile hresult (.index 0)]
        exact List.mem_singleton_self _
      · exact hselect ▸ List.mem_singleton_self _

/-- A literal and a column with the same canonical text, `round(2024)`. -/
def Query.rounded : Query where
  nodes := [{ expr := .value (.int 2024) }, { expr := .func "round" [.index 0] },
    { expr := .field { name := .text "2024" } }, { expr := .func "round" [.index 2] },
    { expr := .summarise [.index 1, .index 3] }]
  summarise := some (.index 4)
  tables := { table := "sales" }

def Context.yearly : Context where
  dialect := .generic
  schema := { tables := [{ name := "sales", columns := [{ name := "2024" }] }] }
  config := {}

/-- The alias that was made for the literal stands for the column, which the statement does not mention. -/
theorem Query.column_obscured :
    ∃ statement, (rounded.compile .yearly).result = .ok statement ∧
      statement.text = "SELECT * FROM sales GROUP BY round(?) AS round_alias, round_alias" ∧
      Context.yearly.schema.lookups = [] ∧ rounded.tables.joins = [] ∧
      (∀ f ∈ rounded.liveFields, f.table = none ∧ f.resolved = false) ∧
      .field 2 ∈ rounded.leaves rounded.liveRoots ∧ rounded.fieldAt? 2 = some { name := .text "2024" } ∧
      (Context.yearly.schema.column? "sales" "2024").isSome ∧ (rounded.compile .yearly).query.tables.joins = [] ∧
      ¬ statement.sql.Mentions "2024" := by
  have heval : (rounded.compile .yearly).result.toOption.map Statement.text =
      some "SELECT * FROM sales GROUP BY round(?) AS round_alias, round_alias" := by decide +kernel
  have hleaves : rounded.leaves rounded.liveRoots = [.value (.int 2024), .field 2] := rfl
  cases hresult : (rounded.compile .yearly).result with
  | error e => rw [hresult] at heval; cases heval
  | ok statement =>
    rw [hresult] at heval
    have htext : statement.text = "SELECT * FROM sales GROUP BY round(?) AS round_alias, round_alias" :=
      Option.some.inj heval
    refine ⟨statement, rfl, htext, rfl, rfl, by decide +kernel, by simp [hleaves], rfl, by decide, by decide +kernel,
      ?_⟩
    intro hmentions
    have hdigit : '2' ∈ statement.text.toList := hmentions.subset (by decide)
    rw [htext] at hdigit
    exact absurd hdigit (by decide)

end ArenaSql
