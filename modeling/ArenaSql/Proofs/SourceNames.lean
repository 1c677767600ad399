import ArenaSql.Proofs.InScope

/-!
# Names of sources

The primary table is in scope under its qualifier, and a joined table under its own name, whatever lookup it was joined
through. So the names are told apart just when the lookups that a query needs lead to different tables, none of which
has the name of the qualifier. Then every qualifier of a column stands for one source at most.
-/

namespace ArenaSql

namespace Sources

variable {s : Sources} {name : String}

/-- The names that are in scope, the primary table first. -/
def scopeNames (s : Sources) : List String :=
  s.qualifier :: s.joins.map (·.table)

/-- The sources that a name stands for: the primary table, which has no join, or what was joined. -/
inductive Denotes (s : Sources) (name : String) : Option Join → Prop where
  | primary (hname : s.qualifier = name) : s.Denotes name none
  | joined {join : Join} (hjoin : join ∈ s.joins) (hname : join.table = name) : s.Denotes name (some join)

/-- Among joins that are told apart, names are told apart just when none of them stands for two sources. -/
theorem nodup_scopeNames_iff (hjoins : s.joins.Nodup) :
    s.scopeNames.Nodup ↔ ∀ name source other, s.Denotes name source → s.Denotes name other → source = other := by
  rw [scopeNames, List.nodup_cons, List.nodup_map_iff_inj_on hjoins]
  constructor
  · rintro ⟨hprimary, hinj⟩ name source other (hname | ⟨hjoin, rfl⟩) (hname' | ⟨hjoin', hname'⟩)
    · rfl
    · exact absurd (List.mem_map.mpr ⟨_, hjoin', hname'.trans hname.symm⟩) hprimary
    · exact absurd (List.mem_map.mpr ⟨_, hjoin, hname'.symm⟩) hprimary
    · exact congrArg some (hinj _ hjoin _ hjoin' hname'.symm)
  · intro h
    constructor
    · intro hmem
      obtain ⟨join, hjoin, htable⟩ := List.mem_map.mp hmem
      cases h _ _ _ (.primary rfl) (.joined hjoin htable)
    · intro join hjoin other hother htable
      exact Option.some.inj (h _ _ _ (.joined hjoin htable) (.joined hother rfl))

theorem qualifier_joinAll {type : JoinType} (lookups : List Lookup) (s : Sources) :
    (s.joinAll type lookups).qualifier = s.qualifier := by
  induction lookups generalizing s with
  | nil => rfl
  | cons l rest ih =>
    have hjoin : (s.join type l).qualifier = s.qualifier := by
      rw [join]
      split <;> rfl
    exact (ih _).trans hjoin

/-- A key that is joined already is not joined again. -/
theorem nodup_keys_join {type : JoinType} (h : (s.joins.map (·.lookup)).Nodup) (l : Lookup) :
    ((s.join type l).joins.map (·.lookup)).Nodup := by
  rw [join]
  split
  · exact h
  · rename_i hnew
    have hkey : l.key ∉ s.joins.map (·.lookup) := by
      simpa [hasJoin] using hnew
    rw [List.map_append]
    refine List.nodup_append_comm.mp (List.nodup_cons.mpr ⟨?_, h⟩)
    exact hkey

theorem nodup_keys_joinAll {type : JoinType} (lookups : List Lookup) {s : Sources}
    (h : (s.joins.map (·.lookup)).Nodup) :
    ((s.joinAll type lookups).joins.map (·.lookup)).Nodup := by
  induction lookups generalizing s with
  | nil => exact h
  | cons l rest ih => exact ih (nodup_keys_join h l)

end Sources

/-! ## The lookups that a query needs -/

/-- The lookups that the live fields of a query need by their names, each where it is first needed. A field that was
resolved before needs none. -/
def Query.neededLookups (context : Context) (q : Query) : List Lookup :=
  ((q.liveFields.filter (!·.resolved)).filterMap fun f => context.schema.neededFor? q.tables.table f.name).eraseDups

/-- The lookups that a query needs lead to different tables, none of which has the name of the primary one. -/
def Query.LeadsApart (context : Context) (q : Query) : Prop :=
  (∀ l ∈ q.neededLookups context, l.toTable ≠ q.tables.qualifier) ∧
    ∀ l ∈ q.neededLookups context, ∀ l' ∈ q.neededLookups context, l.toTable = l'.toTable → l = l'

namespace Query

variable {context : Context} {q : Query} {statement : Statement}

theorem mem_neededLookups {l : Lookup} : l ∈ q.neededLookups context ↔
    ∃ f ∈ q.liveFields, f.resolved = false ∧ context.schema.neededFor? q.tables.table f.name = some l := by
  simp only [neededLookups, List.mem_eraseDups, List.mem_filterMap, List.mem_filter, Bool.not_eq_true', and_assoc]

/-- Nothing but the needed lookups is joined. -/
theorem joins_eq_neededLookups (hkeys : context.schema.lookupKeys.Nodup) (hjoins : q.tables.joins = [])
    (h : (q.compile context).result = .ok statement) :
    (q.compile context).query.tables.joins = (q.neededLookups context).map (Lookup.join context.config.joinType) := by
  rw [joins_compile hkeys hjoins h, Field.filterMap_needed? fun f => unplaced?_of_compile h, neededLookups]

theorem qualifier_compile (h : (q.compile context).result = .ok statement) :
    (q.compile context).query.tables.qualifier = q.tables.qualifier := by
  rw [tables_compile h, Sources.qualifier_joinAll]

theorem nodup_keys_compile (hjoins : q.tables.joins = []) (h : (q.compile context).result = .ok statement) :
    ((q.compile context).query.tables.joins.map (·.lookup)).Nodup := by
  rw [tables_compile h]
  exact Sources.nodup_keys_joinAll _ (by simp [hjoins])

/-- Besides the primary table, the tables that the needed lookups lead to are in scope. -/
theorem scopeNames_compile (hkeys : context.schema.lookupKeys.Nodup) (hjoins : q.tables.joins = [])
    (h : (q.compile context).result = .ok statement) :
    (q.compile context).query.tables.scopeNames =
      q.tables.qualifier :: (q.neededLookups context).map (·.toTable) := by
  rw [Sources.scopeNames, qualifier_compile h, joins_eq_neededLookups hkeys hjoins h, List.map_map]
  rfl

/-- The statement holds the sources of the compiled query in its second clause. -/
theorem exists_clauses_of_compile (h : (q.compile context).result = .ok statement) :
    let sources := (q.compile context).query.tables
    ∃ selecting rest, statement.sql = (q.compile context).query.derived (Sql.joined " " (selecting ::
      Sql.plain ("FROM " ++ " ".intercalate (sources.primaryText :: sources.joins.map (Join.text sources.qualifier))) ::
        rest)) := by
  obtain ⟨args, hargs⟩ := exists_groupArgs_of_compile h
  obtain ⟨-, -, layout, hsql, -⟩ := Scope.exists_layout h hargs
  exact ⟨_, _, hsql⟩

end Query

/-! ## Names told apart -/

/-- If lookups are told apart by their keys, and a query without joins compiles, then it has one join for each lookup
that its live fields need, and so besides the primary table their tables are in scope. The names are told apart just
when these lookups lead to different tables, none with the name of the primary one; and just then every name stands for
one source at most. A column behind the table of a lookup that is needed has that source. -/
theorem Query.names_toldApart_iff {context : Context} {q : Query} {statement : Statement}
    (hkeys : context.schema.lookupKeys.Nodup) (hjoins : q.tables.joins = [])
    (h : (q.compile context).result = .ok statement) :
    let sources := (q.compile context).query.tables
    (∃ selecting rest, statement.sql = (q.compile context).query.derived (Sql.joined " " (selecting ::
      Sql.plain ("FROM " ++ " ".intercalate (sources.primaryText :: sources.joins.map (Join.text sources.qualifier))) ::
        rest))) ∧
      sources.joins = (q.neededLookups context).map (Lookup.join context.config.joinType) ∧
      (sources.joins.map (·.lookup)).Nodup ∧
      sources.scopeNames = q.tables.qualifier :: (q.neededLookups context).map (·.toTable) ∧
      (sources.scopeNames.Nodup ↔ q.LeadsApart context) ∧
      (q.LeadsApart context ↔
        ∀ name source other, sources.Denotes name source → sources.Denotes name other → source = other) ∧
      ∀ f ∈ q.liveFields, f.resolved = false → ∀ l, context.schema.neededFor? q.tables.table f.name = some l →
        sources.Denotes l.toTable (some (l.join context.config.joinType)) := by
  intro sources
  have hneeded : sources.joins = _ := joins_eq_neededLookups hkeys hjoins h
  have hnames : sources.scopeNames = _ := scopeNames_compile hkeys hjoins h
  have hlookups : (sources.joins.map (·.lookup)).Nodup := nodup_keys_compile hjoins h
  have hnodup : (q.neededLookups context).Nodup := by
    rw [hneeded] at hlookups
    exact .of_map _ (.of_map _ hlookups)
  have hapart : sources.scopeNames.Nodup ↔ q.LeadsApart context := by
    rw [hnames, List.nodup_cons, List.nodup_map_iff_inj_on hnodup, LeadsApart, List.mem_map]
    push Not
    exact Iff.rfl
  have hdenotes := Sources.nodup_scopeNames_iff (List.Nodup.of_map _ hlookups)
  refine ⟨exists_clauses_of_compile h, hneeded, hlookups, hnames, hapart, hapart.symm.trans hdenotes, ?_⟩
  intro f hf hfresh l hl
  refine .joined ?_ rfl
  rw [hneeded]
  exact List.mem_map_of_mem (mem_neededLookups.mpr ⟨f, hf, hfresh, hl⟩)

/-- The drivers are needed for a qualified column only. -/
theorem Query.names_deliveries :
    ∃ statement, (deliveries.compile .deliveries).result = .ok statement ∧
      (deliveries.neededLookups .deliveries).map (·.key) = ["customer", "driver"] ∧
      deliveries.LeadsApart .deliveries ∧
      (deliveries.compile .deliveries).query.tables.scopeNames = ["o", "customers", "drivers"] ∧
      (deliveries.compile .deliveries).query.tables.scopeNames.Nodup := by
  have heval : (deliveries.compile .deliveries).result.toOption.isSome := by decide +kernel
  have hapart : deliveries.LeadsApart .deliveries := by
    rw [LeadsApart]
    decide +kernel
  cases hresult : (deliveries.compile .deliveries).result with
  | error e => rw [hresult] at heval; cases heval
  | ok statement =>
    obtain ⟨-, -, -, hnames, hnodup, -⟩ := names_toldApart_iff (by decide) rfl hresult
    refine ⟨statement, rfl, ?_, hapart, hnames.trans ?_, hnodup.mpr hapart⟩
    · decide +kernel
    · decide +kernel

/-- Two lookups lead to the drivers, and each exposes a column that the other does not. -/
def Context.twoDrivers : Context where
  dialect := .generic
  schema :=
    { tables := [{ name := "orders", columns := [{ name := "total" }] }],
      lookups := [
        { key := "driver", fromTable := "orders", fromCol := "driver", toTable := "drivers", columns := ["licence"] },
        { key := "deputy", fromTable := "orders", fromCol := "deputy", toTable := "drivers", columns := ["phone"] }] }
  config := {}

def Query.driverAndDeputy : Query where
  nodes := [{ expr := .field { name := .text "licence" } }, { expr := .field { name := .text "phone" } }]
  select := [.index 0, .index 1]
  tables := { table := "orders" }

/-- The drivers are joined twice, and their name stands for both. -/
theorem Query.names_clash :
    Context.twoDrivers.schema.lookupKeys.Nodup ∧ driverAndDeputy.tables.joins = [] ∧
      ∃ statement, (driverAndDeputy.compile .twoDrivers).result = .ok statement ∧
        statement.text = "SELECT drivers.licence, drivers.phone FROM orders " ++
          "LEFT JOIN drivers ON orders.driver = drivers.id LEFT JOIN drivers ON orders.deputy = drivers.id" ∧
        (driverAndDeputy.compile .twoDrivers).query.tables.scopeNames = ["orders", "drivers", "drivers"] ∧
        ∃ source other, (driverAndDeputy.compile .twoDrivers).query.tables.Denotes "drivers" source ∧
          (driverAndDeputy.compile .twoDrivers).query.tables.Denotes "drivers" other ∧ source ≠ other := by
  have heval : (driverAndDeputy.compile .twoDrivers).result.toOption.map Statement.text =
      some ("SELECT drivers.licence, drivers.phone FROM orders " ++
        "LEFT JOIN drivers ON orders.driver = drivers.id LEFT JOIN drivers ON orders.deputy = drivers.id") := by
    decide +kernel
  have hjoins : (driverAndDeputy.compile .twoDrivers).query.tables.joins =
      [⟨"driver", "drivers", "driver", "id", .left⟩, ⟨"deputy", "drivers", "deputy", "id", .left⟩] := by
    decide +kernel
  refine ⟨by decide, rfl, ?_⟩
  cases hresult : (driverAndDeputy.compile .twoDrivers).result with
  | error e => rw [hresult] at heval; cases heval
  | ok statement =>
    rw [hresult] at heval
    refine ⟨statement, rfl, Option.some.inj heval, by decide +kernel, some ⟨"driver", "drivers", "driver", "id", .left⟩,
      some ⟨"deputy", "drivers", "deputy", "id", .left⟩, .joined ?_ rfl, .joined ?_ rfl, by decide⟩
    · simp [hjoins]
    · simp [hjoins]

end ArenaSql
