import ArenaSql.Proofs.Growth
import ArenaSql.Proofs.Joins
import Mathlib.Data.List.Nodup

/-!
# Joins of compiled queries

A compiled query has joined exactly the lookups that its live fields need, once each, in the order in which the passes
first meet a field that needs them.
-/

namespace ArenaSql

/-! ## What a name needs -/

/-- Whether the first table with the name has the column. -/
def Schema.hasColumn (s : Schema) (table column : String) : Bool :=
  (s.tables.find? (·.name == table)).any (·.columnNames.contains column)

/-- The lookup through which the column with a name is reached. A name with a point has a table before the first one; if
that is not the primary table, the first lookup from the primary table to it is needed. A column alone, unless it is the
star or one of the primary table, needs the first lookup from there that exposes it. -/
def Schema.neededFor? (s : Schema) (primary : String) : FieldName → Option Lookup
  | .text written =>
    if '.' ∈ written.toList then
      let table := String.ofList (written.toList.takeWhile (· != '.'))
      if table = primary then none else s.lookups.find? fun l => l.fromTable == primary && l.toTable == table
    else if written = "*" ∨ s.hasColumn primary written then none
    else s.lookups.find? fun l => l.fromTable == primary && l.columns.contains written
  | .other _ => none

theorem ColumnRef.eq_of_table_parse_eq_some {name table : String} (h : (parse name).table = some table) :
    '.' ∈ name.toList ∧ table = String.ofList (name.toList.takeWhile (· != '.')) := by
  refine ⟨by_contra fun hpoint => ?_, ?_⟩
  · rw [table_parse_eq_none_iff.mpr hpoint] at h
    cases h
  · unfold parse at h
    dsimp only at h
    split at h
    · cases h
    · exact (Option.some.inj h).symm

/-- A column is one of the primary table, or a lookup from there exposes it. -/
theorem Schema.placeColumn_eq_ok {s : Schema} {primary column : String} {placement : Placement}
    (h : s.placeColumn primary (.text column) = .ok placement) :
    (s.hasColumn primary column ∧ placement = .primary) ∨
      (s.hasColumn primary column = false ∧ ∃ l, s.lookupFor? primary column = some l ∧ placement = .through l) := by
  unfold placeColumn at h
  cases htable : s.table? primary with
  | none => rw [htable] at h; cases h
  | some table =>
    have hcolumn : s.hasColumn primary column = table.columnNames.contains column := congrArg (Option.any _) htable
    rw [hcolumn]
    simp only [htable] at h
    by_cases hprimary : table.columnNames.contains column
    · rw [if_pos hprimary] at h
      cases h
      exact Or.inl ⟨hprimary, rfl⟩
    · rw [if_neg hprimary] at h
      cases hlookup : s.lookupFor? primary column with
      | none => rw [hlookup] at h; cases h
      | some l =>
        rw [hlookup] at h
        cases h
        exact Or.inr ⟨Bool.eq_false_iff.mpr hprimary, l, rfl, rfl⟩

/-- What a placement needs is what the name needs. -/
theorem Schema.lookup?_of_place {s : Schema} {primary : String} {name : FieldName} {placement : Placement}
    (h : s.place primary name = .ok placement) : placement.lookup? = s.neededFor? primary name := by
  cases name with
  | other given => cases htable : s.table? primary <;> simp [place, placeColumn, htable] at h
  | text written =>
    rw [place] at h
    rw [neededFor?]
    cases htable : (ColumnRef.parse written).table with
    | some table =>
      obtain ⟨hpoint, rfl⟩ := ColumnRef.eq_of_table_parse_eq_some htable
      rw [htable] at h
      cases h
      rw [if_pos hpoint]
      rfl
    | none =>
      rw [if_neg (ColumnRef.table_parse_eq_none_iff.mp htable)]
      simp only [htable] at h
      by_cases hstar : written = "*"
      · rw [if_pos hstar] at h
        cases h
        rw [if_pos (Or.inl hstar)]
        rfl
      · rw [if_neg hstar] at h
        rcases placeColumn_eq_ok h with ⟨hcolumn, rfl⟩ | ⟨hcolumn, l, hlookup, rfl⟩
        · rw [if_pos (Or.inr hcolumn)]
          rfl
        · rw [if_neg (by simp [hstar, hcolumn])]
          exact hlookup.symm

theorem Field.needed?_eq {schema : Schema} {primary : String} {f : Field} (hfresh : f.resolved = false)
    (hplaced : f.unplaced? schema primary = none) :
    f.needed? schema primary = schema.neededFor? primary f.name := by
  rw [unplaced?, hfresh] at hplaced
  rw [needed?, hfresh]
  simp only [Bool.false_eq_true, if_false] at hplaced ⊢
  cases hplace : schema.place primary f.name with
  | error e => rw [hplace] at hplaced; cases hplaced
  | ok placement => exact Schema.lookup?_of_place hplace

/-- What fields with a place need is what the names need of those that were not resolved before. -/
theorem Field.filterMap_needed? {schema : Schema} {primary : String} {fields : List Field}
    (hplaced : ∀ f ∈ fields, f.unplaced? schema primary = none) :
    fields.filterMap (needed? schema primary) =
      (fields.filter (!·.resolved)).filterMap fun f => schema.neededFor? primary f.name := by
  rw [List.filterMap_filter]
  refine List.filterMap_congr fun f hf => ?_
  cases hresolved : f.resolved with
  | true => simp [needed?, hresolved]
  | false => simp [needed?_eq hresolved (hplaced f hf)]

/-! ## Live fields -/

/-- The fields that the passes meet, in their order. -/
def Query.liveFields (q : Query) : List Field :=
  q.fieldsOf (q.leaves q.liveRoots)

namespace Query

variable {context : Context} {q : Query}

theorem mem_fieldsOf {leaves : List Leaf} {f : Field} :
    f ∈ q.fieldsOf leaves ↔ ∃ i, .field i ∈ leaves ∧ q.fieldAt? i = some f := by
  rw [fieldsOf, List.mem_filterMap]
  constructor
  · rintro ⟨leaf, hleaf, hfield⟩
    cases leaf with
    | field i => exact ⟨i, hleaf, hfield⟩
    | _ => cases hfield
  · rintro ⟨i, hi, hfield⟩
    exact ⟨.field i, hi, hfield⟩

/-- Settling the record index has no influence on fields. -/
theorem fieldAt?_settleIndex (q : Query) (i : Nat) : q.settleIndex.1.fieldAt? i = q.fieldAt? i := by
  obtain ⟨f, recordIndex, forms, hf, hquery⟩ := q.settleIndex_eq
  have hkeeps : Expr.KeepsFields f := by
    intro i expr field
    rcases hf i expr with hsame | ⟨ref, d, d', -, rfl, hsort⟩
    · rw [hsame]
    · simp [hsort]
  rw [hquery]
  exact fieldAt?_mapExprs hkeeps q i

theorem tables_settleIndex (q : Query) : q.settleIndex.1.tables = q.tables := by
  obtain ⟨f, recordIndex, forms, hf, hquery⟩ := q.settleIndex_eq
  rw [hquery]
  rfl

theorem leaves_settleIndex (q : Query) : q.settleIndex.1.leaves q.settleIndex.1.liveRoots = q.leaves q.liveRoots := by
  obtain ⟨f, recordIndex, forms, hf, hquery⟩ := q.settleIndex_eq
  rw [hquery]
  exact hf.leaves q q.liveRoots

theorem liveFields_settleIndex (q : Query) : q.settleIndex.1.liveFields = q.liveFields := by
  rw [liveFields, liveFields, leaves_settleIndex, fieldsOf, fieldsOf]
  congr 1
  funext leaf
  cases leaf with
  | field i => exact q.fieldAt?_settleIndex i
  | _ => rfl

/-- Resolution fails nowhere in a query that compiles. -/
theorem fault?_of_compile {statement : Statement} (h : (q.compile context).result = .ok statement) :
    q.settleIndex.1.fault? context.schema (q.leaves q.liveRoots) = none := by
  obtain ⟨d₁, clauses, hdrafts⟩ := Scope.exists_drafts h
  have hresolved := hdrafts.resolved
  rw [resolveTrees_eq, leaves_settleIndex] at hresolved
  obtain ⟨done, joins, heq, -⟩ := q.settleIndex.1.resolveLeaves_eq context.schema context.config.joinType
    (q.leaves q.liveRoots)
  exact congrArg Prod.snd (heq.symm.trans hresolved)

theorem unplaced?_of_compile {statement : Statement} (h : (q.compile context).result = .ok statement) {f : Field}
    (hf : f ∈ q.liveFields) : f.unplaced? context.schema q.tables.table = none := by
  obtain ⟨i, hi, hfield⟩ := mem_fieldsOf.mp hf
  have hplaced := (fault?_eq_none_iff.mp (fault?_of_compile h)).2 i hi
  rw [unplaced?, fieldAt?_settleIndex, hfield, tables_settleIndex] at hplaced
  exact hplaced

/-- Compiling joins the lookups that live fields need as they are given. -/
theorem tables_compile {statement : Statement} (h : (q.compile context).result = .ok statement) :
    (q.compile context).query.tables = q.tables.joinAll context.config.joinType
      (q.liveFields.filterMap (Field.needed? context.schema q.tables.table)) := by
  obtain ⟨d₁, clauses, hdrafts⟩ := Scope.exists_drafts h
  have hresolved := hdrafts.resolved
  rw [resolveTrees_eq] at hresolved
  have htables := tables_resolveLeaves hresolved
  rw [tables_settleIndex, ← liveFields, liveFields_settleIndex] at htables
  rw [(resolved_sameButNested h).tables]
  exact htables

/-- If lookups are told apart by their keys, a query without joins gets those of the lookups its live fields need. -/
theorem joins_compile {statement : Statement} (hkeys : context.schema.lookupKeys.Nodup) (hjoins : q.tables.joins = [])
    (h : (q.compile context).result = .ok statement) :
    (q.compile context).query.tables.joins =
      (q.liveFields.filterMap (Field.needed? context.schema q.tables.table)).eraseDups.map
        (Lookup.join context.config.joinType) := by
  have hnone : ∀ key, q.tables.hasJoin key = false := fun key => by simp [Sources.hasJoin, hjoins]
  rw [tables_compile h, Sources.joins_joinAll, hjoins, List.nil_append]
  · simp [hnone]
  · intro l hl l' hl' hkey
    obtain ⟨f, -, hf⟩ := List.mem_filterMap.mp hl
    obtain ⟨f', -, hf'⟩ := List.mem_filterMap.mp hl'
    exact List.inj_on_of_nodup_map hkeys (Field.mem_lookups_of_needed? hf) (Field.mem_lookups_of_needed? hf') hkey

end Query

/-! ## The joins -/

/-- If lookups are told apart by their keys, and a query without joins and without resolved fields compiles, then it
has the joins of the lookups that its live fields need, each where it is first needed. So which joins there are does
not depend on the order of the fields. -/
theorem Query.joins_firstNeeded {context : Context} {q : Query} {statement : Statement}
    (hkeys : context.schema.lookupKeys.Nodup) (hjoins : q.tables.joins = [])
    (hfresh : ∀ f ∈ q.liveFields, f.resolved = false) (h : (q.compile context).result = .ok statement) :
    (q.compile context).query.tables.joins =
        (q.liveFields.filterMap fun f => context.schema.neededFor? q.tables.table f.name).eraseDups.map
          (Lookup.join context.config.joinType) ∧
      ∀ join, join ∈ (q.compile context).query.tables.joins ↔ ∃ f ∈ q.liveFields, ∃ l,
        context.schema.neededFor? q.tables.table f.name = some l ∧ join = l.join context.config.joinType := by
  have hall : q.liveFields.filter (!·.resolved) = q.liveFields :=
    List.filter_eq_self.mpr fun f hf => by simp [hfresh f hf]
  rw [joins_compile hkeys hjoins h, Field.filterMap_needed? fun f => unplaced?_of_compile h, hall]
  refine ⟨rfl, fun join => ?_⟩
  simp only [List.mem_map, List.mem_eraseDups, List.mem_filterMap]
  constructor
  · rintro ⟨l, ⟨f, hf, hl⟩, rfl⟩
    exact ⟨f, hf, l, hl, rfl⟩
  · rintro ⟨f, hf, l, hl, rfl⟩
    exact ⟨l, ⟨f, hf, hl⟩, rfl⟩

/-- Orders with their customers, drivers and depots. Customers and drivers have names. -/
def Context.deliveries : Context where
  dialect := .postgres
  schema :=
    { tables := [{ name := "orders", columns := [{ name := "total" }, { name := "customer" }, { name := "driver" }] }],
      lookups := [
        { key := "depot", fromTable := "orders", fromCol := "depot", toTable := "depots", columns := ["street"] },
        { key := "driver", fromTable := "orders", fromCol := "driver", toTable := "drivers",
          columns := ["licence"] },
        { key := "customer", fromTable := "orders", fromCol := "customer", toTable := "customers", toCol := "number",
          columns := ["name", "city"] },
        { key := "deputy", fromTable := "orders", fromCol := "deputy", toTable := "drivers", columns := ["name"] }] }
  config := {}

/-- A qualified column needs the customers, and a column alone does so again. The drivers are needed for a qualified
column only, which is met in the filter and once more in the ordering; of the two lookups that lead there the first one
counts. The condition on groups is not shown, so the depots are not needed. -/
def Query.deliveries : Query where
  nodes := [{ expr := .field { name := .text "total" } }, { expr := .field { name := .text "customers.city" } },
    { expr := .field { name := .text "name" } }, { expr := .field { name := .text "drivers.phone" } },
    { expr := .cmp .ne (.index 2) (.index 3) }, { expr := .sort (.index 3) .desc },
    { expr := .field { name := .text "street" } }]
  select := [.index 0, .index 1]
  head := some (.index 4)
  having := some (.index 6)
  order := [.index 5]
  ordered := true
  tables := { table := "orders", aliasName := some "o" }

theorem Query.joins_deliveries :
    ∃ statement, (deliveries.compile .deliveries).result = .ok statement ∧
      statement.text = "SELECT o.total, customers.city FROM orders AS o " ++
        "LEFT JOIN customers ON o.customer = customers.number LEFT JOIN drivers ON o.driver = drivers.id " ++
        "WHERE customers.name != drivers.phone ORDER BY drivers.phone DESC" ∧
      (deliveries.compile .deliveries).query.tables.joins =
        [⟨"customer", "customers", "customer", "number", .left⟩, ⟨"driver", "drivers", "driver", "id", .left⟩] ∧
      ∀ f ∈ deliveries.liveFields, f.name = .text "drivers.phone" ↔
        (Context.deliveries.schema.neededFor? "orders" f.name).map (·.key) = some "driver" := by
  have heval : (deliveries.compile .deliveries).result.toOption.map Statement.text =
      some ("SELECT o.total, customers.city FROM orders AS o " ++
        "LEFT JOIN customers ON o.customer = customers.number LEFT JOIN drivers ON o.driver = drivers.id " ++
        "WHERE customers.name != drivers.phone ORDER BY drivers.phone DESC") := by decide +kernel
  cases hresult : (deliveries.compile .deliveries).result with
  | error e => rw [hresult] at heval; cases heval
  | ok statement =>
    rw [hresult] at heval
    have hjoins := (joins_firstNeeded (by decide) rfl (by decide +kernel) hresult).1
    refine ⟨statement, rfl, Option.some.inj heval, hjoins.trans ?_, ?_⟩
    · decide +kernel
    · decide +kernel

end ArenaSql
