import ArenaSql.Schema.Inference
import Mathlib.Data.List.Nodup

/-!
# Lookups inferred from names

Which columns make references by their names, and which of these references become lookups. A reference does unless its
key is taken, by a lookup of the schema or by an earlier reference. Whether the schema knows a lookup for the column has
no influence on that, so a column may end up with no lookup, with one or with two. Nothing that the schema had is changed,
and inferring again adds nothing.
-/

namespace ArenaSql

/-- The lookup leads from a column of a table to another table. -/
def Lookup.leads (table column target : String) (l : Lookup) : Bool :=
  l.fromTable == table && l.fromCol == column && l.toTable == target

/-- Among things with distinct names, the one with a name is found. -/
theorem find?_eq_some_iff_of_nodup {α : Type} {name : α → String} {xs : List α} (h : (xs.map name).Nodup)
    {wanted : String} {x : α} : xs.find? (name · == wanted) = some x ↔ x ∈ xs ∧ name x = wanted := by
  constructor
  · intro hfound
    exact ⟨List.mem_of_find?_eq_some hfound, by simpa using List.find?_some hfound⟩
  · rintro ⟨hx, rfl⟩
    cases hfound : xs.find? (name · == name x) with
    | none => exact absurd (List.find?_eq_none.mp hfound x hx) (by simp)
    | some y =>
      have hname : name y = name x := by simpa using List.find?_some hfound
      rw [List.inj_on_of_nodup_map h (List.mem_of_find?_eq_some hfound) hx hname]

namespace Schema

/-! ## References by names -/

theorem stem?_eq_some_iff {column stem : String} : stem? column = some stem ↔ column = stem ++ "_id" := by
  have htoList : column = stem ++ "_id" ↔ column.toList = stem.toList ++ ['_', 'i', 'd'] := by
    rw [← String.toList_inj, String.toList_append]
    rfl
  rw [stem?, htoList]
  constructor
  · intro h
    split at h
    · rename_i hend
      rw [← Option.some.inj h, String.toList_ofList, ← hend, List.take_append_drop]
    · cases h
  · intro h
    simp [h, String.ofList_toList]

theorem reference?_eq_some_iff {s : Schema} {t : Table} {c : Column} {r : Reference} :
    s.reference? t c = some r ↔
      ∃ stem target, c.name = stem ++ "_id" ∧ s.target? stem = some target ∧ r = ⟨t.name, c.name, target, "id"⟩ := by
  simp only [reference?, Option.bind_eq_bind, Option.bind_eq_some_iff, stem?_eq_some_iff, Option.pure_def,
    Option.some.injEq]
  constructor
  · rintro ⟨stem, hstem, target, htarget, rfl⟩
    exact ⟨stem, target, hstem, htarget, rfl⟩
  · rintro ⟨stem, target, hstem, htarget, rfl⟩
    exact ⟨stem, hstem, target, htarget, rfl⟩

theorem mem_references {s : Schema} {r : Reference} :
    r ∈ s.references ↔ ∃ t ∈ s.tables, ∃ c ∈ t.columns, s.reference? t c = some r := by
  simp [references]

/-- If tables have distinct names, the last table with a name is the first. -/
theorem lastTable?_eq_table? {s : Schema} (h : s.tableNames.Nodup) (name : String) :
    s.lastTable? name = s.table? name := by
  have hreverse : (s.tables.reverse.map (·.name)).Nodup := by rwa [List.map_reverse, List.nodup_reverse]
  ext t
  rw [lastTable?, table?, find?_eq_some_iff_of_nodup h, find?_eq_some_iff_of_nodup hreverse, List.mem_reverse]

/-- If tables have distinct names, and so do the columns of each, a column makes at most one reference. -/
theorem nodup_references {s : Schema} (htables : s.tableNames.Nodup)
    (hcolumns : ∀ t ∈ s.tables, t.columnNames.Nodup) :
    (s.references.map fun r => (r.fromTable, r.fromCol)).Nodup := by
  have hfrom : ∀ t c r, s.reference? t c = some r → (r.fromTable, r.fromCol) = (t.name, c.name) := by
    intro t c r hr
    obtain ⟨stem, target, -, -, rfl⟩ := reference?_eq_some_iff.mp hr
    rfl
  have hsublist : ∀ (t : Table) (columns : List Column),
      ((columns.filterMap (s.reference? t)).map fun r => (r.fromTable, r.fromCol)).Sublist
        (columns.map fun c => (t.name, c.name)) := by
    intro t columns
    induction columns with
    | nil => exact .slnil
    | cons c rest ih =>
      cases hr : s.reference? t c with
      | none => rw [List.filterMap_cons_none hr]; exact ih.cons _
      | some r => rw [List.filterMap_cons_some hr, List.map_cons, hfrom t c r hr]; exact ih.cons_cons _
  rw [references, List.map_flatMap, List.nodup_flatMap]
  constructor
  · intro t ht
    have hnames := (hcolumns t ht).map (f := fun name => (t.name, name)) fun _ _ h => (Prod.mk.inj h).2
    rw [Table.columnNames, List.map_map] at hnames
    exact hnames.sublist (hsublist t t.columns)
  · refine (List.pairwise_map.mp htables).imp fun {t t'} hne pair hpair hpair' => hne ?_
    obtain ⟨c, -, rfl⟩ := List.mem_map.mp ((hsublist t t.columns).subset hpair)
    obtain ⟨c', -, heq⟩ := List.mem_map.mp ((hsublist t' t'.columns).subset hpair')
    exact (Prod.mk.inj heq).1.symm

/-! ## Keys that are not taken -/

theorem withNewKeys_congr {known known' : List String} (h : ∀ key, key ∈ known ↔ key ∈ known') (ls : List Lookup) :
    withNewKeys known ls = withNewKeys known' ls := by
  induction ls generalizing known known' with
  | nil => rfl
  | cons l rest ih =>
    have hcontains : known.contains l.key = known'.contains l.key := by
      rw [Bool.eq_iff_iff, List.contains_iff_mem, List.contains_iff_mem, h]
    have hrest : withNewKeys (l.key :: known) rest = withNewKeys (l.key :: known') rest :=
      ih fun key => by rw [List.mem_cons, List.mem_cons, h]
    rw [withNewKeys, withNewKeys, hcontains, ih h, hrest]

/-- Whether or not a lookup is left out, its key is taken for those behind it. -/
theorem withNewKeys_cons (known : List String) (l : Lookup) (rest : List Lookup) :
    withNewKeys known (l :: rest) =
      (if known.contains l.key then [] else [l]) ++ withNewKeys (l.key :: known) rest := by
  rw [withNewKeys]
  split
  · rename_i hknown
    refine withNewKeys_congr (fun key => ?_) rest
    rw [List.mem_cons, iff_or_self]
    rintro rfl
    exact List.contains_iff_mem.mp hknown
  · rfl

theorem withNewKeys_append (known : List String) (first rest : List Lookup) :
    withNewKeys known (first ++ rest) =
      withNewKeys known first ++ withNewKeys (known ++ first.map (·.key)) rest := by
  induction first generalizing known with
  | nil => rw [List.map_nil, List.append_nil]; rfl
  | cons l first ih =>
    rw [List.cons_append, withNewKeys_cons, withNewKeys_cons, ih, List.append_assoc]
    congr 2
    refine withNewKeys_congr (fun key => ?_) rest
    simp only [List.cons_append, List.map_cons, List.mem_cons, List.mem_append, or_left_comm]

theorem withNewKeys_sublist (known : List String) (ls : List Lookup) : (withNewKeys known ls).Sublist ls := by
  induction ls generalizing known with
  | nil => exact .slnil
  | cons l rest ih =>
    rw [withNewKeys]
    split
    · exact (ih _).cons _
    · exact (ih _).cons_cons _

/-- New keys are neither known nor used twice. -/
theorem nodup_withNewKeys (known : List String) (ls : List Lookup) :
    ((withNewKeys known ls).map (·.key)).Nodup ∧ ∀ l ∈ withNewKeys known ls, l.key ∉ known := by
  induction ls generalizing known with
  | nil => exact ⟨List.nodup_nil, fun _ hl => by cases hl⟩
  | cons l rest ih =>
    rw [withNewKeys]
    split
    · exact ih known
    · rename_i hnew
      obtain ⟨hnodup, hfresh⟩ := ih (l.key :: known)
      rw [List.map_cons, List.nodup_cons, List.forall_mem_cons]
      refine ⟨⟨?_, hnodup⟩, fun hknown => hnew (List.contains_iff_mem.mpr hknown), fun l' hl' hknown =>
        hfresh l' hl' (List.mem_cons_of_mem _ hknown)⟩
      intro htwice
      obtain ⟨l', hl', hkey⟩ := List.mem_map.mp htwice
      exact hfresh l' hl' (hkey ▸ List.mem_cons_self)

/-- Whether or not a lookup is new, its key is taken in the end. -/
theorem key_mem_of_withNewKeys (known : List String) {ls : List Lookup} {l : Lookup} (hl : l ∈ ls) :
    l.key ∈ known ++ (withNewKeys known ls).map (·.key) := by
  induction ls generalizing known with
  | nil => cases hl
  | cons first rest ih =>
    rw [withNewKeys]
    split
    · rename_i hknown
      rcases List.mem_cons.mp hl with rfl | hl
      · exact List.mem_append_left _ (List.contains_iff_mem.mp hknown)
      · exact ih known hl
    · rw [List.map_cons]
      rcases List.mem_cons.mp hl with rfl | hl
      · exact List.mem_append_right _ List.mem_cons_self
      · exact List.perm_middle.mem_iff.mpr (ih (first.key :: known) hl)

theorem withNewKeys_of_known {known : List String} {ls : List Lookup} (h : ∀ l ∈ ls, l.key ∈ known) :
    withNewKeys known ls = [] := by
  induction ls with
  | nil => rfl
  | cons l rest ih =>
    obtain ⟨hfirst, hrest⟩ := List.forall_mem_cons.mp h
    rw [withNewKeys, if_pos (List.contains_iff_mem.mpr hfirst), ih hrest]

/-- A lookup that is the only one of its sort is among the new ones unless its key is taken when it is reached. -/
theorem countP_withNewKeys {p : Lookup → Bool} (known : List String) {before after : List Lookup} {l : Lookup}
    (hl : p l) (hbefore : ∀ l' ∈ before, p l' = false) (hafter : ∀ l' ∈ after, p l' = false) :
    (withNewKeys known (before ++ l :: after)).countP p =
      if l.key ∈ known ++ before.map (·.key) then 0 else 1 := by
  have hnone : ∀ known' ls, (∀ l' ∈ ls, p l' = false) → (withNewKeys known' ls).countP p = 0 := by
    intro known' ls hls
    refine List.countP_eq_zero.mpr fun l' hl' => ?_
    rw [hls l' ((withNewKeys_sublist known' ls).subset hl')]
    exact Bool.false_ne_true
  rw [withNewKeys_append, withNewKeys_cons, List.countP_append, List.countP_append, hnone _ _ hbefore,
    hnone _ _ hafter, Nat.zero_add, Nat.add_zero]
  simp only [List.contains_iff_mem]
  split
  · rfl
  · rw [List.countP_singleton, if_pos hl]

/-! ## Columns with their lookups -/

theorem countP_leads_le_one {ls : List Lookup} (h : (ls.map fun l => (l.fromTable, l.fromCol, l.toTable)).Nodup)
    (table column target : String) : ls.countP (Lookup.leads table column target) ≤ 1 := by
  have hcount := List.nodup_iff_count_le_one.mp h (table, column, target)
  rw [List.count, List.countP_map] at hcount
  refine Nat.le_trans (List.countP_mono_left fun l _ hl => ?_) hcount
  simpa [Lookup.leads, and_assoc] using hl

/-- Of the inferred lookups, a reference has its own unless the key of that is taken. -/
theorem countP_inferred {s : Schema} (htables : s.tableNames.Nodup) (hcolumns : ∀ t ∈ s.tables, t.columnNames.Nodup)
    {before after : List Reference} {r : Reference} (hsplit : s.references = before ++ r :: after) :
    s.inferred.countP (Lookup.leads r.fromTable r.fromCol r.target.name) =
      if r.key s.references ∈ s.lookupKeys ++ before.map (Reference.key s.references) then 0 else 1 := by
  -- no other reference starts from this column
  have hother : ∀ r' ∈ before ++ after,
      Lookup.leads r.fromTable r.fromCol r.target.name (r'.toLookup s.references) = false := by
    have hnodup := nodup_references htables hcolumns
    rw [hsplit, List.map_append, List.map_cons] at hnodup
    have hfresh := (List.nodup_cons.mp (List.nodup_middle.mp hnodup)).1
    intro r' hr'
    refine Bool.eq_false_iff.mpr fun hleads => hfresh ?_
    simp only [Lookup.leads, Reference.toLookup, Bool.and_eq_true, beq_iff_eq] at hleads
    rw [← List.map_append]
    exact List.mem_map.mpr ⟨r', hr', Prod.ext hleads.1.1 hleads.1.2⟩
  have hcount := countP_withNewKeys (p := Lookup.leads r.fromTable r.fromCol r.target.name) s.lookupKeys
    (l := r.toLookup s.references) (by simp [Lookup.leads, Reference.toLookup])
    (List.forall_mem_map.mpr fun r' hr' => hother r' (List.mem_append_left _ hr'))
    (List.forall_mem_map.mpr fun r' hr' => hother r' (List.mem_append_right _ hr'))
  rw [List.map_map, ← List.map_cons, ← List.map_append, ← hsplit] at hcount
  exact hcount

/-- Where tables have distinct names, and so do the columns of each, a column `stem_id` that refers to a table by its name
gets one lookup to that table, unless the key of that lookup is taken when the column is reached: by a lookup of the
schema or by an earlier reference. So it has exactly one such lookup in the end if and only if the schema had one exactly
when the key was taken. -/
theorem infer_leads_once_iff {s : Schema} (htables : s.tableNames.Nodup) (hcolumns : ∀ t ∈ s.tables, t.columnNames.Nodup)
    (honce : (s.lookups.map fun l => (l.fromTable, l.fromCol, l.toTable)).Nodup) {t g : Table} {stem : String}
    (ht : t ∈ s.tables) (hc : stem ++ "_id" ∈ t.columnNames)
    (hg : ["l_" ++ stem, stem, stem ++ "s"].findSome?
      (fun name => (s.table? name).filter (·.columnNames.contains "id")) = some g) :
    let r : Reference := ⟨t.name, stem ++ "_id", g, "id"⟩
    let leads := Lookup.leads t.name (stem ++ "_id") g.name
    r ∈ s.references ∧ ∀ before after, s.references = before ++ r :: after →
      let taken := r.key s.references ∈ s.lookupKeys ++ before.map (Reference.key s.references)
      (s.infer.lookups.countP leads = s.lookups.countP leads + if taken then 0 else 1) ∧
        (s.infer.lookups.countP leads = 1 ↔ (taken ↔ ∃ l ∈ s.lookups, leads l)) := by
  intro r leads
  have hr : r ∈ s.references := by
    obtain ⟨c, hcolumn, hname⟩ := List.mem_map.mp hc
    refine mem_references.mpr ⟨t, ht, c, hcolumn, reference?_eq_some_iff.mpr ⟨stem, g, hname, ?_, by rw [hname]⟩⟩
    simpa only [target?, lastTable?_eq_table? htables] using hg
  refine ⟨hr, fun before after hsplit => ?_⟩
  intro taken
  have hinferred : s.inferred.countP leads = if taken then 0 else 1 := countP_inferred htables hcolumns hsplit
  have hcount : s.infer.lookups.countP leads = s.lookups.countP leads + if taken then 0 else 1 := by
    rw [infer, List.countP_append, hinferred]
  have hle : s.lookups.countP leads ≤ 1 := countP_leads_le_one honce _ _ _
  have hpos : 0 < s.lookups.countP leads ↔ ∃ l ∈ s.lookups, leads l := List.countP_pos_iff
  refine ⟨hcount, ?_⟩
  rw [hcount, ← hpos]
  by_cases htaken : taken
  · simp only [htaken, if_true, true_iff]
    omega
  · simp only [htaken, if_false, false_iff]
    omega

/-- A log of killers and gods, with a lookup into the killers. The other words for gods have no numbers. -/
def logKnowing (key column : String) : Schema where
  tables := [
    { name := "logrecord", columns := [{ name := "id" }, { name := "killer" }, { name := "killer_id" },
      { name := "god_id" }] },
    { name := "l_killer", columns := [{ name := "id" }, { name := "killer" }] },
    { name := "l_god", columns := [{ name := "god" }] }, { name := "gods", columns := [{ name := "id" }, { name := "god" }] }]
  lookups := [{ key := key, fromTable := "logrecord", fromCol := column, toTable := "l_killer", columns := ["killer"] }]

/-- If the lookup is the one that the number of the killer would get, then both numbers have one in the end. -/
theorem infer_leads_once_logKnowing :
    let s := logKnowing "l_killer__logrecord" "killer_id"
    s.infer.lookupKeys = ["l_killer__logrecord", "gods__logrecord"] ∧
      s.infer.lookups.countP (Lookup.leads "logrecord" "killer_id" "l_killer") = 1 ∧
      s.infer.lookups.countP (Lookup.leads "logrecord" "god_id" "gods") = 1 := by
  intro s
  have htables : s.tableNames.Nodup := by decide
  have hcolumns : ∀ t ∈ s.tables, t.columnNames.Nodup := by decide
  have honce : (s.lookups.map fun l => (l.fromTable, l.fromCol, l.toTable)).Nodup := by decide
  have hlog : s.tables[0] ∈ s.tables := List.getElem_mem _
  have htargets : (["l_" ++ "killer", "killer", "killer" ++ "s"].findSome?
        fun name => (s.table? name).filter (·.columnNames.contains "id")) = some s.tables[1] ∧
      (["l_" ++ "god", "god", "god" ++ "s"].findSome?
        fun name => (s.table? name).filter (·.columnNames.contains "id")) = some s.tables[3] := by
    decide +kernel
  have hnames : "killer" ++ "_id" ∈ s.tables[0].columnNames ∧ "god" ++ "_id" ∈ s.tables[0].columnNames := by decide
  have hkiller := (infer_leads_once_iff htables hcolumns honce hlog hnames.1 htargets.1).2 []
    [⟨"logrecord", "god_id", s.tables[3], "id"⟩] rfl
  have hgod := (infer_leads_once_iff htables hcolumns honce hlog hnames.2 htargets.2).2
    [⟨"logrecord", "killer_id", s.tables[1], "id"⟩] [] rfl
  exact ⟨by decide +kernel, hkiller.2.mpr (by decide +kernel), hgod.2.mpr (by decide +kernel)⟩

/-- A lookup from another column may take the key, and a lookup from the column may have another one. -/
theorem infer_leads_never_or_twice :
    let lost := logKnowing "l_killer__logrecord" "killer"
    let twice := logKnowing "l_killer__logrecord__killer_id" "killer_id"
    (∀ s ∈ [lost, twice], s.tableNames.Nodup ∧ (∀ t ∈ s.tables, t.columnNames.Nodup) ∧ s.lookupKeys.Nodup ∧
        (s.lookups.map fun l => (l.fromTable, l.fromCol, l.toTable)).Nodup ∧
        s.target? "killer" = s.table? "l_killer") ∧
      lost.infer.lookups.countP (Lookup.leads "logrecord" "killer_id" "l_killer") = 0 ∧
      twice.infer.lookups.countP (Lookup.leads "logrecord" "killer_id" "l_killer") = 2 := by
  decide +kernel

/-! ## Inferring again -/

theorem mem_tables_of_target? {s : Schema} {stem : String} {g : Table} (h : s.target? stem = some g) :
    g ∈ s.tables ∧ "id" ∈ g.columnNames := by
  obtain ⟨name, -, hname⟩ := List.exists_of_findSome?_eq_some h
  obtain ⟨hlast, hid⟩ := Option.filter_eq_some_iff.mp hname
  exact ⟨List.mem_reverse.mp (List.mem_of_find?_eq_some hlast), List.contains_iff_mem.mp hid⟩

/-- An inferred lookup is that of a reference, and leads from a column `stem_id` to the `id` of a table. -/
theorem exists_reference_of_inferred {s : Schema} {l : Lookup} (hl : l ∈ s.inferred) :
    ∃ t ∈ s.tables, ∃ c ∈ t.columns, ∃ g ∈ s.tables, (∃ stem, c.name = stem ++ "_id") ∧ "id" ∈ g.columnNames ∧
      l = Reference.toLookup s.references ⟨t.name, c.name, g, "id"⟩ := by
  obtain ⟨r, hr, rfl⟩ := List.mem_map.mp ((withNewKeys_sublist _ _).subset hl)
  obtain ⟨t, ht, c, hc, hreference⟩ := mem_references.mp hr
  obtain ⟨stem, g, hstem, hg, rfl⟩ := reference?_eq_some_iff.mp hreference
  obtain ⟨htable, hid⟩ := mem_tables_of_target? hg
  exact ⟨t, ht, c, hc, g, htable, ⟨stem, hstem⟩, hid, rfl⟩

/-- Inference leaves every reference with its key taken. -/
theorem key_mem_lookupKeys_infer {s : Schema} {r : Reference} (hr : r ∈ s.references) :
    r.key s.references ∈ s.infer.lookupKeys := by
  have htaken := key_mem_of_withNewKeys s.lookupKeys (List.mem_map_of_mem (f := Reference.toLookup s.references) hr)
  rw [lookupKeys, infer, List.map_append]
  exact htaken

/-- Inference only looks at tables, so it finds the same references again, and all their keys are taken. -/
theorem inferred_infer (s : Schema) : s.infer.inferred = [] := by
  refine withNewKeys_of_known (List.forall_mem_map.mpr fun r hr => ?_)
  exact key_mem_lookupKeys_infer hr

/-- Inference keeps the tables and the lookups of a schema, whatever their names and keys, and adds lookups behind them.
Their keys are new and told apart. Each leads from a column `stem_id` to the `id` of a table, and exposes the other columns
of that table. In the end every reference by name has its key in the schema, so that there is nothing left to infer. -/
theorem infer_extends (s : Schema) :
    s.infer.tables = s.tables ∧ s.infer.lookups = s.lookups ++ s.inferred ∧
      (s.inferred.map (·.key)).Nodup ∧ (∀ l ∈ s.inferred, l.key ∉ s.lookupKeys) ∧
      (∀ l ∈ s.inferred, ∃ t ∈ s.tables, ∃ c ∈ t.columns, ∃ g ∈ s.tables,
        (∃ stem, c.name = stem ++ "_id") ∧ l.fromTable = t.name ∧ l.fromCol = c.name ∧
          "id" ∈ g.columnNames ∧ l.toTable = g.name ∧ l.toCol = "id" ∧ l.columns = g.columnNames.filter (· != "id")) ∧
      (∀ r ∈ s.references, r.key s.references ∈ s.infer.lookupKeys) ∧
      (s.inferred = [] → s.infer = s) ∧ s.infer.inferred = [] ∧ s.infer.infer = s.infer := by
  have hunchanged : ∀ r : Schema, r.inferred = [] → r.infer = r := by
    intro r hr
    rw [infer, hr, List.append_nil]
  obtain ⟨hnodup, hfresh⟩ := nodup_withNewKeys s.lookupKeys (Reference.toLookups s.references)
  refine ⟨rfl, rfl, hnodup, hfresh, fun l hl => ?_, fun r hr => key_mem_lookupKeys_infer hr, hunchanged s,
    inferred_infer s, hunchanged _ (inferred_infer s)⟩
  obtain ⟨t, ht, c, hc, g, hg, hstem, hid, rfl⟩ := exists_reference_of_inferred hl
  exact ⟨t, ht, c, hc, g, hg, hstem, rfl, rfl, hid, rfl, rfl, rfl⟩

/-- Orders with a column that is there twice, and two tables of one name, of which the last has numbers. The short key is
taken by a lookup that has nothing to do with users. -/
def ordersTwice : Schema where
  tables := [
    { name := "orders", columns := [{ name := "id" }, { name := "user_id" }, { name := "user_id" }, { name := "tag_id" }] },
    { name := "users", columns := [{ name := "name" }] },
    { name := "users", columns := [{ name := "name" }, { name := "id" }, { name := "mail" }] },
    { name := "l_tag", columns := [{ name := "id" }] }]
  lookups := [{ key := "l_tag__orders", fromTable := "parcels", fromCol := "orders", toTable := "orders" }]

/-- The column that is there twice gets one lookup, and the tag gets none. -/
theorem infer_extends_ordersTwice :
    let l : Lookup := ⟨"users__orders__user_id", "orders", "user_id", "users", "id", ["name", "mail"]⟩
    ordersTwice.references.length = 3 ∧ ordersTwice.inferred = [l] ∧ l.key ∉ ordersTwice.lookupKeys ∧
      (∃ g ∈ ordersTwice.tables, l.toTable = g.name ∧ l.columns = g.columnNames.filter (· != "id")) ∧
      ordersTwice.infer.infer = ordersTwice.infer := by
  intro l
  have hinferred : ordersTwice.inferred = [l] := by decide +kernel
  have hl : l ∈ ordersTwice.inferred := hinferred ▸ List.mem_singleton_self l
  obtain ⟨-, -, -, hfresh, hfrom, -, -, -, hagain⟩ := infer_extends ordersTwice
  obtain ⟨t, -, c, -, g, hg, -, -, -, -, htable, -, hcolumns⟩ := hfrom l hl
  exact ⟨by decide +kernel, hinferred, hfresh l hl, ⟨g, hg, htable, hcolumns⟩, hagain⟩

end Schema

end ArenaSql
