import ArenaSql.Proofs.Inference
import ArenaSql.Schema.Catalog
import Mathlib.Data.List.Flatten
import Mathlib.Data.List.Infix
import Mathlib.Data.List.Perm.Subperm

/-!
# Keys of the lookups of a catalog

A catalog gives one lookup for each pair of columns of its foreign keys. When the keys of these lookups are distinct, and
when two lookups share one. A key is put together from two or three words, and says nothing about the referred column, so
two references of one column to one table always share a key. All others are told apart by their words. The words are
joined by `__`, though, which may itself be a part of a name, and then lookups of different words may share a key as well.
-/

namespace ArenaSql

/-! ## Words of a key -/

/-- A column of a table that refers to a column of a table. -/
structure Link where
  fromTable : String
  fromCol : String
  toTable : String
  toCol : String
  deriving DecidableEq

def Reference.link (r : Reference) : Link :=
  ⟨r.fromTable, r.fromCol, r.target.name, r.toCol⟩

def Lookup.link (l : Lookup) : Link :=
  ⟨l.fromTable, l.fromCol, l.toTable, l.toCol⟩

namespace Link

def samePair (l m : Link) : Bool :=
  l.fromTable == m.fromTable && l.toTable == m.toTable

/-- The names that the key of a link is put together from. -/
def words (all : List Link) (l : Link) : List String :=
  if l.fromTable = l.toTable ∨ 1 < all.countP l.samePair then [l.toTable, l.fromTable, l.fromCol]
  else [l.toTable, l.fromTable]

def key (all : List Link) (l : Link) : String :=
  "__".intercalate (l.words all)

/-- The link without the referred column. -/
def course (l : Link) : String × String × String :=
  (l.fromTable, l.fromCol, l.toTable)

variable {all : List Link} {l m : Link}

theorem words_perm {all' : List Link} (h : all.Perm all') (l : Link) : l.words all = l.words all' := by
  rw [words, words, h.countP_eq]

theorem one_lt_countP_samePair (hl : l ∈ all) (hm : m ∈ all) (hne : l ≠ m) (hpair : l.samePair m) :
    1 < all.countP l.samePair := by
  have hsubset : [l, m] ⊆ all.filter l.samePair := by
    simpa [hl, hm, samePair] using hpair
  have hnodup : [l, m].Nodup := by simp [hne]
  rw [List.countP_eq_length_filter]
  exact (List.subperm_of_subset hnodup hsubset).length_le

/-- Two links have the same words if they differ in the referred column alone. -/
theorem words_eq_words_iff (hl : l ∈ all) (hm : m ∈ all) (hne : l ≠ m) :
    l.words all = m.words all ↔ l.course = m.course := by
  constructor
  · intro h
    by_cases hlong : l.fromTable = l.toTable ∨ 1 < all.countP l.samePair
    · rw [words, if_pos hlong, words] at h
      split at h
      · simp_all [course]
      · simp at h
    · -- two tables alone are the words of one link only
      rw [words, if_neg hlong, words] at h
      split at h
      · simp at h
      · have hpair : l.samePair m := by simp_all [samePair]
        exact absurd (.inr (one_lt_countP_samePair hl hm hne hpair)) hlong
  · intro h
    simp only [course, Prod.mk.injEq] at h
    obtain ⟨hfrom, hcol, hto⟩ := h
    have hsame : l.samePair = m.samePair := by
      funext k
      rw [samePair, samePair, hfrom, hto]
    rw [words, words, hsame, hfrom, hto, hcol]

/-- Distinct links have distinct keys if no two differ in the referred column alone, and joining the words can be undone. -/
theorem nodup_key_iff (h : all.Nodup) :
    (all.map (key all)).Nodup ↔
      (all.map course).Nodup ∧ ∀ l ∈ all, ∀ m ∈ all, l.key all = m.key all → l.words all = m.words all := by
  rw [List.nodup_map_iff_inj_on h, List.nodup_map_iff_inj_on h]
  constructor
  · intro hkey
    refine ⟨?_, ?_⟩
    · intro l hl m hm hcourse
      by_contra hne
      have hwords := (words_eq_words_iff hl hm hne).mpr hcourse
      exact hne (hkey l hl m hm (congrArg ("__".intercalate ·) hwords))
    · intro l hl m hm hjoined
      rw [hkey l hl m hm hjoined]
  · rintro ⟨hcourse, hjoined⟩ l hl m hm hkey
    by_contra hne
    exact hne (hcourse l hl m hm ((words_eq_words_iff hl hm hne).mp (hjoined l hl m hm hkey)))

end Link

theorem Reference.key_eq (all : List Reference) (r : Reference) : r.key all = r.link.key (all.map link) := by
  have hcount : (all.map link).countP r.link.samePair = all.countP r.samePair := by
    rw [List.countP_map]
    rfl
  rw [key, ambiguous, Link.key, Link.words, hcount]
  simp only [Bool.or_eq_true, beq_iff_eq, decide_eq_true_eq]
  by_cases hlong : r.fromTable = r.target.name ∨ 1 < all.countP r.samePair
  · rw [if_pos hlong, if_pos (by exact hlong)]
    rfl
  · rw [if_neg hlong, if_neg (by exact hlong)]
    rfl

/-! ## Joining without a doubt -/

/-- The separator of a key cannot begin inside the name. -/
def Text.Unparted (name : String) : Prop :=
  ¬ ['_', '_'] <:+: name.toList ++ ['_']

instance (name : String) : Decidable (Text.Unparted name) :=
  inferInstanceAs (Decidable (¬ _))

namespace Text

variable {a a' b b' : String} {x x' : List Char}

theorem Unparted.ne_append (h : Unparted a) : a.toList ≠ b.toList ++ '_' :: '_' :: x := by
  intro heq
  refine h ⟨b.toList, x ++ ['_'], ?_⟩
  rw [heq]
  simp

/-- The first separator is the one behind the first name. -/
theorem Unparted.append_inj (h : Unparted a) (h' : Unparted a')
    (heq : a.toList ++ '_' :: '_' :: x = a'.toList ++ '_' :: '_' :: x') : a = a' ∧ x = x' := by
  have hnil : ∀ {b b' : String} {rest x x' : List Char}, Unparted b' → b'.toList = b.toList ++ rest →
      '_' :: '_' :: x = rest ++ '_' :: '_' :: x' → rest = [] := by
    intro b b' rest x x' hb' hrest hcut
    match rest with
    | [] => rfl
    | [c] =>
      cases hcut
      exact absurd ⟨b.toList, [], by simp [hrest]⟩ hb'
    | c :: d :: more =>
      cases hcut
      exact absurd hrest hb'.ne_append
  rcases List.append_eq_append_iff.mp heq with ⟨rest, hrest, hcut⟩ | ⟨rest, hrest, hcut⟩
  · cases hnil h' hrest hcut
    rw [List.append_nil, String.toList_inj] at hrest
    simp_all
  · cases hnil h hrest hcut
    rw [List.append_nil, String.toList_inj] at hrest
    simp_all

end Text

theorem Link.toList_key (all : List Link) (l : Link) :
    (l.key all).toList = l.toTable.toList ++ '_' :: '_' ::
      (if l.fromTable = l.toTable ∨ 1 < all.countP l.samePair then
        l.fromTable.toList ++ '_' :: '_' :: l.fromCol.toList else l.fromTable.toList) := by
  have hlong : ("__".intercalate [l.toTable, l.fromTable, l.fromCol]).toList =
      l.toTable.toList ++ '_' :: '_' :: (l.fromTable.toList ++ '_' :: '_' :: l.fromCol.toList) := by
    have hjoined : "__".intercalate [l.toTable, l.fromTable, l.fromCol] =
        l.toTable ++ "__" ++ l.fromTable ++ "__" ++ l.fromCol := rfl
    simp [hjoined]
  have hshort : ("__".intercalate [l.toTable, l.fromTable]).toList =
      l.toTable.toList ++ '_' :: '_' :: l.fromTable.toList := by
    have hjoined : "__".intercalate [l.toTable, l.fromTable] = l.toTable ++ "__" ++ l.fromTable := rfl
    simp [hjoined]
  rw [key, words]
  split
  · exact hlong
  · exact hshort

/-- If the separator begins in none of the tables' names, a key tells its words. -/
theorem Link.words_eq_of_key_eq {all : List Link} {l m : Link}
    (hl : Text.Unparted l.fromTable ∧ Text.Unparted l.toTable) (hm : Text.Unparted m.fromTable ∧ Text.Unparted m.toTable)
    (h : l.key all = m.key all) : l.words all = m.words all := by
  have hchars := congrArg String.toList h
  rw [toList_key, toList_key] at hchars
  obtain ⟨hto, hrest⟩ := hl.2.append_inj hm.2 hchars
  rw [words, words]
  by_cases hlong : l.fromTable = l.toTable ∨ 1 < all.countP l.samePair <;>
    by_cases hlong' : m.fromTable = m.toTable ∨ 1 < all.countP m.samePair <;>
    simp only [hlong, hlong', if_true, if_false] at hrest ⊢
  · obtain ⟨hfrom, hcol⟩ := hl.1.append_inj hm.1 hrest
    rw [hto, hfrom, String.toList_inj.mp hcol]
  · exact absurd hrest.symm hm.1.ne_append
  · exact absurd hrest hl.1.ne_append
  · rw [hto, String.toList_inj.mp hrest]

/-! ## Lookups of a catalog -/

theorem eraseDups_sublist {α : Type} [DecidableEq α] : ∀ xs : List α, xs.eraseDups.Sublist xs
  | [] => .refl _
  | x :: rest => by
    have hlength : (rest.filter fun y => !y == x).length < rest.length + 1 :=
      Nat.lt_succ_of_le (List.length_filter_le _ _)
    rw [List.eraseDups_cons]
    exact ((eraseDups_sublist _).trans List.filter_sublist).cons_cons x
termination_by xs => xs.length

/-- What comes again brings nothing, if all that is brought is distinct. -/
theorem flatMap_eraseDups_perm {α β : Type} [DecidableEq α] {f : α → List β} {xs : List α} (h : (xs.flatMap f).Nodup) :
    (xs.eraseDups.flatMap f).Perm (xs.flatMap f) := by
  have hsublist := (eraseDups_sublist xs).flatMap f
  rw [List.perm_ext_iff_of_nodup (h.sublist hsublist) h]
  simp [List.mem_flatMap]

namespace Catalog

/-- The pairs of columns of all foreign keys. -/
def links (c : Catalog) : List Link :=
  c.tables.flatMap fun t => t.foreignKeys.flatMap fun key =>
    (key.columns.zip key.targets).map fun (column, target) => ⟨t.name, column, key.table, target⟩

theorem layered_perm (n : Nat) (entries : List (String × List String)) :
    (layered n entries).Perm (entries.map (·.1)) := by
  induction n generalizing entries with
  | zero => exact .refl _
  | succ n ih =>
    rw [layered, List.partition_eq_filter_filter]
    dsimp only
    generalize (fun entry : String × List String => entry.2.all (!(entries.map (·.1)).contains ·)) = ready
    have hwaiting : ∀ waiting : List (String × List String),
        (if waiting.isEmpty then [] else layered n waiting).Perm (waiting.map (·.1)) := by
      intro waiting
      cases waiting with
      | nil => exact .refl _
      | cons entry rest => exact ih (entry :: rest)
    refine ((hwaiting _).append_left _).trans ?_
    rw [← List.map_append]
    exact (List.filter_append_perm ready entries).map _

variable {c : Catalog}

theorem table?_eq_some_iff (hnames : (c.tables.map (·.name)).Nodup) {name : String} {t : CatalogTable} :
    c.table? name = some t ↔ t ∈ c.tables ∧ t.name = name :=
  find?_eq_some_iff_of_nodup hnames

/-- Each table has its place in the order of dependency. -/
theorem tables_ordered_perm (hnames : (c.tables.map (·.name)).Nodup) : c.ordered.tables.Perm c.tables := by
  have hsorted : (Text.sort (c.tables.map (·.name))).Perm (c.tables.map (·.name)) := List.mergeSort_perm _ _
  have hfound : (c.tables.map (·.name)).filterMap c.table? = c.tables := by
    rw [List.filterMap_map]
    calc c.tables.filterMap (c.table? ∘ (·.name))
      _ = c.tables.filterMap some :=
        List.filterMap_congr fun t ht => (table?_eq_some_iff hnames).mpr ⟨ht, rfl⟩
      _ = c.tables := List.filterMap_some
  have hlayered := layered_perm c.tables.length
    ((Text.sort (c.tables.map (·.name))).map fun name => (name, c.dependencies name))
  rw [List.map_map, show (Prod.fst ∘ fun name => (name, c.dependencies name)) = id from rfl, List.map_id] at hlayered
  have hordered := (hlayered.trans hsorted).filterMap c.table?
  rwa [hfound] at hordered

theorem table?_ordered (hnames : (c.tables.map (·.name)).Nodup) (name : String) :
    c.ordered.table? name = c.table? name := by
  have hperm := tables_ordered_perm hnames
  ext t
  rw [table?_eq_some_iff ((hperm.map _).nodup_iff.mpr hnames), table?_eq_some_iff hnames, hperm.mem_iff]

/-- The foreign keys are references to tables of the catalog. -/
def Closed (c : Catalog) : Prop :=
  ∀ t ∈ c.tables, ∀ key ∈ t.foreignKeys, key.table ∈ c.tables.map (·.name)

instance (c : Catalog) : Decidable c.Closed :=
  inferInstanceAs (Decidable (∀ t ∈ c.tables, ∀ key ∈ t.foreignKeys, _))

theorem references_perm (hnames : (c.tables.map (·.name)).Nodup) (hclosed : c.Closed) (hlinks : c.links.Nodup) :
    (c.references.map Reference.link).Perm c.links := by
  rw [references, links, List.map_flatMap]
  refine List.Perm.flatMap_left _ fun t ht => ?_
  refine List.Perm.trans (.of_eq ?_) (flatMap_eraseDups_perm ((List.nodup_flatMap.mp hlinks).1 t ht))
  rw [tableReferences, List.map_flatMap]
  refine List.flatMap_congr fun key hkey => ?_
  obtain ⟨found, hfound, hname⟩ := List.mem_map.mp (hclosed t ht key (List.mem_eraseDups.mp hkey))
  rw [(table?_eq_some_iff hnames).mpr ⟨hfound, hname⟩, ← hname, List.map_map]
  rfl

theorem references_ordered_perm (hnames : (c.tables.map (·.name)).Nodup) :
    c.ordered.references.Perm c.references := by
  have htable : c.ordered.tableReferences = c.tableReferences := by
    funext t
    simp only [tableReferences, table?_ordered hnames]
  rw [references, htable]
  exact (tables_ordered_perm hnames).flatMap_right _

/-- A lookup is made of each link, and its key of the link. -/
theorem lookups_perm (hnames : (c.tables.map (·.name)).Nodup) (hclosed : c.Closed) (hlinks : c.links.Nodup) :
    (c.ordered.toSchema.lookups.map fun l => (l.link, l.key)).Perm (c.links.map fun l => (l, l.key c.links)) := by
  have hperm : (c.ordered.references.map Reference.link).Perm c.links :=
    ((references_ordered_perm hnames).map _).trans (references_perm hnames hclosed hlinks)
  have hlookups : (c.ordered.toSchema.lookups.map fun l => (l.link, l.key)) =
      (c.ordered.references.map Reference.link).map fun l => (l, l.key c.links) := by
    simp only [toSchema, Reference.toLookups, List.map_map]
    refine List.map_congr_left fun r _ => Prod.ext rfl ?_
    exact (Reference.key_eq _ r).trans (congrArg ("__".intercalate ·) (Link.words_perm hperm _))
  rw [hlookups]
  exact hperm.map _

theorem lookupKeys_perm (hnames : (c.tables.map (·.name)).Nodup) (hclosed : c.Closed) (hlinks : c.links.Nodup) :
    c.ordered.toSchema.lookupKeys.Perm (c.links.map (Link.key c.links)) := by
  have hperm := (lookups_perm hnames hclosed hlinks).map Prod.snd
  rwa [List.map_map, List.map_map] at hperm

theorem unparted_of_mem_links (hclosed : c.Closed) (hplain : ∀ t ∈ c.tables, Text.Unparted t.name) {l : Link}
    (hl : l ∈ c.links) : Text.Unparted l.fromTable ∧ Text.Unparted l.toTable := by
  simp only [links, List.mem_flatMap, List.mem_map] at hl
  obtain ⟨t, ht, key, hkey, pair, -, rfl⟩ := hl
  obtain ⟨found, hfound, hname⟩ := List.mem_map.mp (hclosed t ht key hkey)
  exact ⟨hplain t ht, hname ▸ hplain found hfound⟩

/-- A catalog gives a lookup for each pair of columns of its foreign keys, and nothing else. The keys of the lookups are
distinct exactly if no column refers to two columns of one table and no two keys are joined from different words to the
same text. If the separator begins in no name of a table, different words are joined to different texts. -/
theorem lookupKeys_nodup_iff (hnames : (c.tables.map (·.name)).Nodup) (hclosed : c.Closed) (hlinks : c.links.Nodup) :
    (c.ordered.toSchema.lookups.map Lookup.link).Perm c.links ∧
      (∀ l ∈ c.ordered.toSchema.lookups, l.key = "__".intercalate (l.link.words c.links)) ∧
      (c.ordered.toSchema.lookupKeys.Nodup ↔
        (c.links.map Link.course).Nodup ∧
          ∀ l ∈ c.links, ∀ m ∈ c.links, "__".intercalate (l.words c.links) = "__".intercalate (m.words c.links) →
            l.words c.links = m.words c.links) ∧
      ((∀ t ∈ c.tables, Text.Unparted t.name) →
        (c.ordered.toSchema.lookupKeys.Nodup ↔ (c.links.map Link.course).Nodup)) := by
  have hperm := lookups_perm hnames hclosed hlinks
  have hnodup : c.ordered.toSchema.lookupKeys.Nodup ↔ _ :=
    (lookupKeys_perm hnames hclosed hlinks).nodup_iff.trans (Link.nodup_key_iff hlinks)
  refine ⟨?_, ?_, hnodup, ?_⟩
  · simpa [Function.comp_def] using hperm.map Prod.fst
  · intro l hl
    obtain ⟨m, -, heq⟩ := List.mem_map.mp (hperm.subset (List.mem_map_of_mem hl))
    obtain ⟨rfl, hkey⟩ := Prod.mk.inj heq
    exact hkey.symm
  · intro hplain
    rw [hnodup, and_iff_left]
    intro l hl m hm
    exact Link.words_eq_of_key_eq (unparted_of_mem_links hclosed hplain hl) (unparted_of_mem_links hclosed hplain hm)

/-- Trips between places, along the legs of a route. Places lie inside places. -/
def trips : Catalog where
  tables := [
    ⟨"trip", [{ name := "start" }, { name := "finish" }, { name := "route" }, { name := "leg" }],
      [⟨["start"], "place", ["id"]⟩, ⟨["finish"], "place", ["id"]⟩, ⟨["route", "leg"], "route", ["code", "leg"]⟩]⟩,
    ⟨"place", [{ name := "id" }, { name := "within" }], [⟨["within"], "place", ["id"]⟩]⟩,
    ⟨"route", [{ name := "code" }, { name := "leg" }], []⟩]

theorem lookupKeys_nodup_trips : trips.ordered.toSchema.lookups.length = 5 ∧ trips.ordered.toSchema.lookupKeys.Nodup := by
  obtain ⟨hperm, -, -, hplain⟩ := lookupKeys_nodup_iff (c := trips) (by decide +kernel) (by decide +kernel) (by decide +kernel)
  refine ⟨?_, (hplain (by decide +kernel)).mpr (by decide +kernel)⟩
  rw [← List.length_map, hperm.length_eq]
  rfl

/-- A column with references to two columns of one table. -/
def twoTargets : Catalog where
  tables := [
    ⟨"member", [{ name := "id" }, { name := "card" }, { name := "pass" }], []⟩,
    ⟨"visit", [{ name := "shown" }], [⟨["shown"], "member", ["card"]⟩, ⟨["shown"], "member", ["pass"]⟩]⟩]

/-- The name of a table is that of another with that of the referring table. -/
def partedName : Catalog where
  tables := [
    ⟨"tag", [{ name := "id" }, { name := "label" }], []⟩,
    ⟨"tag__note", [{ name := "id" }, { name := "weight" }], []⟩,
    ⟨"note", [{ name := "note" }, { name := "second" }, { name := "link" }],
      [⟨["note"], "tag", ["id"]⟩, ⟨["second"], "tag", ["id"]⟩, ⟨["link"], "tag__note", ["id"]⟩]⟩]

theorem lookupKeys_shared :
    ((twoTargets.tables.map (·.name)).Nodup ∧ twoTargets.Closed ∧ twoTargets.links.Nodup ∧
      ¬ twoTargets.ordered.toSchema.lookupKeys.Nodup) ∧
    ((partedName.tables.map (·.name)).Nodup ∧ partedName.Closed ∧ partedName.links.Nodup ∧
      ¬ partedName.ordered.toSchema.lookupKeys.Nodup) := by
  have hshared : ∀ c ∈ [twoTargets, partedName], (c.tables.map (·.name)).Nodup ∧ c.Closed ∧ c.links.Nodup ∧
      ¬ (c.links.map (Link.key c.links)).Nodup := by decide +kernel
  -- the order of the tables in the schema does not matter for the keys
  have hkeys : ∀ c ∈ [twoTargets, partedName], (c.tables.map (·.name)).Nodup ∧ c.Closed ∧ c.links.Nodup ∧
      ¬ c.ordered.toSchema.lookupKeys.Nodup := by
    intro c hc
    obtain ⟨hnames, hclosed, hlinks, hkeys⟩ := hshared c hc
    exact ⟨hnames, hclosed, hlinks, fun h => hkeys ((lookupKeys_perm hnames hclosed hlinks).nodup_iff.mp h)⟩
  exact ⟨hkeys twoTargets (by simp), hkeys partedName (by simp)⟩

end Catalog

end ArenaSql
