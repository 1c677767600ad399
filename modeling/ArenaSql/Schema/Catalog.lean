import ArenaSql.Schema.Inference
import ArenaSql.Text.Order

/-!
# Catalogs

A catalog is what a database tells about itself: tables with columns and foreign keys. A schema is read off a
catalog by making each foreign key column a lookup. A foreign key of several columns pairs them with the
referred columns in order, and one that is declared twice counts once. The tables of the schema come after those
they refer to.
-/

namespace ArenaSql

structure ForeignKey where
  columns : List String
  table : String
  targets : List String
  deriving DecidableEq

structure CatalogTable where
  name : String
  columns : List Column
  foreignKeys : List ForeignKey

structure Catalog where
  tables : List CatalogTable

namespace Catalog

def table? (c : Catalog) (name : String) : Option CatalogTable :=
  c.tables.find? (·.name == name)

/-! ## Restriction to some tables -/

/-- The names together with those reached from them by at most `n` foreign keys. -/
def reach (c : Catalog) : Nat → List String → List String
  | 0, names => names
  | n + 1, names =>
    let next := (names.filterMap c.table?).flatMap fun t => t.foreignKeys.map (·.table)
    let fresh := (next.filter (!names.contains ·)).eraseDups
    if fresh.isEmpty then names else c.reach n (names ++ fresh)

/-- The catalog of the given tables and all tables they refer to, directly or not. There is none if a name is
unknown. -/
def restrict? (c : Catalog) (names : List String) : Option Catalog :=
  if names.all fun name => (c.table? name).isSome then
    let kept := c.reach c.tables.length names
    some ⟨c.tables.filter fun t => kept.contains t.name⟩
  else none

/-! ## Order of dependency -/

/-- The other tables that a table refers to. -/
def parents (c : Catalog) (name : String) : List String :=
  match c.table? name with
  | some t => (t.foreignKeys.map (·.table)).filter (· != name)
  | none => []

/-- The tables that have to come before a table. A table that its own references lead back to has none. -/
def dependencies (c : Catalog) (name : String) : List String :=
  let parents := c.parents name
  if (c.reach c.tables.length parents).contains name then [] else parents

/-- Names with those they depend on, put in layers: first the names that depend on none of the others, in the
given order, then those that depend on these, and so on, for at most `n` layers. -/
def layered : Nat → List (String × List String) → List String
  | 0, entries => entries.map (·.1)
  | n + 1, entries =>
    let names := entries.map (·.1)
    let (ready, waiting) := entries.partition fun (_, needs) => needs.all (!names.contains ·)
    ready.map (·.1) ++ if waiting.isEmpty then [] else layered n waiting

/-- The catalog with its tables in the order of dependency, and by name where that leaves a choice. -/
def ordered (c : Catalog) : Catalog :=
  let entries := (Text.sort (c.tables.map (·.name))).map fun name => (name, c.dependencies name)
  ⟨(layered c.tables.length entries).filterMap c.table?⟩

/-! ## Schema of a catalog -/

/-- The references of one table's foreign keys. -/
def tableReferences (c : Catalog) (t : CatalogTable) : List Reference :=
  t.foreignKeys.eraseDups.flatMap fun key =>
    match c.table? key.table with
    | some found => (key.columns.zip key.targets).map fun (column, target) =>
        ⟨t.name, column, ⟨found.name, found.columns⟩, target⟩
    | none => []

def references (c : Catalog) : List Reference :=
  c.tables.flatMap c.tableReferences

def toSchema (c : Catalog) : Schema where
  tables := c.tables.map fun t => ⟨t.name, t.columns⟩
  lookups := Reference.toLookups c.references

end Catalog

namespace Schema

/-- By key, then by referring column, then by referred column. -/
def lookupLe (l m : Lookup) : Bool :=
  if l.key != m.key then Text.le l.key m.key
  else if l.fromCol != m.fromCol then Text.le l.fromCol m.fromCol
  else Text.le l.toCol m.toCol

/-- Tables by name and lookups by key. -/
def sorted (s : Schema) : Schema where
  tables := s.tables.mergeSort fun t u => Text.le t.name u.name
  lookups := s.lookups.mergeSort lookupLe

end Schema

/-- The sorted schema of some or all tables of a catalog, with inferred lookups if wanted. -/
def Catalog.reflect? (c : Catalog) (names : Option (List String)) (inferring : Bool) : Option Schema := do
  let chosen ← match names with
    | some names => c.restrict? names
    | none => some c
  let schema := chosen.ordered.toSchema
  return (if inferring then schema.infer else schema).sorted

end ArenaSql
