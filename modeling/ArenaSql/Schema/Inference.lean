import ArenaSql.Schema.Reference

/-!
# Lookups inferred from names

A column `stem_id` refers to the `id` column of `l_stem`, `stem` or `stems`, whichever comes first and has
such a column. The inferred lookups are added behind those that the schema has; one whose key is taken already
is left out.
-/

namespace ArenaSql.Schema

/-- The part of a column name before `_id`. -/
def stem? (column : String) : Option String :=
  let cs := column.toList
  let cut := cs.length - 3
  if cs.drop cut = ['_', 'i', 'd'] then some (String.ofList (cs.take cut)) else none

/-- The last table with a name. -/
def lastTable? (s : Schema) (name : String) : Option Table :=
  s.tables.reverse.find? (·.name == name)

/-- The table that a column `stem_id` refers to. -/
def target? (s : Schema) (stem : String) : Option Table :=
  ["l_" ++ stem, stem, stem ++ "s"].findSome? fun name =>
    (s.lastTable? name).filter (·.columnNames.contains "id")

/-- The reference that a column of a table makes by its name. -/
def reference? (s : Schema) (table : Table) (column : Column) : Option Reference := do
  let target ← s.target? (← stem? column.name)
  return ⟨table.name, column.name, target, "id"⟩

/-- All references made by names, table by table and column by column. -/
def references (s : Schema) : List Reference :=
  s.tables.flatMap fun t => t.columns.filterMap (s.reference? t)

/-- The lookups whose key is not known and not taken by an earlier one. -/
def withNewKeys (known : List String) : List Lookup → List Lookup
  | [] => []
  | l :: rest =>
    if known.contains l.key then withNewKeys known rest else l :: withNewKeys (l.key :: known) rest

/-- The lookups that inference adds. -/
def inferred (s : Schema) : List Lookup :=
  withNewKeys s.lookupKeys (Reference.toLookups s.references)

def infer (s : Schema) : Schema :=
  { s with lookups := s.lookups ++ s.inferred }

end ArenaSql.Schema
