/-!
# Schemas

A schema lists tables with their columns, and lookups. A lookup leads from a column of one table to a column
of another and exposes columns of the other table, which queries on the first may then name without
qualification. Names may repeat; the first entry with a name is the one that counts.
-/

namespace ArenaSql

structure Column where
  name : String
  type : String := "TEXT"
  nullable : Bool := true
  deriving DecidableEq

structure Table where
  name : String
  columns : List Column
  deriving DecidableEq

/-- `fromTable.fromCol` refers to `toTable.toCol`; `columns` are columns of `toTable`. -/
structure Lookup where
  key : String
  fromTable : String
  fromCol : String
  toTable : String
  toCol : String := "id"
  columns : List String := []
  deriving DecidableEq

structure Schema where
  tables : List Table
  lookups : List Lookup := []
  deriving DecidableEq

def Table.columnNames (t : Table) : List String :=
  t.columns.map (·.name)

namespace Schema

def tableNames (s : Schema) : List String :=
  s.tables.map (·.name)

def lookupKeys (s : Schema) : List String :=
  s.lookups.map (·.key)

def table? (s : Schema) (name : String) : Option Table :=
  s.tables.find? (·.name == name)

/-- The table at a position. A negative one counts from the end. -/
def tableAt? (s : Schema) (index : Int) : Option Table :=
  (if index < 0 then index + s.tables.length else index).toNat?.bind (s.tables[·]?)

def lookup? (s : Schema) (key : String) : Option Lookup :=
  s.lookups.find? (·.key == key)

def column? (s : Schema) (table column : String) : Option Column :=
  (s.table? table).bind fun t => t.columns.find? (·.name == column)

/-- The first lookup from `table` that exposes `column`. -/
def lookupFor? (s : Schema) (table column : String) : Option Lookup :=
  s.lookups.find? fun l => l.fromTable == table && l.columns.contains column

/-- The first lookup from `table` that leads to `target`. -/
def lookupTo? (s : Schema) (table target : String) : Option Lookup :=
  s.lookups.find? fun l => l.fromTable == table && l.toTable == target

end Schema

end ArenaSql
