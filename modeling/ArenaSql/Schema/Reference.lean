import ArenaSql.Schema.Basic

/-!
# References between tables

A reference says that a column of one table holds values of a column of another. Lookups are made from a list
of references. The key of a lookup names the two tables, and the referring column as well when a table refers
to itself or the list has several references between the same two tables.
-/

namespace ArenaSql

structure Reference where
  fromTable : String
  fromCol : String
  target : Table
  toCol : String

namespace Reference

def samePair (r s : Reference) : Bool :=
  r.fromTable == s.fromTable && r.target.name == s.target.name

/-- Whether the two table names do not single out `r` among `all`. -/
def ambiguous (all : List Reference) (r : Reference) : Bool :=
  r.fromTable == r.target.name || 1 < all.countP r.samePair

def key (all : List Reference) (r : Reference) : String :=
  if r.ambiguous all then r.target.name ++ "__" ++ r.fromTable ++ "__" ++ r.fromCol
  else r.target.name ++ "__" ++ r.fromTable

/-- The lookup exposes all columns of the target but the one referred to. -/
def toLookup (all : List Reference) (r : Reference) : Lookup where
  key := r.key all
  fromTable := r.fromTable
  fromCol := r.fromCol
  toTable := r.target.name
  toCol := r.toCol
  columns := r.target.columnNames.filter (· != r.toCol)

def toLookups (references : List Reference) : List Lookup :=
  references.map (toLookup references)

end Reference

end ArenaSql
