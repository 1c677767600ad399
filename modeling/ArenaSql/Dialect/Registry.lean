import ArenaSql.Dialect.Basic
import ArenaSql.Text.Order

/-!
# Dialect registry

Dialects are found by target name. A name registered again stands for the newer dialect.
-/

namespace ArenaSql

structure Registry where
  entries : List (String × Dialect)

namespace Registry

def standard : Registry :=
  ⟨[("generic", .generic), ("sqlite", .sqlite), ("postgres", .postgres), ("mysql", .mysql)]⟩

def find? (r : Registry) (name : String) : Option Dialect :=
  (r.entries.find? (·.1 == name)).map (·.2)

def register (r : Registry) (name : String) (dialect : Dialect) : Registry :=
  ⟨(name, dialect) :: r.entries.filter (·.1 != name)⟩

/-- The registered names, in code point order. -/
def targets (r : Registry) : List String :=
  Text.sort (r.entries.map (·.1))

end Registry

end ArenaSql
