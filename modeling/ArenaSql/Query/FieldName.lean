import ArenaSql.ColumnRef
import ArenaSql.Value.Equality
import ArenaSql.Value.Printer

/-!
# Names of fields

A field is named by a text, which is a column or a table and a column. An edit may put any value in the place
of the name. Such a value is shown as it is and names no column of any table.
-/

namespace ArenaSql

inductive FieldName where
  | text (name : String)
  | other (given : Value)
  deriving DecidableEq

namespace FieldName

/-- The name that a value is when it is put in the place of one. -/
def ofAny : Value → FieldName
  | .str name => .text name
  | given => .other given

def toValue : FieldName → Value
  | .text name => .str name
  | .other given => given

/-- The column as it is written, without the table that a text may have before it. -/
def column : FieldName → String
  | .text name => (ColumnRef.parse name).column
  | .other given => given.text

/-- Whether the name is for all columns at once. -/
def isStar : FieldName → Bool
  | .text name => (ColumnRef.parse name).column == "*"
  | .other _ => false

/-- The written form, as long as nothing is known about where the column is. -/
def written : FieldName → String
  | .text name => (ColumnRef.parse name).text
  | .other given => given.text

end FieldName

end ArenaSql
