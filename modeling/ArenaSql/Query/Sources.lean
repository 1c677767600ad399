import ArenaSql.Decode.Record
import ArenaSql.Decode.Scalar
import ArenaSql.Value.Equality

/-!
# Sources of a query

A query reads one primary table, which may have an alias, and the tables that were joined to it through
lookups, in the order in which they were first needed.
-/

namespace ArenaSql

open Decode

inductive JoinType where
  | inner
  | left
  deriving DecidableEq

namespace JoinType

def all : List JoinType := [.inner, .left]

def text : JoinType → String
  | .inner => "INNER"
  | .left => "LEFT"

def ofValue : Value → Checked JoinType :=
  choice all text

end JoinType

/-- A joined table, and the key of the lookup it was joined through. -/
structure Join where
  lookup : String
  table : String
  fromCol : String
  toCol : String
  type : JoinType := .left
  deriving DecidableEq

structure Sources where
  table : String
  aliasName : Option String := none
  joins : List Join := []
  /-- The alias as an edit gave it, if that was no text. -/
  aliasForm : Option Value := none
  deriving DecidableEq

namespace Sources

/-- The alias of the primary table, or its name. An empty alias counts as none. -/
def qualifier (s : Sources) : String :=
  match s.aliasName with
  | some name => if name.isEmpty then s.table else name
  | none => s.table

def hasJoin (s : Sources) (lookup : String) : Bool :=
  s.joins.any (·.lookup == lookup)

end Sources

/-! ## Documents -/

def Join.ofValue : Value → Checked Join :=
  record fun fields =>
    Join.mk <$> required fields "lookup" text
      <*> required fields "table" text
      <*> required fields "from_col" text
      <*> required fields "to_col" text
      <*> optional fields "type" .left JoinType.ofValue
      <* noOthers ["lookup", "table", "from_col", "to_col", "type"] fields

def Join.toValue (j : Join) : Value :=
  .object [("lookup", .str j.lookup), ("table", .str j.table), ("from_col", .str j.fromCol),
    ("to_col", .str j.toCol), ("type", .str j.type.text)]

def Sources.ofValue : Value → Checked Sources :=
  record fun fields =>
    (fun table aliasName joins => { table, aliasName, joins }) <$> required fields "table" text
      <*> optional fields "alias" none (nullable text)
      <*> optional fields "joins" [] (list Join.ofValue)
      <* noOthers ["table", "alias", "joins"] fields

def Sources.toValue (s : Sources) : Value :=
  .object [("table", .str s.table), ("alias", s.aliasForm.getD (.ofOption .str s.aliasName)),
    ("joins", .ofList Join.toValue s.joins)]

end ArenaSql
