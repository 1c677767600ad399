import ArenaSql.Decode.Record
import ArenaSql.Decode.Scalar
import ArenaSql.Schema.Basic

/-!
# Schemas as documents

Every part of a schema is read from a record and written as one, defaults included.
-/

namespace ArenaSql

open Decode

/-! ## Reading -/

def Column.ofValue : Value → Checked Column :=
  record fun fields =>
    Column.mk <$> required fields "name" text
      <*> optional fields "type" "TEXT" text
      <*> optional fields "nullable" true bool
      <* noOthers ["name", "type", "nullable"] fields

def Table.ofValue : Value → Checked Table :=
  record fun fields =>
    Table.mk <$> required fields "name" text
      <*> required fields "columns" (list Column.ofValue)
      <* noOthers ["name", "columns"] fields

def Lookup.ofValue : Value → Checked Lookup :=
  record fun fields =>
    Lookup.mk <$> required fields "key" text
      <*> required fields "from_table" text
      <*> required fields "from_col" text
      <*> required fields "to_table" text
      <*> optional fields "to_col" "id" text
      <*> optional fields "columns" [] (list text)
      <* noOthers ["key", "from_table", "from_col", "to_table", "to_col", "columns"] fields

def Schema.ofValue : Value → Checked Schema :=
  record fun fields =>
    Schema.mk <$> required fields "tables" (list Table.ofValue)
      <*> optional fields "lookups" [] (list Lookup.ofValue)
      <* noOthers ["tables", "lookups"] fields

/-! ## Writing -/

def Column.toValue (c : Column) : Value :=
  .object [("name", .str c.name), ("type", .str c.type), ("nullable", .bool c.nullable)]

def Table.toValue (t : Table) : Value :=
  .object [("name", .str t.name), ("columns", .ofList Column.toValue t.columns)]

def Lookup.toValue (l : Lookup) : Value :=
  .object [("key", .str l.key), ("from_table", .str l.fromTable), ("from_col", .str l.fromCol),
    ("to_table", .str l.toTable), ("to_col", .str l.toCol), ("columns", .ofList .str l.columns)]

def Schema.toValue (s : Schema) : Value :=
  .object [("tables", .ofList Table.toValue s.tables), ("lookups", .ofList Lookup.toValue s.lookups)]

end ArenaSql
