import ArenaSql.Query.Sources

/-!
# Configuration

The settings that shape statements without belonging to a query: the target dialect, how generated aliases are
named, which option holds the row count, and how lookup tables are joined.
-/

namespace ArenaSql

open Decode

structure Config where
  dialect : String := "generic"
  /-- What every generated alias ends with, before a number. -/
  aliasSuffix : String := "_alias"
  /-- The alias stem of an expression without letters. -/
  emptyAliasBase : String := "expr"
  countOption : String := "count"
  joinType : JoinType := .left
  deriving DecidableEq

namespace Config

def nonEmptyText : Value → Checked String
  | .str s => if s.isEmpty then .issue .textTooShort else .ok s
  | _ => .issue .notText

def isNameChar (c : Char) : Bool :=
  c.isAlpha || c == '_'

/-- One or more ASCII letters and underscores. -/
def nameText : Value → Checked String
  | .str s => if !s.isEmpty && s.toList.all isNameChar then .ok s else .issue .textPattern
  | _ => .issue .notText

def ofValue : Value → Checked Config :=
  record fun fields =>
    Config.mk <$> optional fields "dialect" "generic" text
      <*> optional fields "alias_suffix" "_alias" nonEmptyText
      <*> optional fields "empty_alias_base" "expr" nameText
      <*> optional fields "count_option" "count" text
      <*> optional fields "join_type" .left JoinType.ofValue
      <* noOthers ["dialect", "alias_suffix", "empty_alias_base", "count_option", "join_type"] fields

def toValue (c : Config) : Value :=
  .object [("dialect", .str c.dialect), ("alias_suffix", .str c.aliasSuffix),
    ("empty_alias_base", .str c.emptyAliasBase), ("count_option", .str c.countOption),
    ("join_type", .str c.joinType.text)]

end Config

end ArenaSql
