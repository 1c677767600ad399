import ArenaSql.Decimal.Notation
import ArenaSql.Text.Quoted
import ArenaSql.Value.Basic

/-!
# Text of values

`Value.display` is the form a value has inside a list or an object, and `Value.text` the form it has on its
own. `Value.literal` is the form it has as a literal of a query, where null, truth values and text take their
SQL spelling.
-/

namespace ArenaSql.Value

mutual

def display : Value → String
  | .null => "None"
  | .bool b => if b then "True" else "False"
  | .int n => toString n
  | .float x => Decimal.standard.text x
  | .str s => Text.display s
  | .list items => "[" ++ ", ".intercalate (displayItems items) ++ "]"
  | .object fields => "\x7b" ++ ", ".intercalate (displayFields fields) ++ "\x7d"

def displayItems : List Value → List String
  | [] => []
  | v :: rest => v.display :: displayItems rest

def displayFields : List (String × Value) → List String
  | [] => []
  | (k, v) :: rest => (Text.display k ++ ": " ++ v.display) :: displayFields rest

end

def text : Value → String
  | .str s => s
  | v => v.display

def literal : Value → String
  | .null => "NULL"
  | .bool b => if b then "TRUE" else "FALSE"
  | .str s => Text.literal s
  | v => v.display

end ArenaSql.Value
