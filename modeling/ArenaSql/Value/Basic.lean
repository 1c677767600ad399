import ArenaSql.Decimal.Binary64

/-!
# Values

A value is what a document holds and what a literal in a query stands for. Integers are unbounded and apart
from floating-point numbers, and the fields of an object keep the order in which they were written.
-/

namespace ArenaSql

inductive Value where
  | null
  | bool (b : Bool)
  | int (n : Int)
  | float (x : Binary64)
  | str (s : String)
  | list (items : List Value)
  | object (fields : List (String × Value))

/-- The fields of an object, in order. -/
abbrev Fields := List (String × Value)

namespace Fields

def get? (fields : Fields) (key : String) : Option Value :=
  (fields.find? (·.1 == key)).map (·.2)

/-- Sets a field. A field that is already there keeps its place. -/
def insert (key : String) (value : Value) : Fields → Fields
  | [] => [(key, value)]
  | (k, v) :: rest => if k == key then (k, value) :: rest else (k, v) :: insert key value rest

def erase (key : String) (fields : Fields) : Fields :=
  fields.filter (·.1 != key)

/-- The fields, with the values that `forms` has for them. -/
def showing (forms fields : Fields) : Fields :=
  fields.map fun (name, value) => (name, (forms.get? name).getD value)

@[simp] theorem showing_nil (fields : Fields) : showing [] fields = fields := by
  simp [showing, get?]

end Fields

namespace Value

/-- Whether a value stands for yes. Null, false, zero and what is empty do not. -/
def holds : Value → Bool
  | .null => false
  | .bool b => b
  | .int n => n != 0
  | .float x => !x.isZero
  | .str s => !s.isEmpty
  | .list items => !items.isEmpty
  | .object fields => !fields.isEmpty

/-- The name of the type of a value, as messages give it. -/
def typeName : Value → String
  | .null => "NoneType"
  | .bool _ => "bool"
  | .int _ => "int"
  | .float _ => "float"
  | .str _ => "str"
  | .list _ => "list"
  | .object _ => "dict"

mutual

/-- How deep lists and objects are nested. -/
def depth : Value → Nat
  | .list items => depthItems items + 1
  | .object fields => depthFields fields + 1
  | _ => 0

def depthItems : List Value → Nat
  | [] => 0
  | v :: rest => max v.depth (depthItems rest)

def depthFields : List (String × Value) → Nat
  | [] => 0
  | (_, v) :: rest => max v.depth (depthFields rest)

end

/-! ## Building documents -/

def ofOption {α : Type} (f : α → Value) : Option α → Value
  | none => .null
  | some a => f a

def ofList {α : Type} (f : α → Value) (items : List α) : Value :=
  .list (items.map f)

end Value

end ArenaSql
