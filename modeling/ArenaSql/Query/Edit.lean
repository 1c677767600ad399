import ArenaSql.Query.Document

/-!
# Edits

An edit puts a value in the place of a part of a query or of a node, whatever the type of the part. A value of
another type is taken for what it amounts to: any value is a truth value and has a text, a truth value is a
number, and what is no list may still have items. Documents show the value itself. There is no edit of a part
that the query or node does not have, except that a name with an underscore in front is free: what is put there
is not shown and has no effect.
-/

namespace ArenaSql

namespace Value

/-- The items of a value in the place of a list: the characters of a text, and the keys of an object. -/
def items : Value → List Value
  | .list items => items
  | .str s => s.toList.map fun c => .str (String.singleton c)
  | .object fields => fields.map fun (key, _) => .str key
  | _ => []

def isList : Value → Bool
  | .list _ => true
  | _ => false

end Value

/-- What a value amounts to in the place of a part, and whether it is of the type of the part. -/
structure Reading (α : Type) where
  value : α
  fits : Bool

namespace Reading

variable {α β : Type}

def map (f : α → β) (r : Reading α) : Reading β :=
  ⟨f r.value, r.fits⟩

def flag : Value → Reading Bool
  | .bool b => ⟨b, true⟩
  | v => ⟨v.holds, false⟩

def label : Value → Reading String
  | .str s => ⟨s, true⟩
  | v => ⟨v.text, false⟩

/-- A name that may be absent. -/
def name : Value → Reading (Option String)
  | .null => ⟨none, true⟩
  | .str s => ⟨some s, true⟩
  | v => ⟨if v.holds then some v.text else none, false⟩

def reference (v : Value) : Reading NodeRef :=
  ⟨.ofAny v, true⟩

/-- A reference that may be absent. -/
def root : Value → Reading (Option NodeRef)
  | .null => ⟨none, true⟩
  | v => (reference v).map some

def references (v : Value) : Reading (List NodeRef) :=
  ⟨v.items.map .ofAny, v.isList⟩

def recordIndex : Value → Reading (Option RecordIndex)
  | .null => ⟨none, true⟩
  | .int n => ⟨some (.whole n), true⟩
  | .float x => ⟨some (.fractional x), true⟩
  | .bool b => ⟨some (.whole (if b then 1 else 0)), false⟩
  | _ => ⟨none, false⟩

/-- The text that gives the integer part of an argument. -/
def argument : Value → String
  | .str s => s
  | .int n => toString n
  | .bool b => if b then "1" else "0"
  | .float x => ((x.truncate?).map toString).getD ""
  | _ => ""

/-- The arguments of an option. Those of a text are its characters. -/
def arguments : Value → List String
  | .list items => items.map argument
  | .str s => s.toList.map String.singleton
  | _ => []

def options (old : List (String × List String)) : Value → Reading (List (String × List String))
  | .object fields => ⟨fields.map fun (key, v) => (key, arguments v), false⟩
  | _ => ⟨old, false⟩

/-- Nodes. The items are values, though, and no nodes. -/
def nodes (v : Value) : Reading (List Node) :=
  ⟨v.items.map fun item => { expr := .raw item }, true⟩

end Reading

/-- Whether a name is free for any value. -/
def isFreeName (part : String) : Bool :=
  part.toList.head? == some '_'

/-- Notes the value of an edit, unless the part shows it itself. -/
def Fields.note (part : String) (v : Value) (fits : Bool) (forms : Fields) : Fields :=
  if fits then Fields.erase part forms else Fields.insert part v forms

/-! ## Nodes -/

def Field.assign? (f : Field) (part : String) (v : Value) : Option Field :=
  let noted {α : Type} (r : Reading α) (put : α → Field) : Field :=
    { put r.value with forms := f.forms.note part v r.fits }
  match part with
  | "name" => some { f with name := .ofAny v }
  | "table" => some (noted (Reading.name v) fun a => { f with table := a })
  | "resolved" => some (noted (Reading.flag v) fun a => { f with resolved := a })
  | _ => none

/-- The expression with a value in the place of a part. A word may be any value, and the kind is not part of
what an expression is. -/
def Expr.assign? (expr : Expr) (part : String) (v : Value) : Option (Reading Expr) :=
  match expr, part with
  | .bare, _ | .raw _, _ => none
  | expr, "kind" => some ⟨expr, false⟩
  | .field f, part => (f.assign? part v).map fun f => ⟨.field f, true⟩
  | .value _, "value" => some ⟨.value v, true⟩
  | .func _ args, "func" => some ((Reading.label v).map (.func · args))
  | .func name _, "args" => some ((Reading.references v).map (.func name ·))
  | .calc _ left right, "op" => some ⟨.calc (.ofAny v) left right, true⟩
  | .calc op _ right, "left" => some ((Reading.reference v).map (.calc op · right))
  | .calc op left _, "right" => some ((Reading.reference v).map (.calc op left ·))
  | .cmp _ left right, "op" => some ⟨.cmp (.ofAny v) left right, true⟩
  | .cmp op _ right, "left" => some ((Reading.reference v).map (.cmp op · right))
  | .cmp op left _, "right" => some ((Reading.reference v).map (.cmp op left ·))
  | .cond _ args, "op" => some ⟨.cond (.ofAny v) args, true⟩
  | .cond op _, "args" => some ((Reading.references v).map (.cond op ·))
  | .sort _ direction, "expr" => some ((Reading.reference v).map (.sort · direction))
  | .sort expr _, "direction" => some ⟨.sort expr (.ofAny v), true⟩
  | .summarise _, "args" => some ((Reading.references v).map .summarise)
  | .subquery query _, "mode" => some ⟨.subquery query (.ofAny v), true⟩
  | .subquery query embedding, "query" => some ⟨.subquery query embedding, false⟩
  | _, _ => none

/-- The node with a value in the place of a part. -/
def Node.assign? (node : Node) (part : String) (v : Value) : Option Node :=
  if part = "alias" then
    let r := Reading.name v
    some { node with aliasName := r.value, forms := node.forms.note part v r.fits }
  else if isFreeName part then some node
  else
    (node.expr.assign? part v).map fun r =>
      { node with expr := r.value, forms := node.forms.note part v r.fits }

/-! ## Queries -/

/-- The query with a value in the place of a part. -/
def Query.assign? (q : Query) (part : String) (v : Value) : Option Query :=
  let noted {α : Type} (r : Reading α) (put : α → Query) : Query :=
    { put r.value with forms := q.forms.note part v r.fits }
  match part with
  | "nodes" => some (noted (Reading.nodes v) fun a => { q with nodes := a })
  | "select" => some (noted (Reading.references v) fun a => { q with select := a })
  | "head" => some (noted (Reading.root v) fun a => { q with head := a })
  | "summarise" => some (noted (Reading.root v) fun a => { q with summarise := a })
  | "having" => some (noted (Reading.root v) fun a => { q with having := a })
  | "order" => some (noted (Reading.references v) fun a => { q with order := a })
  | "options" => some (noted (Reading.options q.options v) fun a => { q with options := a })
  | "tables" => some (noted ⟨q.tables, false⟩ fun a => { q with tables := a })
  | "subquery" => some (noted (Reading.flag v) fun a => { q with subquery := a })
  | "exists_query" => some (noted (Reading.flag v) fun a => { q with existsQuery := a })
  | "subquery_expression" => some (noted (Reading.flag v) fun a => { q with subqueryExpression := a })
  | "alias" => some (noted (Reading.name v) fun a => { q with aliasName := a })
  | "record_index" => some (noted (Reading.recordIndex v) fun a => { q with recordIndex := a })
  | "ordered" => some (noted (Reading.flag v) fun a => { q with ordered := a })
  | "simple_aggregate" => some (noted (Reading.flag v) fun a => { q with simpleAggregate := a })
  | part => if isFreeName part then some q else none

def Query.setNode (q : Query) (index : Nat) (node : Node) : Query :=
  { q with nodes := q.nodes.set index node }

/-- The record index, as an edit gave it. -/
def Query.recordIndexValue (q : Query) : Value :=
  (Fields.get? q.forms "record_index").getD (.ofOption RecordIndex.toValue q.recordIndex)

/-- The value that an option has. -/
def Query.optionValue (q : Query) (name : String) : Value :=
  match Fields.get? q.forms "options" with
  | some (.object fields) => (Fields.get? fields name).getD .null
  | _ => .ofOption (.ofList .str) (q.option? name)

/-- The joins, as an edit gave them. -/
def Query.joinsValue (q : Query) : Value :=
  match Fields.get? q.forms "tables" with
  | some (.object fields) => (Fields.get? fields "joins").getD .null
  | _ => .ofList Join.toValue q.tables.joins

/-- Gives the primary table an alias. -/
def Sources.setAlias (s : Sources) (v : Value) : Sources :=
  let r := Reading.name v
  { s with aliasName := r.value, aliasForm := if r.fits then none else some v }

/-- The qualifier of the primary table, as an edit gave it. -/
def Sources.qualifierValue (s : Sources) : Value :=
  (s.aliasForm.filter (·.holds)).getD (.str s.qualifier)

end ArenaSql
