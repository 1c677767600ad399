import ArenaSql.Query.FieldName
import ArenaSql.Query.NodeRef
import ArenaSql.Query.Operator
import ArenaSql.Query.RecordIndex
import ArenaSql.Query.Sources

/-!
# Queries

The expressions of a query live in an arena, a list of nodes that refer to each other by position. A reference
to no position of the arena dangles. The other parts of a query refer into the arena: the select list, the
filter, the grouping, the condition on groups and the ordering. A node may hold a whole nested query with an
arena of its own.

An edit may put a value of any type in the place of a part. The part then holds what such a value amounts to,
and `forms` keeps the value itself, which documents show.
-/

namespace ArenaSql

/-- A named column. Once resolved, `table` is where it lives, or nothing for the primary table. -/
structure Field where
  name : FieldName
  table : Option String := none
  resolved : Bool := false
  forms : Fields := []
  deriving DecidableEq

mutual

structure Query where
  nodes : List Node := []
  select : List NodeRef := []
  /-- Root of the filter. -/
  head : Option NodeRef := none
  /-- The grouping. -/
  summarise : Option NodeRef := none
  having : Option NodeRef := none
  order : List NodeRef := []
  options : List (String × List String) := []
  tables : Sources
  /-- Compiled for embedding in another query. -/
  subquery : Bool := false
  /-- Embedded as a test whether there are rows. -/
  existsQuery : Bool := false
  /-- Embedded as a scalar expression. -/
  subqueryExpression : Bool := false
  aliasName : Option String := none
  /-- The wanted record. -/
  recordIndex : Option RecordIndex := none
  ordered : Bool := false
  /-- Collapses to one row of aggregates. -/
  simpleAggregate : Bool := false
  forms : Fields := []

structure Node where
  aliasName : Option String := none
  expr : Expr
  forms : Fields := []

inductive Expr where
  | field (field : Field)
  | value (value : Value)
  | func (name : String) (args : List NodeRef)
  | calc (op : CalcOp) (left right : NodeRef)
  | cmp (op : CmpOp) (left right : NodeRef)
  | cond (op : CondOp) (args : List NodeRef)
  | sort (expr : NodeRef) (direction : Direction)
  | summarise (args : List NodeRef)
  | subquery (query : Query) (embedding : Embedding)
  /-- A node without any content. -/
  | bare
  /-- A value in the place of a node. -/
  | raw (given : Value)

end

namespace Expr

/-- The name of the kind of a node, as messages give it. -/
def className : Expr → String
  | .field _ => "FieldNode"
  | .value _ => "ValueNode"
  | .func .. => "FuncNode"
  | .calc .. => "CalcNode"
  | .cmp .. => "CmpNode"
  | .cond .. => "CondNode"
  | .sort .. => "SortNode"
  | .summarise _ => "SummariseNode"
  | .subquery .. => "SubqueryNode"
  | .bare => "ExprNode"
  | .raw given => given.typeName

/-- The nodes an expression refers to, left to right. A nested query is an arena of its own. -/
def children : Expr → List NodeRef
  | .func _ args | .cond _ args | .summarise args => args
  | .calc _ left right | .cmp _ left right => [left, right]
  | .sort expr _ => [expr]
  | .field _ | .value _ | .subquery .. | .bare | .raw _ => []

end Expr

/-! ## The arena -/

/-- The node that a reference leads to, with its position, unless the reference dangles. -/
def locate? (nodes : List Node) (ref : NodeRef) : Option (Nat × Node) := do
  let index ← ref.position?
  let node ← nodes[index]?
  return (index, node)

namespace Query

def node? (q : Query) (ref : NodeRef) : Option Node :=
  (locate? q.nodes ref).map (·.2)

def expr? (q : Query) (ref : NodeRef) : Option Expr :=
  (q.node? ref).map (·.expr)

def setExpr (q : Query) (index : Nat) (expr : Expr) : Query :=
  { q with nodes := q.nodes.modify index fun node => { node with expr := expr } }

/-- Appends a node. Its position is the former size of the arena. -/
def add (q : Query) (node : Node) : Query :=
  { q with nodes := q.nodes ++ [node] }

/-- The arguments of an option. -/
def option? (q : Query) (name : String) : Option (List String) :=
  (q.options.find? (·.1 == name)).map (·.2)

@[simp] theorem length_setExpr (q : Query) (index : Nat) (expr : Expr) :
    (q.setExpr index expr).nodes.length = q.nodes.length := by
  simp [setExpr]

/-- Only the content of the node at the position changes. -/
theorem getElem?_setExpr (q : Query) (index i : Nat) (expr : Expr) :
    (q.setExpr index expr).nodes[i]? =
      if index = i then q.nodes[i]?.map fun node => { node with expr := expr } else q.nodes[i]? := by
  simp only [setExpr, List.getElem?_modify]
  split <;> simp

end Query

/-! ## Nesting -/

mutual

/-- How deep queries are nested in a query. -/
def Query.nesting : Query → Nat
  | { nodes, .. } => nestingAll nodes

def Node.nesting : Node → Nat
  | { expr, .. } => expr.nesting

def Expr.nesting : Expr → Nat
  | .subquery query _ => query.nesting + 1
  | _ => 0

def nestingAll : List Node → Nat
  | [] => 0
  | node :: rest => max node.nesting (nestingAll rest)

end

end ArenaSql
