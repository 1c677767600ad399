import ArenaSql.Error
import ArenaSql.Query.Basic

/-!
# Expression trees

A reference into the arena unfolds to a tree. Where the arena ends or a reference leads back to where it came
from, the tree is broken. Trees are read from left to right, and no reading gets past a broken place. As nodes
may be shared, a tree can be far larger than its arena; so a branch is a function that unfolds when it is
called, and only what is read is ever unfolded.

A path through the arena without repetition has at most as many nodes as the arena, so one level more than that
tells a cycle from a tree.
-/

namespace ArenaSql

inductive Tree where
  /-- A field, and the position of its node. -/
  | field (index : Nat) (field : Field)
  | value (value : Value)
  | func (name : String) (args : List (Unit → Tree))
  | calc (op : CalcOp) (left right : Unit → Tree)
  | cmp (op : CmpOp) (left right : Unit → Tree)
  | cond (op : CondOp) (args : List (Unit → Tree))
  | sort (expr : Unit → Tree) (direction : Direction)
  | summarise (args : List (Unit → Tree))
  /-- A nested query, by the position of its node. -/
  | subquery (index : Nat) (embedding : Embedding)
  /-- A node of a kind that has no text. -/
  | unknown (className : String)
  | broken (fault : ArenaFault)

namespace Tree

/-- The tree that a reference into an arena leads to, at most `n` levels deep. -/
def unfold (nodes : List Node) : Nat → NodeRef → Tree
  | 0, _ => .broken .cyclic
  | n + 1, ref =>
    match locate? nodes ref with
    | none => .broken (.outside ref nodes.length)
    | some (index, node) =>
      match node.expr with
      | .field f => .field index f
      | .value v => .value v
      | .func name args => .func name (args.map fun ref _ => unfold nodes n ref)
      | .calc op left right => .calc op (fun _ => unfold nodes n left) (fun _ => unfold nodes n right)
      | .cmp op left right => .cmp op (fun _ => unfold nodes n left) (fun _ => unfold nodes n right)
      | .cond op args => .cond op (args.map fun ref _ => unfold nodes n ref)
      | .sort expr direction => .sort (fun _ => unfold nodes n expr) direction
      | .summarise args => .summarise (args.map fun ref _ => unfold nodes n ref)
      | .subquery _ embedding => .subquery index embedding
      | .bare => .unknown (Expr.className .bare)
      | .raw given => .unknown (Expr.className (.raw given))

/-! ## Fields -/

section Walk

variable {σ : Type} (visit : Nat → σ → σ × Option CompileError)

mutual

/-- Visits the fields from left to right by their positions. The walk ends at a visit that fails and at a
broken place. -/
def walk : Tree → σ → σ × Option CompileError
  | .field index _, s => visit index s
  | .func _ args, s | .cond _ args, s | .summarise args, s => walkAll args s
  | .calc _ left right, s | .cmp _ left right, s =>
    match walk (left ()) s with
    | (s, none) => walk (right ()) s
    | failed => failed
  | .sort expr _, s => walk (expr ()) s
  | .value _, s | .subquery .., s | .unknown _, s => (s, none)
  | .broken fault, s => (s, some (.arena fault))

def walkAll : List (Unit → Tree) → σ → σ × Option CompileError
  | [], s => (s, none)
  | t :: rest, s =>
    match walk (t ()) s with
    | (s, none) => walkAll rest s
    | failed => failed

end

end Walk

/-- The positions of the fields, left to right, and the fault that ends the reading. -/
def fields (t : Tree) : List Nat × Option CompileError :=
  let (found, fault) := t.walk (fun index found => (index :: found, none)) []
  (found.reverse, fault)

/-! ## Kinds of trees -/

/-- Columns and literals, sorted or not, are simple: they never need an alias of their own. -/
def isSimple : Tree → Except ArenaFault Bool
  | .sort expr _ => (expr ()).isSimple
  | .field .. | .value _ => .ok true
  | .broken fault => .error fault
  | _ => .ok false

/-- Whether the text of an operand stands in parentheses. -/
def isCompound : Tree → Bool
  | .calc .. | .cmp .. | .cond .. => true
  | _ => false

def isNull : Tree → Bool
  | .value .null => true
  | _ => false

end Tree

/-- The expression that a reference leads to. -/
def Query.tree (q : Query) (ref : NodeRef) : Tree :=
  Tree.unfold q.nodes (q.nodes.length + 1) ref

end ArenaSql
