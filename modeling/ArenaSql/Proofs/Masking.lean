import ArenaSql.Proofs.Clauses
import ArenaSql.Proofs.Literals

/-!
# Masked queries

Masking replaces all literals other than null by one and the same value, in a query and in the queries nested in it.
Queries with equal masks differ in the values of literals at most. Fields are resolved in a masked query as they are
in the query, and its expressions are the masked ones.
-/

namespace ArenaSql

/-! ## Values and fragments -/

def Value.masked : Value → Value
  | .null => .null
  | _ => .bool true

@[simp] theorem Value.masked_eq_null_iff {v : Value} : v.masked = .null ↔ v = .null := by
  cases v <;> simp [masked]

def Piece.masked : Piece → Piece
  | .plain text => .plain text
  | .bound v mark => .bound v.masked mark

@[simp] theorem Piece.text_masked (piece : Piece) : piece.masked.text = piece.text := by
  cases piece <;> rfl

def Sql.masked (sql : Sql) : Sql :=
  sql.map Piece.masked

namespace Sql

@[simp] theorem masked_plain (s : String) : masked (plain s) = plain s := rfl

@[simp] theorem masked_append (a b : Sql) : masked (a ++ b) = masked a ++ masked b :=
  List.map_append

@[simp] theorem text_masked (sql : Sql) : text (masked sql) = text sql := by
  simp [text, masked, Function.comp_def]

@[simp] theorem isBlank_masked (sql : Sql) : isBlank (masked sql) = isBlank sql := by
  simp [isBlank, masked, Function.comp_def]

@[simp] theorem masked_parenthesized (sql : Sql) : masked sql.parenthesized = (masked sql).parenthesized := by
  simp [parenthesized]

@[simp] theorem masked_wrap (embedding : Embedding) (sql : Sql) :
    masked (embedding.wrap sql) = embedding.wrap (masked sql) := by
  cases embedding <;> simp [Embedding.wrap]

theorem masked_joined (separator : String) (parts : List Sql) :
    masked (joined separator parts) = joined separator (parts.map masked) := by
  induction parts with
  | nil => rfl
  | cons sql rest ih =>
    cases rest with
    | nil => rfl
    | cons next more => simp only [joined, masked_append, masked_plain, ih, List.map_cons]

end Sql

def Statement.masked (statement : Statement) : Statement :=
  ⟨statement.sql.masked, statement.values.map Value.masked, statement.dialect⟩

theorem Statement.text_masked (statement : Statement) : statement.masked.text = statement.text :=
  Sql.text_masked statement.sql

/-! ## Expressions -/

def Leaf.masked : Leaf → Leaf
  | .value v => .value v.masked
  | leaf => leaf

mutual

def Tree.masked : Tree → Tree
  | .value v => .value v.masked
  | .func name args => .func name (maskedAll args)
  | .calc op left right => .calc op (fun _ => (left ()).masked) (fun _ => (right ()).masked)
  | .cmp op left right => .cmp op (fun _ => (left ()).masked) (fun _ => (right ()).masked)
  | .cond op args => .cond op (maskedAll args)
  | .sort expr direction => .sort (fun _ => (expr ()).masked) direction
  | .summarise args => .summarise (maskedAll args)
  | t => t

def Tree.maskedAll : List (Unit → Tree) → List (Unit → Tree)
  | [] => []
  | t :: rest => (fun _ => (t ()).masked) :: maskedAll rest

end

namespace Tree

theorem maskedAll_map (f : NodeRef → Tree) (refs : List NodeRef) :
    maskedAll (refs.map fun ref _ => f ref) = refs.map fun ref _ => (f ref).masked := by
  induction refs with
  | nil => simp [maskedAll]
  | cons ref rest ih => simp [maskedAll, ih]

mutual

theorem leaves_masked : (t : Tree) → t.masked.leaves = t.leaves.map Leaf.masked
  | .func _ args | .cond _ args | .summarise args => by
    rw [masked, leaves, leaves]
    exact leavesAll_maskedAll args
  | .calc _ left right | .cmp _ left right => by
    rw [masked, leaves, leaves, List.map_append, leaves_masked (left ()), leaves_masked (right ())]
  | .sort expr _ => by
    rw [masked, leaves, leaves, leaves_masked (expr ())]
  | .value _ | .field .. | .subquery .. | .unknown _ | .broken _ => by
    simp [masked, leaves, Leaf.masked]

theorem leavesAll_maskedAll :
    (ts : List (Unit → Tree)) → leaves.leavesAll (maskedAll ts) = (leaves.leavesAll ts).map Leaf.masked
  | [] => by simp [maskedAll, leaves.leavesAll]
  | t :: rest => by
    rw [maskedAll, leaves.leavesAll, leaves.leavesAll, List.map_append, leaves_masked (t ()), leavesAll_maskedAll rest]

end

theorem isSimple_masked : (t : Tree) → t.masked.isSimple = t.isSimple
  | .sort expr _ => by
    rw [masked, isSimple, isSimple, isSimple_masked (expr ())]
  | .func .. | .calc .. | .cmp .. | .cond .. | .summarise _ => by
    simp [masked, isSimple]
  | .value _ | .field .. | .subquery .. | .unknown _ | .broken _ => by
    simp [masked, isSimple]

theorem isNull_masked (t : Tree) : t.masked.isNull = t.isNull := by
  cases t with
  | value v => cases v <;> simp [masked, isNull, Value.masked]
  | _ => simp [masked, isNull]

theorem operand_masked (t : Tree) (sql : Sql) : t.masked.operand (Sql.masked sql) = Sql.masked (t.operand sql) := by
  have hcompound : t.masked.isCompound = t.isCompound := by
    cases t <;> simp [masked, isCompound]
  rw [operand, operand, hcompound]
  split <;> simp

end Tree

/-! ## Queries -/

mutual

/-- The query with all literals other than null replaced by one value, nested queries included. -/
def Query.masked : Query → Query
  | q@{ nodes, .. } => { q with nodes := maskedAll nodes }

def Node.masked : Node → Node
  | node@{ expr, .. } => { node with expr := expr.masked }

def Expr.masked : Expr → Expr
  | .value v => .value v.masked
  | .subquery query embedding => .subquery query.masked embedding
  | expr => expr

def maskedAll : List Node → List Node
  | [] => []
  | node :: rest => node.masked :: maskedAll rest

end

theorem maskedAll_eq_map (nodes : List Node) : maskedAll nodes = nodes.map Node.masked := by
  induction nodes with
  | nil => rfl
  | cons node rest ih => rw [maskedAll, ih, List.map_cons]

theorem Query.masked_eq (q : Query) : q.masked = q.mapExprs fun _ => Expr.masked := by
  have hnodes : maskedAll q.nodes = (q.mapExprs fun _ => Expr.masked).nodes := by
    apply List.ext_getElem?
    intro i
    rw [maskedAll_eq_map, List.getElem?_map, getElem?_mapExprs]
    cases q.nodes[i]? with
    | none => rfl
    | some node =>
      cases node
      rfl
  cases q
  exact congrArg (fun nodes => Query.mk nodes ..) hnodes

theorem Expr.keepsFields_masked : Expr.KeepsFields fun _ => Expr.masked := by
  intro _ expr field
  cases expr <;> simp [masked]

theorem Expr.treeWith_masked (i : Nat) (sub : NodeRef → Tree) (expr : Expr) :
    expr.masked.treeWith i (fun ref => (sub ref).masked) = (expr.treeWith i sub).masked := by
  cases expr <;> simp [masked, treeWith, Tree.masked, Tree.maskedAll_map]

namespace Query

theorem tree_masked (q : Query) (ref : NodeRef) : q.masked.tree ref = (q.tree ref).masked := by
  rw [masked_eq]
  have hunfold : ∀ n ref, Tree.unfold (q.mapExprs fun _ => Expr.masked).nodes n ref = (Tree.unfold q.nodes n ref).masked := by
    intro n
    induction n with
    | zero => intro ref; simp [Tree.unfold, Tree.masked]
    | succ n ih =>
      intro ref
      have hlocate := q.locate?_mapExprs (fun _ => Expr.masked) ref
      cases h : locate? q.nodes ref with
      | none =>
        rw [h] at hlocate
        rw [Tree.unfold_of_none n h, Tree.unfold_of_none n hlocate, length_mapExprs]
        simp [Tree.masked]
      | some found =>
        obtain ⟨i, node⟩ := found
        rw [h] at hlocate
        rw [Tree.unfold_of_some n h, Tree.unfold_of_some n hlocate, funext ih]
        exact node.expr.treeWith_masked i _
  rw [tree, tree, length_mapExprs, hunfold]

theorem leaves_masked (q : Query) (roots : List NodeRef) : q.masked.leaves roots = (q.leaves roots).map Leaf.masked := by
  rw [leaves, leaves, List.map_flatMap]
  exact List.flatMap_congr fun root _ => by rw [tree_masked, Tree.leaves_masked]

theorem expr?_masked (q : Query) (ref : NodeRef) : q.masked.expr? ref = (q.expr? ref).map Expr.masked := by
  rw [masked_eq, expr?_mapExprs, expr?, node?]
  cases locate? q.nodes ref <;> rfl

theorem groupArgs_masked (q : Query) : q.masked.groupArgs = q.groupArgs := by
  have hlength : q.masked.nodes.length = q.nodes.length := by
    rw [masked_eq, length_mapExprs]
  have hsummarise : q.masked.summarise = q.summarise := by
    rw [masked_eq]
    rfl
  rw [groupArgs, groupArgs, hsummarise, hlength]
  cases q.summarise with
  | none => rfl
  | some root =>
    dsimp only
    rw [expr?_masked]
    cases q.expr? root with
    | none => rfl
    | some expr => cases expr <;> rfl

theorem nesting_masked (q : Query) : q.masked.nesting = q.nesting := by
  refine nested_induction (p := fun q => q.masked.nesting = q.nesting) (fun q ih => ?_) q
  rw [masked_eq]
  refine nesting_mapExprs fun i expr hexpr => ?_
  cases expr with
  | subquery query embedding => rw [Expr.masked, Expr.nesting, Expr.nesting, ih i query embedding hexpr]
  | _ => rfl

/-! ## Literals -/

theorem leafPositions_masked (q : Query) (n : Nat) (ref : NodeRef) :
    leafPositions q.masked.nodes n ref = leafPositions q.nodes n ref := by
  have hleaf : ∀ (i : Nat) (expr : Expr), (expr.masked.leaf? i).toList.map (fun _ => i) =
      (expr.leaf? i).toList.map fun _ => i := by
    intro i expr
    cases expr <;> rfl
  have hchildren : ∀ expr : Expr, expr.masked.children = expr.children := by
    intro expr
    cases expr <;> rfl
  rw [masked_eq]
  induction n generalizing ref with
  | zero => rfl
  | succ n ih =>
    rw [leafPositions, leafPositions, locate?_mapExprs]
    cases locate? q.nodes ref with
    | none => rfl
    | some found =>
      simp only [Option.map_some, hleaf, hchildren]
      exact congrArg _ (List.flatMap_congr fun child _ => ih child)

/-- A masked query has literals in the same places. -/
theorem literals_masked (q : Query) : q.masked.literals = q.literals := by
  refine nested_induction (p := fun q => q.masked.literals = q.literals) (fun q ih => ?_) q
  have hpositions : q.masked.livePositions = q.livePositions := by
    have hroots : q.masked.liveRoots = q.liveRoots := by
      rw [masked_eq]
      rfl
    have hlength : q.masked.nodes.length = q.nodes.length := by
      rw [masked_eq, length_mapExprs]
    rw [livePositions, livePositions, hroots, hlength]
    exact List.flatMap_congr fun root _ => q.leafPositions_masked _ root
  rw [literals_eq, literals_eq, hpositions]
  refine List.flatMap_congr fun i _ => ?_
  rw [literalsAt, literalsAt, expr?_masked]
  cases hexpr : q.expr? (.index i) with
  | none => rfl
  | some expr =>
    cases expr with
    | value v => simp [Expr.masked, Expr.literals]
    | subquery query embedding => simp [Expr.masked, Expr.literals, ih i query embedding hexpr]
    | _ => rfl

/-! ## Passes -/

theorem reverseEach_masked (refs : List NodeRef) (q : Query) :
    q.masked.reverseEach refs = ((q.reverseEach refs).1.masked, (q.reverseEach refs).2) := by
  have hreverse : ∀ (q : Query) (i : Nat), q.masked.reverseAt i = (q.reverseAt i).masked := by
    intro q i
    rw [masked_eq, masked_eq, reverseAt_eq, reverseAt_eq, mapExprs_mapExprs, mapExprs_mapExprs]
    congr 1
    funext j expr
    cases expr with
    | sort ref direction =>
      simp only [Expr.masked, reversedAt]
      split <;> rfl
    | _ => rfl
  induction refs generalizing q with
  | nil => rfl
  | cons ref rest ih =>
    have hlocate := q.locate?_mapExprs (fun _ => Expr.masked) ref
    rw [← masked_eq] at hlocate
    have hlength : q.masked.nodes.length = q.nodes.length := by
      rw [masked_eq, length_mapExprs]
    rw [reverseEach, reverseEach, hlocate, hlength]
    cases locate? q.nodes ref with
    | none => rfl
    | some found =>
      dsimp only [Option.map_some]
      rw [hreverse, ih]

theorem settleIndex_masked (q : Query) : q.masked.settleIndex = (q.settleIndex.1.masked, q.settleIndex.2) := by
  have hreverse := reverseEach_masked q.order
  simp only [masked_eq] at hreverse ⊢
  have hindex : (q.mapExprs fun _ => Expr.masked).recordIndex = q.recordIndex := rfl
  rw [settleIndex, settleIndex, hindex]
  cases q.recordIndex with
  | none => rfl
  | some index =>
    dsimp only
    split
    · rfl
    · split
      · exact hreverse { q with recordIndex := some index.neg, forms := Fields.erase "record_index" q.forms }
      · rfl

variable {schema : Schema} {type : JoinType}

theorem resolveLeaves_map_masked (leaves : List Leaf) (q : Query) :
    q.resolveLeaves schema type (leaves.map Leaf.masked) = q.resolveLeaves schema type leaves := by
  induction leaves generalizing q with
  | nil => rfl
  | cons leaf rest ih =>
    cases leaf with
    | field i =>
      change Leaf.visitAll _ (.field i :: rest.map Leaf.masked) q = Leaf.visitAll _ (.field i :: rest) q
      rw [Leaf.visitAll, Leaf.visitAll]
      cases q.resolveAt schema type i with
      | error e => rfl
      | ok q' => exact ih q'
    | broken fault => rfl
    | value | subquery | unknown => exact ih q

theorem resolveTrees_masked (roots : List NodeRef) (q : Query) :
    q.masked.resolveTrees schema type roots =
      ((q.resolveTrees schema type roots).1.masked, (q.resolveTrees schema type roots).2) := by
  rw [resolveTrees_eq, resolveTrees_eq, leaves_masked, resolveLeaves_map_masked, masked_eq, masked_eq]
  exact resolveLeaves_mapExprs Expr.keepsFields_masked _ q

end Query

end ArenaSql
