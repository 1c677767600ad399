import ArenaSql.Compile
import ArenaSql.Proofs.Arena

/-!
# Nested queries while a query is compiled

Compiling replaces nested queries, one after another, by what compiling them leaves. Everything else in the query
stays as it is meanwhile: an overlay of the query has the same expressions, and resolving fields goes on in it as
in the query itself.
-/

namespace ArenaSql

namespace Scope

/-- What compiling a nested query yields does not depend on how many placeholders were requested before. -/
def Steady (scope : Scope) : Prop :=
  ∀ q n, (scope.nested q n).query = (scope.nested q 0).query ∧
    (scope.nested q n).result = (scope.nested q 0).result

/-- The statement of the nested query at a position. -/
def nestedAt (scope : Scope) (q : Query) (i : Nat) : Except CompileError Statement :=
  match q.expr? (.index i) with
  | some (.subquery query embedding) => (scope.nested (query.embedded embedding) 0).result
  | some _ => .error (.notSubquery (.index i))
  | none => .error (.arena (.outside (.index i) q.nodes.length))

/-- An expression, in which a nested query is as compiling leaves it. -/
def leftover (scope : Scope) : Expr → Expr
  | .subquery query embedding => .subquery (scope.nested (query.embedded embedding) 0).query embedding
  | expr => expr

/-- The query, in which the nested queries at the `done` positions are as compiling leaves them. -/
def overlay (scope : Scope) (done : Nat → Bool) (q : Query) : Query :=
  q.mapExprs fun i expr => if done i then scope.leftover expr else expr

/-! ## What an overlay leaves alone -/

variable (scope : Scope) (done : Nat → Bool) (q : Query)

@[simp] theorem overlay_none : scope.overlay (fun _ => false) q = q := by
  exact Query.mapExprs_eq_self fun _ _ _ => rfl

@[simp] theorem length_overlay : (scope.overlay done q).nodes.length = q.nodes.length :=
  Query.length_mapExprs _ q

@[simp] theorem overlay_select : (scope.overlay done q).select = q.select := rfl

@[simp] theorem overlay_head : (scope.overlay done q).head = q.head := rfl

@[simp] theorem overlay_summarise : (scope.overlay done q).summarise = q.summarise := rfl

@[simp] theorem overlay_having : (scope.overlay done q).having = q.having := rfl

@[simp] theorem overlay_order : (scope.overlay done q).order = q.order := rfl

@[simp] theorem overlay_tables : (scope.overlay done q).tables = q.tables := rfl

@[simp] theorem overlay_ordered : (scope.overlay done q).ordered = q.ordered := rfl

@[simp] theorem overlay_simpleAggregate : (scope.overlay done q).simpleAggregate = q.simpleAggregate := rfl

@[simp] theorem overlay_limit? (option : String) :
    (scope.overlay done q).limit? option = q.limit? option := rfl

@[simp] theorem overlay_derived (sql : Sql) : (scope.overlay done q).derived sql = q.derived sql := rfl

@[simp] theorem tree_overlay (ref : NodeRef) : (scope.overlay done q).tree ref = q.tree ref := by
  apply Query.tree_mapExprs
  intro i expr sub
  split
  · cases expr <;> rfl
  · rfl

theorem expr?_overlay (i : Nat) :
    (scope.overlay done q).expr? (.index i) =
      (q.expr? (.index i)).map fun expr => if done i then scope.leftover expr else expr :=
  Query.expr?_mapExprs_index _ q i

theorem node?_overlay_aliasName (ref : NodeRef) :
    ((scope.overlay done q).node? ref).map (·.aliasName) = (q.node? ref).map (·.aliasName) :=
  Query.node?_mapExprs_aliasName _ q ref

theorem aliasName_overlay (ref : NodeRef) :
    ((scope.overlay done q).node? ref).bind (·.aliasName.filter (!·.isEmpty)) =
      (q.node? ref).bind (·.aliasName.filter (!·.isEmpty)) := by
  have hnames := node?_overlay_aliasName scope done q ref
  cases hleft : (scope.overlay done q).node? ref <;> cases hright : q.node? ref <;> simp_all

variable {scope done q}

/-! ## Changes of one position -/

/-- A nested query that was compiled joins the overlay. -/
theorem setExpr_overlay_subquery {i : Nat} {query : Query} {embedding : Embedding}
    (h : q.expr? (.index i) = some (.subquery query embedding)) :
    (scope.overlay done q).setExpr i
        (.subquery (scope.nested (query.embedded embedding) 0).query embedding) =
      scope.overlay (fun j => done j || j == i) q := by
  have hnodes : ((scope.overlay done q).setExpr i
        (.subquery (scope.nested (query.embedded embedding) 0).query embedding)).nodes =
      (scope.overlay (fun j => done j || j == i) q).nodes := by
    apply List.ext_getElem?
    intro j
    rw [overlay, overlay, Query.getElem?_setExpr, Query.getElem?_mapExprs, Query.getElem?_mapExprs]
    by_cases hij : i = j
    · subst hij
      rw [Query.expr?_index] at h
      cases hnode : q.nodes[i]? with
      | none => simp
      | some node =>
        rw [hnode, Option.map_some, Option.some.injEq] at h
        simp [h, leftover]
    · have hji : (j == i) = false := by simpa using Ne.symm hij
      simp [hij, hji]
  simpa [Query.setExpr, overlay, Query.mapExprs] using hnodes

end Scope

end ArenaSql
