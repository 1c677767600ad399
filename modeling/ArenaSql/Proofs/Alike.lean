import ArenaSql.Proofs.Clauses
import ArenaSql.Proofs.Joins

/-!
# Alike expressions

Trees are alike if they differ in the positions of their nodes at most. Positions are all that tells a shared node
from a copy, so alike trees are what arenas have in common that hold the same expressions in different ways. Which
nested queries are taken for the same is given as a relation between positions.

Everything that is read off a tree through a view, from the texts of fields to the aliases, is the same for alike
trees, as long as the nested queries have the same statements.
-/

namespace ArenaSql

/-! ## Results -/

/-- If `x` succeeds, so does `y`, with the same result. -/
def Except.Forces {ε α : Type} (x y : Except ε α) : Prop :=
  ∀ a, x = .ok a → y = .ok a

namespace Except.Forces

variable {ε α β : Type}

theorem refl (x : Except ε α) : Forces x x := fun _ h => h

theorem error (e : ε) (y : Except ε α) : Forces (.error e) y := fun _ h => by cases h

theorem bind {x y : Except ε α} {f g : α → Except ε β} (h : Forces x y) (hnext : ∀ a, Forces (f a) (g a)) :
    Forces (x >>= f) (y >>= g) := by
  intro b hb
  obtain ⟨a, ha, hb⟩ := Except.bind_eq_ok_iff.mp hb
  exact Except.bind_eq_ok_iff.mpr ⟨a, h a ha, hnext a b hb⟩

theorem mapM {items items' : List β} {f g : β → Except ε α}
    (h : List.Forall₂ (fun item item' => Forces (f item) (g item')) items items') :
    Forces (items.mapM f) (items'.mapM g) := by
  induction h with
  | nil => exact .refl _
  | cons hfirst _ ih =>
    rw [List.mapM_cons, List.mapM_cons]
    exact hfirst.bind fun _ => ih.bind fun _ => .refl _

end Except.Forces

/-! ## The relations -/

/-- Fields that resolution and rendering do not tell apart. -/
structure Field.Alike (f f' : Field) : Prop where
  name : f.name = f'.name
  table : f.table = f'.table
  resolved : f.resolved = f'.resolved

/-- Trees that are equal but for the positions of their nodes. Nested queries are embedded in the same way, at
positions that are related. -/
inductive Tree.Alike (nested : Nat → Nat → Prop) : Tree → Tree → Prop
  | field {i i' : Nat} {f f' : Field} : f.Alike f' → Alike nested (.field i f) (.field i' f')
  | value (v : Value) : Alike nested (.value v) (.value v)
  | func (name : String) {args args' : List (Unit → Tree)} :
      List.Forall₂ (fun t t' => Alike nested (t ()) (t' ())) args args' →
      Alike nested (.func name args) (.func name args')
  | calc (op : CalcOp) {left left' right right' : Unit → Tree} :
      Alike nested (left ()) (left' ()) → Alike nested (right ()) (right' ()) →
      Alike nested (.calc op left right) (.calc op left' right')
  | cmp (op : CmpOp) {left left' right right' : Unit → Tree} :
      Alike nested (left ()) (left' ()) → Alike nested (right ()) (right' ()) →
      Alike nested (.cmp op left right) (.cmp op left' right')
  | cond (op : CondOp) {args args' : List (Unit → Tree)} :
      List.Forall₂ (fun t t' => Alike nested (t ()) (t' ())) args args' →
      Alike nested (.cond op args) (.cond op args')
  | sort (direction : Direction) {expr expr' : Unit → Tree} :
      Alike nested (expr ()) (expr' ()) → Alike nested (.sort expr direction) (.sort expr' direction)
  | summarise {args args' : List (Unit → Tree)} :
      List.Forall₂ (fun t t' => Alike nested (t ()) (t' ())) args args' →
      Alike nested (.summarise args) (.summarise args')
  | subquery (embedding : Embedding) {i i' : Nat} :
      nested i i' → Alike nested (.subquery i embedding) (.subquery i' embedding)
  | unknown (className className' : String) : Alike nested (.unknown className) (.unknown className')
  | broken (fault fault' : ArenaFault) : Alike nested (.broken fault) (.broken fault')

inductive Leaf.Alike (nested : Nat → Nat → Prop) : Leaf → Leaf → Prop
  | field (i i' : Nat) : Alike nested (.field i) (.field i')
  | value (v : Value) : Alike nested (.value v) (.value v)
  | subquery {i i' : Nat} : nested i i' → Alike nested (.subquery i) (.subquery i')
  | unknown (className className' : String) : Alike nested (.unknown className) (.unknown className')
  | broken (fault fault' : ArenaFault) : Alike nested (.broken fault) (.broken fault')

/-- Views through which alike trees look the same, as far as the first one shows them at all. -/
structure View.Agrees (nested : Nat → Nat → Prop) (view view' : View) : Prop where
  dialect : view.dialect = view'.dialect
  sources : view.sources = view'.sources
  nested : ∀ i i', nested i i' → Except.Forces (view.nested i) (view'.nested i')

theorem Field.Alike.symm {f f' : Field} (h : f.Alike f') : f'.Alike f :=
  ⟨h.name.symm, h.table.symm, h.resolved.symm⟩

theorem Field.Alike.text {f f' : Field} (h : f.Alike f') (sources : Sources) : f.text sources = f'.text sources := by
  rw [Field.text, Field.text, h.name, h.table]

/-! ## Reading alike trees -/

namespace Tree.Alike

variable {nested : Nat → Nat → Prop} {view view' : View} {t t' : Tree}

mutual

theorem symm : {t t' : Tree} → Alike nested t t' → Alike (flip nested) t' t
  | _, _, .field h => .field h.symm
  | _, _, .value v => .value v
  | _, _, .func name h => .func name (symmAll h)
  | _, _, .calc op hleft hright => .calc op (symm hleft) (symm hright)
  | _, _, .cmp op hleft hright => .cmp op (symm hleft) (symm hright)
  | _, _, .cond op h => .cond op (symmAll h)
  | _, _, .sort direction h => .sort direction (symm h)
  | _, _, .summarise h => .summarise (symmAll h)
  | _, _, .subquery embedding h => .subquery embedding h
  | _, _, .unknown .. => .unknown ..
  | _, _, .broken .. => .broken ..

theorem symmAll : {ts ts' : List (Unit → Tree)} → List.Forall₂ (fun t t' => Alike nested (t ()) (t' ())) ts ts' →
    List.Forall₂ (fun t t' => Alike (flip nested) (t ()) (t' ())) ts' ts
  | _, _, .nil => .nil
  | _, _, .cons h hrest => .cons (symm h) (symmAll hrest)

end

mutual

theorem leaves : {t t' : Tree} → Alike nested t t' → List.Forall₂ (Leaf.Alike nested) t.leaves t'.leaves
  | _, _, .field _ => .cons (.field ..) .nil
  | _, _, .value v => .cons (.value v) .nil
  | _, _, .func _ h | _, _, .cond _ h | _, _, .summarise h => leavesAll h
  | _, _, .calc _ hleft hright | _, _, .cmp _ hleft hright => List.rel_append (leaves hleft) (leaves hright)
  | _, _, .sort _ h => (leaves h :)
  | _, _, .subquery _ h => .cons (.subquery h) .nil
  | _, _, .unknown .. => .cons (.unknown ..) .nil
  | _, _, .broken .. => .cons (.broken ..) .nil

theorem leavesAll : {ts ts' : List (Unit → Tree)} → List.Forall₂ (fun t t' => Alike nested (t ()) (t' ())) ts ts' →
    List.Forall₂ (Leaf.Alike nested) (Tree.leaves.leavesAll ts) (Tree.leaves.leavesAll ts')
  | _, _, .nil => .nil
  | _, _, .cons h hrest => List.rel_append (leaves h) (leavesAll hrest)

end

mutual

theorem fieldList : {t t' : Tree} → Alike nested t t' → List.Forall₂ Field.Alike t.fieldList t'.fieldList
  | _, _, .field h => .cons h .nil
  | _, _, .func _ h | _, _, .cond _ h | _, _, .summarise h => fieldListAll h
  | _, _, .calc _ hleft hright | _, _, .cmp _ hleft hright => List.rel_append (fieldList hleft) (fieldList hright)
  | _, _, .sort _ h => (fieldList h :)
  | _, _, .value _ | _, _, .subquery .. | _, _, .unknown .. | _, _, .broken .. => .nil

theorem fieldListAll : {ts ts' : List (Unit → Tree)} → List.Forall₂ (fun t t' => Alike nested (t ()) (t' ())) ts ts' →
    List.Forall₂ Field.Alike (Tree.fieldList.fieldListAll ts) (Tree.fieldList.fieldListAll ts')
  | _, _, .nil => .nil
  | _, _, .cons h hrest => List.rel_append (fieldList h) (fieldListAll hrest)

end

theorem isNull (h : Alike nested t t') : t.isNull = t'.isNull := by
  cases h <;> rfl

theorem operand (h : Alike nested t t') (sql : Sql) : t.operand sql = t'.operand sql := by
  cases h <;> rfl

theorem isSimple : {t t' : Tree} → Alike nested t t' → Except.Forces (View.isSimple t) (View.isSimple t')
  | _, _, .sort _ h => (isSimple h :)
  | _, _, .broken .. => .error _ _
  | _, _, .field _ | _, _, .value _ | _, _, .func .. | _, _, .calc .. | _, _, .cmp .. | _, _, .cond ..
  | _, _, .summarise _ | _, _, .subquery .. | _, _, .unknown .. => .refl _

mutual

theorem render (hview : View.Agrees nested view view') (style : Style) :
    {t t' : Tree} → Alike nested t t' → Except.Forces (view.render style t) (view'.render style t')
  | _, _, .field h => by
    rw [View.render, View.render, h.text, hview.sources]
    exact .refl _
  | _, _, .value v => by
    rw [View.render, View.render]
    unfold View.literal
    rw [hview.dialect]
    exact .refl _
  | _, _, .func name h => by
    rw [View.render, View.render]
    exact (renderAll hview style h).bind fun _ => .refl _
  | _, _, .calc op hleft hright => by
    rw [View.render, View.render]
    refine (render hview style hleft).bind fun l => (render hview style hright).bind fun r => ?_
    rw [hleft.operand, hright.operand]
    exact .refl _
  | _, _, .cmp op hleft hright => by
    rw [View.render, View.render, hview.dialect, hright.isNull]
    refine (render hview style hleft).bind fun l => ?_
    rw [hleft.operand]
    split
    · exact .refl _
    · refine (render hview style hright).bind fun r => ?_
      rw [hright.operand]
      exact .refl _
  | _, _, .cond op h => by
    rw [View.render, View.render]
    exact (renderAll hview style h).bind fun _ => .refl _
  | _, _, .sort direction h => by
    rw [View.render, View.render]
    exact (render hview style h).bind fun _ => .refl _
  | _, _, .summarise h => by
    rw [View.render, View.render]
    exact (renderAll hview style h).bind fun _ => .refl _
  | _, _, .subquery embedding h => by
    rw [View.render, View.render]
    exact (hview.nested _ _ h).bind fun _ => .refl _
  | _, _, .unknown .. | _, _, .broken .. => by
    rw [View.render]
    exact .error _ _

theorem renderAll (hview : View.Agrees nested view view') (style : Style) : {ts ts' : List (Unit → Tree)} →
    List.Forall₂ (fun t t' => Alike nested (t ()) (t' ())) ts ts' →
    Except.Forces (view.renderAll style ts) (view'.renderAll style ts')
  | _, _, .nil => by
    rw [View.renderAll, View.renderAll]
    exact .refl _
  | _, _, .cons h hrest => by
    rw [View.renderAll, View.renderAll]
    exact (render hview style h).bind fun _ => (renderAll hview style hrest).bind fun _ => .refl _

end

end Tree.Alike

/-! ## Values and aliases -/

namespace View.Agrees

variable {nested : Nat → Nat → Prop} {view view' : View} (hview : View.Agrees nested view view')

include hview

theorem leafValues {leaf leaf' : Leaf} (h : leaf.Alike nested leaf') :
    Except.Forces (view.leafValues leaf) (view'.leafValues leaf') := by
  cases h with
  | subquery h => exact (hview.nested _ _ h).bind fun _ => .refl _
  | broken => exact .error _ _
  | field | unknown => exact .refl _
  | value v => cases v <;> exact .refl _

theorem collect {leaves leaves' : List Leaf} (h : List.Forall₂ (Leaf.Alike nested) leaves leaves') :
    Except.Forces (view.collect leaves) (view'.collect leaves') := by
  induction h with
  | nil => exact .refl _
  | cons hleaf _ ih => exact (hview.leafValues hleaf).bind fun _ => ih.bind fun _ => .refl _

theorem anyValues {leaves leaves' : List Leaf} (h : List.Forall₂ (Leaf.Alike nested) leaves leaves') :
    Except.Forces (view.anyValues leaves) (view'.anyValues leaves') := by
  induction h with
  | nil => exact .refl _
  | cons hleaf _ ih =>
    refine (hview.leafValues hleaf).bind fun found => ?_
    split
    · exact ih
    · exact .refl _

variable {config : Config} {table : AliasTable} {t t' : Tree} (h : t.Alike nested t')

include h

theorem canonicalText : Except.Forces (view.canonicalText t) (view'.canonicalText t') :=
  (h.render hview .inline).bind fun _ => .refl _

theorem aliasOf? : Except.Forces (view.aliasOf? table t) (view'.aliasOf? table t') :=
  (hview.canonicalText h).bind fun _ => .refl _

theorem renderAliased : Except.Forces (view.renderAliased config table t) (view'.renderAliased config table t') := by
  refine (hview.aliasOf? h).bind fun known => ?_
  cases known with
  | some name => exact .refl _
  | none =>
    refine Except.Forces.bind ((hview.canonicalText h).bind fun _ => .refl _) fun fresh => ?_
    exact (h.render hview .bound).bind fun _ => .refl _

theorem groupItem : Except.Forces (view.groupItem config table t) (view'.groupItem config table t') := by
  have hrender : Except.Forces (do let sql ← view.render .bound t; return (sql, table))
      (do let sql ← view'.render .bound t'; return (sql, table)) := (h.render hview .bound).bind fun _ => .refl _
  refine h.isSimple.bind fun simple => ?_
  split
  · exact hrender
  · refine (hview.aliasOf? h).bind fun known => ?_
    split
    · refine (hview.anyValues h.leaves).bind fun any => ?_
      split
      · exact hrender
      · exact hview.renderAliased h
    · exact hview.renderAliased h

theorem orderItem : Except.Forces (view.orderItem table t) (view'.orderItem table t') := by
  have hrender := h.render hview .bound
  cases h with
  | sort direction h =>
    rw [View.orderItem, View.orderItem]
    refine h.isSimple.bind fun simple => ?_
    split
    · exact hrender
    · refine (hview.anyValues h.leaves).bind fun any => ?_
      split
      · exact hrender
      · refine (hview.aliasOf? h).bind fun known => ?_
        cases known with
        | some name => exact .refl _
        | none => exact hrender
  | _ => exact hrender

end View.Agrees

end ArenaSql
