import ArenaSql.Query.Document

/-!
# Loaded queries

Every node of a query that was loaded is of one of the kinds that documents have, and so is every node of the
queries nested in it.
-/

namespace ArenaSql

open Decode

mutual

/-- All nodes are of kinds that documents have, nested queries included. -/
def Query.Regular : Query → Prop
  | { nodes, .. } => RegularAll nodes

def Node.Regular : Node → Prop
  | { expr, .. } => expr.Regular

def Expr.Regular : Expr → Prop
  | .subquery query _ => query.Regular
  | .bare | .raw _ => False
  | _ => True

def RegularAll : List Node → Prop
  | [] => True
  | node :: rest => node.Regular ∧ RegularAll rest

end

theorem regularAll_iff {nodes : List Node} : RegularAll nodes ↔ ∀ node ∈ nodes, node.Regular := by
  induction nodes with
  | nil => simp [RegularAll]
  | cons node rest ih => simp [RegularAll, ih]

theorem Query.regular_iff {q : Query} : q.Regular ↔ ∀ node ∈ q.nodes, node.expr.Regular := by
  have hnode : ∀ node : Node, node.Regular ↔ node.expr.Regular := by
    intro node
    cases node
    rw [Node.Regular]
  have hq : q.Regular ↔ RegularAll q.nodes := by
    cases q
    rw [Query.Regular]
  simp only [hq, regularAll_iff, hnode]

namespace Checked

variable {α β : Type} {p : β → Prop}

/-- What was decoded, if anything was, has the property. -/
def All (p : α → Prop) (x : Checked α) : Prop :=
  ∀ a, x = .ok a → p a

theorem All.map {f : α → β} {x : Checked α} (h : x.All fun a => p (f a)) : All p (f <$> x) := by
  intro b hb
  cases x with
  | ok a => cases hb; exact h a rfl
  | bad issues => cases hb

theorem All.seq {f : Checked (α → β)} {x : Checked α} (h : f.All fun g => x.All fun a => p (g a)) : All p (f <*> x) := by
  intro b hb
  cases f with
  | ok g =>
    cases x with
    | ok a => cases hb; exact h g rfl a rfl
    | bad issues => cases hb
  | bad issues => cases x <;> cases hb

theorem All.seqLeft {x : Checked β} {y : Checked α} (h : x.All p) : All p (x <* y) := by
  intro b hb
  cases x with
  | ok a =>
    cases y with
    | ok => cases hb; exact h a rfl
    | bad => cases hb
  | bad => cases y <;> cases hb

theorem All.under {x : Checked β} (step : PathStep) (h : x.All p) : (x.under step).All p := by
  intro b hb
  cases x with
  | ok => cases hb; exact h b rfl
  | bad => cases hb

theorem All.imp {x : Checked α} {p q : α → Prop} (h : x.All p) (hpq : ∀ a, p a → q a) : x.All q :=
  fun a ha => hpq a (h a ha)

end Checked

namespace Decode

variable {α : Type} {p : α → Prop} {decode : Value → Checked α} (h : ∀ v, (decode v).All p)

include h

theorem all_required (fields : Fields) (name : String) : (required fields name decode).All p := by
  rw [required]
  split
  · exact (h _).under _
  · exact fun _ ha => by cases ha

theorem all_optional (fields : Fields) (name : String) {default : α} (hdefault : p default) :
    (optional fields name default decode).All p := by
  rw [optional]
  split
  · exact (h _).under _
  · intro a ha
    cases ha
    exact hdefault

theorem all_items (index : Nat) (vs : List Value) : (items decode index vs).All fun as => ∀ a ∈ as, p a := by
  induction vs generalizing index with
  | nil =>
    intro as has
    cases has
    exact fun _ ha => by cases ha
  | cons v rest ih =>
    rw [items]
    refine .seq (.map (((h v).under _).imp fun a ha => ?_))
    exact (ih _).imp fun more hmore => List.forall_mem_cons.mpr ⟨ha, hmore⟩

theorem all_list (v : Value) : (list decode v).All fun as => ∀ a ∈ as, p a := by
  cases v with
  | list vs => exact all_items h 0 vs
  | _ => exact fun _ has => by cases has

end Decode

/-! ## Reading -/

section

variable {nested : Value → Checked Query} (hnested : ∀ v, (nested v).All Query.Regular)

theorem Node.all_ofFields {known : List String} {decode : Fields → Checked Expr} {fields : Fields}
    (h : (decode fields).All Expr.Regular) : (Node.ofFields known decode fields).All (·.expr.Regular) :=
  .seqLeft (.seq (.map fun _ _ => h))

include hnested

theorem Node.all_reader? {kind : String} {read : Fields → Checked Node} (hread : reader? nested kind = some read)
    (fields : Fields) : (read fields).All (·.expr.Regular) := by
  unfold reader? at hread
  split at hread <;> cases hread <;> apply Node.all_ofFields
  · exact .map fun _ _ => trivial
  · exact .map fun _ _ => trivial
  · exact .seq (.map fun _ _ _ _ => trivial)
  · exact .seq (.seq (.map fun _ _ _ _ _ _ => trivial))
  · exact .seq (.seq (.map fun _ _ _ _ _ _ => trivial))
  · exact .seq (.map fun _ _ _ _ => trivial)
  · exact .seq (.map fun _ _ _ _ => trivial)
  · exact .map fun _ _ => trivial
  · exact .seq (.map ((all_required hnested fields "query").imp fun query hquery _ _ => hquery))

theorem Node.all_ofValueWith (v : Value) : (Node.ofValueWith nested v).All (·.expr.Regular) := by
  have hissue : ∀ kind, (Checked.issue kind : Checked Node).All (·.expr.Regular) := fun _ _ hnode => by cases hnode
  unfold ofValueWith
  split
  · split
    · exact hissue _
    · split
      · rename_i read hread
        exact (Node.all_reader? hnested hread _).under _
      · exact hissue _
    · exact hissue _
  · exact hissue _

theorem Query.all_ofValueWith (v : Value) : (Query.ofValueWith nested v).All Query.Regular := by
  cases v with
  | object fields =>
    rw [Query.ofValueWith, record]
    refine .seqLeft ?_
    -- the nodes are the first of sixteen arguments
    iterate 15 refine .seq ?_
    have hnone : ∀ node ∈ ([] : List Node), node.expr.Regular := fun _ hnode => by cases hnode
    have hnodes := all_optional (all_list (Node.all_ofValueWith hnested)) fields "nodes" hnone
    refine .map (hnodes.imp fun nodes hnodes => ?_)
    iterate 30 intro _
    exact Query.regular_iff.mpr hnodes
  | _ => exact fun _ hq => by cases hq

end

theorem Query.all_ofValueWithin (n : Nat) (v : Value) : (Query.ofValueWithin n v).All Query.Regular := by
  induction n generalizing v with
  | zero => exact fun _ hq => by cases hq
  | succ n ih => exact Query.all_ofValueWith ih v

/-- What was loaded was read from a document. -/
theorem Query.exists_ofValue_of_load {v : Value} {q : Query} (h : Query.load v = .ok q) :
    ∃ document, Query.ofValue document = .ok q := by
  have hread : ∀ {document fromText},
      (Query.ofValue document).toExcept.mapError (LoadError.invalid fromText) = .ok q → Query.ofValue document = .ok q := by
    intro document fromText h
    cases hq : Query.ofValue document with
    | bad issues => rw [hq] at h; cases h
    | ok q' => rw [hq] at h; cases h; rfl
  unfold load at h
  split at h
  · split at h
    · exact ⟨_, hread h⟩
    · cases h
  · exact ⟨_, hread h⟩

theorem Query.regular_of_load {v : Value} {q : Query} (h : Query.load v = .ok q) : q.Regular := by
  obtain ⟨document, hq⟩ := exists_ofValue_of_load h
  exact Query.all_ofValueWithin _ document q hq

end ArenaSql
