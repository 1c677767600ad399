import ArenaSql.Proofs.Following

/-!
# What work on a draft keeps

Collecting values and rendering clauses change a draft in three ways only: placeholders are requested, nested queries
are compiled, and the grouping gives aliases. So a property of drafts that these keep is kept by all such work, whatever
the dialect. Work that fails may leave a weaker property behind, since a nested query that fails was changed but has no
statement.
-/

namespace ArenaSql

namespace DraftM

variable {α β : Type} {P Q : Draft → Prop} {work : DraftM α} {next : α → DraftM β}

/-- From a draft with `P`, the work leads to one with `P` if it succeeds, and to one with `Q` if it fails. -/
def Keeps (P Q : Draft → Prop) (work : DraftM α) : Prop :=
  ∀ d, P d → match work.run d with
    | (.ok _, d') => P d'
    | (.error _, d') => Q d'

theorem Keeps.of_ok (h : work.Keeps P Q) {d d' : Draft} {a : α} (hd : P d) (hrun : work.run d = (.ok a, d')) :
    P d' := by
  have hkeeps := h d hd
  rwa [hrun] at hkeeps

theorem Keeps.of_run (h : work.Keeps P Q) (hfailing : ∀ d, P d → Q d) {d : Draft} (hd : P d) : Q (work.run d).2 := by
  have hkeeps := h d hd
  revert hkeeps
  rcases work.run d with ⟨_ | _, d'⟩
  · exact id
  · exact hfailing d'

theorem Keeps.pure (a : α) : (pure a : DraftM α).Keeps P Q :=
  fun _ hd => hd

theorem Keeps.bind (h : work.Keeps P Q) (hnext : ∀ a, (next a).Keeps P Q) : (work >>= next).Keeps P Q := by
  intro d hd
  have hfirst := h d hd
  rw [run_bind]
  rcases hrun : work.run d with ⟨_ | a, d₁⟩
  · rwa [hrun] at hfirst
  · rw [hrun] at hfirst
    exact hnext a d₁ hfirst

/-- Work that goes on from the draft it is given. -/
theorem Keeps.get_bind {next : Draft → DraftM β} (h : ∀ d, P d → (next d).Keeps P Q) : (get >>= next).Keeps P Q :=
  fun d hd => h d hd d hd

/-- Work that follows itself keeps the property, and the other way around. -/
theorem keeps_iff_follows : work.Keeps P Q ↔ Follows P Q work work := by
  refine forall₂_congr fun d _ => ?_
  rcases work.run d with ⟨_ | _, d'⟩
  · exact Iff.rfl
  · exact (and_iff_left rfl).symm

theorem keeps_iff_mirrors :
    work.Keeps P Q ↔ Mirrors (fun d d' => d' = d ∧ P d) (fun _ d _ => Q d) work work :=
  keeps_iff_follows.trans follows_iff_mirrors

end DraftM

open DraftM

/-- Requesting placeholders and compiling the nested queries at the positions `known` keep `P`, and there are no other
nested queries below the references from which clauses start. -/
structure Scope.Invariant (scope : Scope) (P Q : Draft → Prop) (known : Nat → Prop) : Prop where
  failing : ∀ d, P d → Q d
  placeholder : ∀ d n, P d → P { d with requested := n }
  statementAt : ∀ i, known i → (scope.statementAt (.index i)).Keeps P Q
  roots : ∀ d, P d → ∀ ref ∈ d.query.roots, Draft.Reads P known ref
  args : ∀ d, P d → ∀ args, d.query.groupArgs = .ok args → ∀ ref ∈ args, Draft.Reads P known ref

/-- A scope with an invariant leads itself. -/
theorem Scope.Invariant.leads {scope : Scope} {P Q : Draft → Prop} {known : Nat → Prop}
    (h : scope.Invariant P Q known) : scope.Leads scope P Q known :=
  ⟨rfl, rfl, h.failing, h.placeholder, fun i hi => keeps_iff_follows.mp (h.statementAt i hi), h.roots, h.args⟩

/-- So it mirrors itself from the same draft. -/
theorem Scope.Invariant.mirror {scope : Scope} {P Q : Draft → Prop} {known : Nat → Prop}
    (h : scope.Invariant P Q known) : scope.Mirror scope (fun d d' => d' = d ∧ P d) (fun _ d _ => Q d) known :=
  h.leads.mirror

namespace Scope

variable {scope : Scope} {P Q : Draft → Prop} {known : Nat → Prop} (h : scope.Invariant P Q known)

include h

/-! ## Expressions -/

theorem keeps_render (style : Style) (t : Tree) (ht : ∀ i, .subquery i ∈ t.leaves → known i) :
    (scope.render style t).Keeps P Q :=
  keeps_iff_mirrors.mpr (mirrors_render h.mirror style t ht)

theorem keeps_renderAll (style : Style) (ts : List (Unit → Tree))
    (hts : ∀ i, .subquery i ∈ Tree.leaves.leavesAll ts → known i) : (scope.renderAll style ts).Keeps P Q :=
  keeps_iff_mirrors.mpr (mirrors_renderAll h.mirror style ts hts)

theorem keeps_collect (leaves : List Leaf) (hleaves : ∀ i, .subquery i ∈ leaves → known i) :
    (scope.collect leaves).Keeps P Q :=
  keeps_iff_mirrors.mpr (mirrors_collect h.mirror leaves hleaves)

theorem keeps_hasValues (t : Tree) (ht : ∀ i, .subquery i ∈ t.leaves → known i) : (scope.hasValues t).Keeps P Q :=
  keeps_iff_mirrors.mpr (mirrors_hasValues h.mirror t ht)

theorem keeps_valuesOfRoots (roots : List NodeRef) (hroots : ∀ ref ∈ roots, Draft.Reads P known ref) :
    (scope.valuesOfRoots roots).Keeps P Q :=
  keeps_iff_follows.mpr (follows_valuesOfRoots h.leads roots hroots)

theorem keeps_aliasOf? (t : Tree) (ht : ∀ i, .subquery i ∈ t.leaves → known i) : (scope.aliasOf? t).Keeps P Q :=
  keeps_iff_mirrors.mpr (mirrors_aliasOf? h.mirror t ht)

/-! ## Clauses -/

theorem keeps_selectClause : scope.selectClause.Keeps P Q :=
  keeps_iff_mirrors.mpr (mirrors_selectClause h.mirror)

theorem keeps_whereClause : scope.whereClause.Keeps P Q :=
  keeps_iff_mirrors.mpr (mirrors_whereClause h.mirror fun _ _ hd => by rw [hd.1])

theorem keeps_havingClause : scope.havingClause.Keeps P Q :=
  keeps_iff_mirrors.mpr (mirrors_havingClause h.mirror fun _ _ hd => by rw [hd.1])

theorem keeps_orderItem (ref : NodeRef) (href : Draft.Reads P known ref) : (scope.orderItem ref).Keeps P Q :=
  keeps_iff_mirrors.mpr (mirrors_orderItem h.mirror ref href.diagonal)

theorem keeps_orderByClause : scope.orderByClause.Keeps P Q :=
  keeps_iff_mirrors.mpr (mirrors_orderByClause h.mirror)

theorem keeps_clauses (haliases : ∀ d table, P d → P { d with aliases := table }) : scope.clauses.Keeps P Q :=
  keeps_iff_follows.mpr (follows_clauses h.leads haliases)

end Scope

end ArenaSql
