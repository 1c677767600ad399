import ArenaSql.Proofs.Mirroring

/-!
# Work that other work follows

Where two scopes differ in their schemas only, and nested queries that one can compile are compiled by the other in the
same way, all work on a draft that succeeds in the one scope succeeds in the other, with the same answer and the same
draft. The drafts met on the way have a property that the work keeps; work that fails may leave a weaker property behind.
-/

namespace ArenaSql

namespace DraftM

variable {α β : Type} {P Q : Draft → Prop} {work work' : DraftM α} {next next' : α → DraftM β}

/-- From a draft with `P`, if the work succeeds then `work'` does so with the same answer and the same draft, which has
`P`; and if it fails, it leaves a draft with `Q`. -/
def Follows (P Q : Draft → Prop) (work work' : DraftM α) : Prop :=
  ∀ d, P d → match work.run d with
    | (.ok a, d') => P d' ∧ work'.run d = (.ok a, d')
    | (.error _, d') => Q d'

theorem Follows.of_ok (h : Follows P Q work work') {d d' : Draft} {a : α} (hd : P d)
    (hrun : work.run d = (.ok a, d')) : P d' ∧ work'.run d = (.ok a, d') := by
  have hfollows := h d hd
  rwa [hrun] at hfollows

/-- To follow is to mirror from the same draft, whatever becomes of the other work after a failure. -/
theorem follows_iff_mirrors :
    Follows P Q work work' ↔ Mirrors (fun d d' => d' = d ∧ P d) (fun _ d _ => Q d) work work' := by
  constructor
  · rintro h d _ ⟨rfl, hd⟩
    have hfollows := h _ hd
    rcases hrun : work.run _ with ⟨e | a, d₁⟩
    · rw [hrun] at hfollows
      exact Or.inl hfollows
    · rw [hrun] at hfollows
      exact ⟨d₁, hfollows.2, rfl, hfollows.1⟩
  · intro h d hd
    have hmirrors := h d d ⟨rfl, hd⟩
    rcases hrun : work.run d with ⟨e | a, d₁⟩
    · rw [hrun] at hmirrors
      exact hmirrors.elim id fun ⟨_, _, hd₁⟩ => hd₁
    · rw [hrun] at hmirrors
      obtain ⟨_, hrun', rfl, hd₁⟩ := hmirrors
      exact ⟨hd₁, hrun'⟩

theorem Follows.pure (a : α) : Follows P Q (pure a : DraftM α) (Pure.pure a) :=
  fun _ hd => ⟨hd, rfl⟩

theorem Follows.bind (h : Follows P Q work work') (hnext : ∀ a, Follows P Q (next a) (next' a)) :
    Follows P Q (work >>= next) (work' >>= next') :=
  follows_iff_mirrors.mpr ((follows_iff_mirrors.mp h).bind fun a => follows_iff_mirrors.mp (hnext a))

/-- Work that goes on from the draft it is given. -/
theorem Follows.get_bind {next next' : Draft → DraftM β} (h : ∀ d, P d → Follows P Q (next d) (next' d)) :
    Follows P Q (get >>= next) (get >>= next') :=
  fun d hd => h d hd d hd

end DraftM

open DraftM

theorem Draft.Reads.diagonal {P : Draft → Prop} {known : Nat → Prop} {ref : NodeRef} (h : Draft.Reads P known ref) :
    Draft.Reads (fun d => ∃ d', d' = d ∧ P d) known ref :=
  fun d hd => h d hd.choose_spec.2

theorem aliases_mirror {P : Draft → Prop} (h : ∀ d table, P d → P { d with aliases := table }) (d d' : Draft)
    (table : AliasTable) (hd : d' = d ∧ P d) :
    { d' with aliases := table } = { d with aliases := table } ∧ P { d with aliases := table } :=
  ⟨by rw [hd.1], h d table hd.2⟩

/-- The second scope has the dialect and the configuration of the first one, and its nested queries at the positions
`known` follow those of the first one. There are no other nested queries below the references from which clauses start,
and requesting placeholders keeps `P`. -/
structure Scope.Leads (scope scope' : Scope) (P Q : Draft → Prop) (known : Nat → Prop) : Prop where
  dialect : scope'.dialect = scope.dialect
  config : scope'.config = scope.config
  failing : ∀ d, P d → Q d
  placeholder : ∀ d n, P d → P { d with requested := n }
  statementAt : ∀ i, known i → Follows P Q (scope.statementAt (.index i)) (scope'.statementAt (.index i))
  roots : ∀ d, P d → ∀ ref ∈ d.query.roots, Draft.Reads P known ref
  args : ∀ d, P d → ∀ args, d.query.groupArgs = .ok args → ∀ ref ∈ args, Draft.Reads P known ref

namespace Scope

variable {scope scope' : Scope} {P Q : Draft → Prop} {known : Nat → Prop} (h : scope.Leads scope' P Q known)

include h

theorem Leads.mirror : scope.Mirror scope' (fun d d' => d' = d ∧ P d) (fun _ d _ => Q d) known where
  dialect := h.dialect
  config := h.config
  same d d' hd := ⟨d.query.head, d.query.having, hd.1.trans d.rerooted_self.symm⟩
  failing _ _ d _ hd := Or.inl (h.failing d hd.2)
  placeholder d d' n hd := ⟨by rw [hd.1], h.placeholder d n hd.2⟩
  statementAt i hi := follows_iff_mirrors.mp (h.statementAt i hi)
  roots d _ hd ref href := (h.roots d hd.2 ref href).diagonal
  args d _ hd args hargs ref href := (h.args d hd.2 args hargs ref href).diagonal

theorem follows_valuesOfRoots (roots : List NodeRef) (hroots : ∀ ref ∈ roots, Draft.Reads P known ref) :
    Follows P Q (scope.valuesOfRoots roots) (scope'.valuesOfRoots roots) :=
  follows_iff_mirrors.mpr (mirrors_valuesOfRoots h.mirror roots fun ref href => (hroots ref href).diagonal)

theorem follows_clauses (haliases : ∀ d table, P d → P { d with aliases := table }) :
    Follows P Q scope.clauses scope'.clauses := by
  refine follows_iff_mirrors.mpr (mirrors_clauses h.mirror ?_ ?_ (aliases_mirror haliases))
  · exact fun _ _ hd => by rw [hd.1]
  · exact fun _ _ hd => by rw [hd.1]

end Scope

end ArenaSql
