import ArenaSql.Proofs.Outline

/-!
# Later states of a query

While a query is compiled, more and more of its fields are resolved, and nothing else changes that the passes depend
on. So the passes, made again on what they left, meet the same leaves and come to the same end, and this time they
change nothing, whether they failed or not.
-/

namespace ArenaSql

/-- What stands at the position is resolved if it is a field. -/
def Query.ResolvedAt (q : Query) (i : Nat) : Prop :=
  ∀ f, q.fieldAt? i = some f → f.resolved

namespace Scope

/-- More fields are resolved in the later query; its leaves, the fields that have no place and the statements of its
nested queries are the same. -/
structure Later (scope : Scope) (before after : Query) : Prop where
  leaves : ∀ roots, after.leaves roots = before.leaves roots
  unplaced? : ∀ i, after.unplaced? scope.schema i = before.unplaced? scope.schema i
  resolvedAt : ∀ i, before.ResolvedAt i → after.ResolvedAt i
  nestedAt : scope.nestedAt after = scope.nestedAt before

variable {scope : Scope} {q q' left : Query} {done : Nat → Bool}

theorem Later.trans {first second third : Query} (h : scope.Later first second) (h' : scope.Later second third) :
    scope.Later first third where
  leaves roots := (h'.leaves roots).trans (h.leaves roots)
  unplaced? i := (h'.unplaced? i).trans (h.unplaced? i)
  resolvedAt i hi := h'.resolvedAt i (h.resolvedAt i hi)
  nestedAt := h'.nestedAt.trans h.nestedAt

theorem later_settledAt (scope : Scope) (settled : Nat → Bool) (joins : List Join) (q : Query) :
    scope.Later q (q.settledAt scope.schema settled joins) where
  leaves roots := q.leaves_settledAt settled joins roots
  unplaced? i := q.unplaced?_settledAt settled joins i
  resolvedAt i hi f hf := by
    rw [Query.fieldAt?_settledAt] at hf
    obtain ⟨before, hbefore, rfl⟩ := Option.map_eq_some_iff.mp hf
    split
    · rw [Field.settled_of_resolved (hi before hbefore), hi before hbefore]
    · exact hi before hbefore
  nestedAt := view_nested_settledAt settled joins

/-- Nested queries that were replaced do not matter if they have the same statements. -/
theorem later_overlay (h : scope.nestedAt (scope.overlay done q) = scope.nestedAt q) :
    scope.Later q (scope.overlay done q) := by
  have hfield : ∀ i, (scope.overlay done q).fieldAt? i = q.fieldAt? i :=
    q.fieldAt?_mapExprs (keepsFields_leftover scope done)
  refine ⟨leaves_overlay, fun i => ?_, fun i hi f hf => hi f ((hfield i).symm.trans hf), h⟩
  rw [Query.unplaced?, Query.unplaced?, hfield, overlay_tables]

/-! ## Resolving again -/

theorem unplaced?_of_resolveAt {schema : Schema} {type : JoinType} {i : Nat} {e : CompileError}
    (h : q.resolveAt schema type i = .error e) : q.unplaced? schema i = some e := by
  rw [Query.resolveAt_eq] at h
  cases hplaced : q.unplaced? schema i with
  | none => rw [hplaced] at h; cases h
  | some e => rw [hplaced] at h; cases h; rfl

theorem resolvedAt_resolveAt {type : JoinType} {i : Nat} (h : q.resolveAt scope.schema type i = .ok q') :
    q'.ResolvedAt i ∧ scope.Later q q' := by
  rw [Query.resolveAt_eq] at h
  cases hplaced : q.unplaced? scope.schema i with
  | some e => rw [hplaced] at h; cases h
  | none =>
    rw [hplaced] at h
    cases h
    refine ⟨fun f hf => ?_, later_settledAt scope _ _ q⟩
    rw [Query.fieldAt?_settledAt] at hf
    obtain ⟨before, hbefore, rfl⟩ := Option.map_eq_some_iff.mp hf
    rw [Query.unplaced?, hbefore] at hplaced
    simpa using Field.resolved_settled hplaced

theorem later_resolveLeaves (scope : Scope) (type : JoinType) (leaves : List Leaf) (q : Query) :
    scope.Later q (q.resolveLeaves scope.schema type leaves).1 := by
  obtain ⟨settled, joins, heq, -⟩ := q.resolveLeaves_eq scope.schema type leaves
  rw [heq]
  exact later_settledAt scope settled joins q

/-- Later on, the leaves that were visited are visited without any change, up to the one that failed. -/
theorem Later.resolveLeaves {type : JoinType} {leaves : List Leaf} {fault : Option CompileError}
    (h : q.resolveLeaves scope.schema type leaves = (q', fault)) (hlater : scope.Later q' left) :
    left.resolveLeaves scope.schema type leaves = (left, fault) := by
  induction leaves generalizing q with
  | nil =>
    cases h
    rfl
  | cons leaf rest ih =>
    cases leaf with
    | field i =>
      rw [Query.resolveLeaves, Leaf.visitAll] at h ⊢
      cases hresolve : q.resolveAt scope.schema type i with
      | error e =>
        have hplaced := unplaced?_of_resolveAt hresolve
        rw [hresolve] at h
        cases h
        rw [Query.resolveAt_eq, hlater.unplaced?, hplaced]
      | ok q₁ =>
        rw [hresolve] at h
        -- the field is resolved after its visit, and ever after
        have hafter : scope.Later q₁ left := by
          have hrest := later_resolveLeaves scope type rest q₁
          rw [show q₁.resolveLeaves scope.schema type rest = _ from h] at hrest
          exact hrest.trans hlater
        have hleft := hafter.resolvedAt i (resolvedAt_resolveAt hresolve).1
        rw [Query.resolveAt_of_resolved fun f hf => hleft f (Query.fieldAt?_eq_some_iff.mpr hf)]
        exact ih h
    | broken fault =>
      cases h
      rfl
    | value | subquery | unknown => exact ih h

end Scope

/-! ## Collecting again -/

namespace View

variable {view view' : View} {leaves : List Leaf} {i : Nat}

theorem met_congr (h : view.nested = view'.nested) (leaves : List Leaf) : view.met leaves = view'.met leaves := by
  induction leaves with
  | nil => rfl
  | cons leaf rest ih => cases leaf <;> simp only [met, h, ih]

theorem mem_leaves_of_mem_met (h : i ∈ view.met leaves) : .subquery i ∈ leaves := by
  induction leaves with
  | nil => cases h
  | cons leaf rest ih =>
    cases leaf with
    | subquery j =>
      rw [met] at h
      rcases List.mem_cons.mp h with rfl | h
      · exact List.mem_cons_self
      · cases hnested : view.nested j with
        | error e => rw [hnested] at h; cases h
        | ok statement =>
          rw [hnested] at h
          exact List.mem_cons_of_mem _ (ih h)
    | broken fault => cases h
    | field | value | unknown => exact List.mem_cons_of_mem _ (ih h)

/-- A nested query that is met and fails is the reason why no values are collected. -/
theorem collect_of_mem_met {e : CompileError} (h : i ∈ view.met leaves) (hnested : view.nested i = .error e) :
    view.collect leaves = .error e := by
  induction leaves with
  | nil => cases h
  | cons leaf rest ih =>
    have hrest : ∀ found, view.leafValues leaf = .ok found → i ∈ view.met rest →
        view.collect (leaf :: rest) = .error e := by
      intro found hfound h
      rw [collect, hfound, ih h]
      rfl
    cases leaf with
    | subquery j =>
      rw [met] at h
      rcases List.mem_cons.mp h with rfl | h
      · rw [collect, leafValues, hnested]
        rfl
      · cases hother : view.nested j with
        | error e => rw [hother] at h; cases h
        | ok statement =>
          rw [hother] at h
          exact hrest statement.values (by rw [leafValues, hother]; rfl) h
    | broken fault => cases h
    | value v => cases v <;> exact hrest _ rfl h
    | field | unknown => exact hrest _ rfl h

end View

/-! ## Gathering again -/

namespace Scope

variable {scope : Scope} {q left : Query} {done : Nat → Bool} {parts : List (List NodeRef)}

/-- Gathering settles fields, and does nothing else to the query. -/
theorem exists_gather_query_eq (scope : Scope) (parts : List (List NodeRef)) (done : Nat → Bool) (q : Query) :
    ∃ settled joins, (scope.gather parts done q).query = q.settledAt scope.schema settled joins := by
  induction parts generalizing done q with
  | nil => exact ⟨_, _, q.settledAt_none.symm⟩
  | cons roots rest ih =>
    obtain ⟨settled, joins, heq, -⟩ := q.resolveLeaves_eq scope.schema scope.config.joinType (q.leaves roots)
    rw [gather, Query.resolveTrees_eq, heq]
    cases q.fault? scope.schema (q.leaves roots) with
    | some e => exact ⟨settled, joins, rfl⟩
    | none =>
      dsimp only
      cases (scope.view (q.settledAt scope.schema settled joins)).collect
          ((q.settledAt scope.schema settled joins).leaves roots) with
      | error e => exact ⟨settled, joins, rfl⟩
      | ok found =>
        obtain ⟨settled', joins', hrest⟩ := ih _ (q.settledAt scope.schema settled joins)
        exact ⟨_, _, hrest.trans (q.settledAt_settledAt _ _ _ _)⟩

theorem later_gather (scope : Scope) (parts : List (List NodeRef)) (done : Nat → Bool) (q : Query) :
    scope.Later q (scope.gather parts done q).query := by
  obtain ⟨settled, joins, heq⟩ := scope.exists_gather_query_eq parts done q
  rw [heq]
  exact later_settledAt scope settled joins q

/-- What was gathered is gathered again, and the query stays as it is. -/
theorem Later.gather (hlater : scope.Later (scope.gather parts done q).query left) :
    scope.gather parts done left =
      ⟨left, (scope.gather parts done q).done, (scope.gather parts done q).values⟩ := by
  induction parts generalizing done q with
  | nil => rfl
  | cons roots rest ih =>
    rw [Scope.gather, Query.resolveTrees_eq] at hlater ⊢
    rw [Scope.gather, Query.resolveTrees_eq]
    cases hresolved : q.resolveLeaves scope.schema scope.config.joinType (q.leaves roots) with
    | mk q' fault =>
      have hq' : scope.Later q q' := by
        have h := later_resolveLeaves scope scope.config.joinType (q.leaves roots) q
        rwa [hresolved] at h
      rw [hresolved] at hlater
      cases fault with
      | some e =>
        rw [(hq'.trans hlater).leaves, hlater.resolveLeaves hresolved]
      | none =>
        dsimp only at hlater ⊢
        -- whatever follows, the query of this part came before the one that is left
        have hleft : scope.Later q' left := by
          cases hcollect : (scope.view q').collect (q'.leaves roots) with
          | error e => rwa [hcollect] at hlater
          | ok found =>
            rw [hcollect] at hlater
            exact (scope.later_gather rest _ q').trans hlater
        have hnested : (scope.view left).nested = (scope.view q').nested := hleft.nestedAt
        rw [(hq'.trans hleft).leaves, hleft.resolveLeaves hresolved]
        dsimp only
        rw [hleft.leaves, View.met_congr hnested, View.collect_congr hnested]
        cases hcollect : (scope.view q').collect (q'.leaves roots) with
        | error e => rfl
        | ok found =>
          rw [hcollect] at hlater
          dsimp only
          rw [ih hlater]

/-- A nested query that gathering compiles is a live leaf; if it fails, so does gathering, for the same reason. -/
theorem gather_done {i : Nat} (h : (scope.gather parts done q).done i) (hnew : done i = false) :
    .subquery i ∈ q.leaves parts.flatten ∧
      ∀ e, scope.nestedAt q i = .error e → (scope.gather parts done q).values = .error e := by
  induction parts generalizing done q with
  | nil => exact absurd (hnew.symm.trans h) Bool.false_ne_true
  | cons roots rest ih =>
    obtain ⟨settled, joins, heq, -⟩ := q.resolveLeaves_eq scope.schema scope.config.joinType (q.leaves roots)
    rw [gather, Query.resolveTrees_eq, heq] at h ⊢
    rw [List.flatten_cons, Query.leaves_append, List.mem_append]
    cases hfault : q.fault? scope.schema (q.leaves roots) with
    | some e =>
      rw [hfault] at h
      exact absurd (hnew.symm.trans h) Bool.false_ne_true
    | none =>
      rw [hfault] at h
      dsimp only at h ⊢
      have hnested : (scope.view (q.settledAt scope.schema settled joins)).nested = (scope.view q).nested :=
        view_nested_settledAt settled joins
      rw [Query.leaves_settledAt, View.met_congr hnested, View.collect_congr hnested] at h ⊢
      by_cases hmet : i ∈ (scope.view q).met (q.leaves roots)
      · refine ⟨Or.inl (View.mem_leaves_of_mem_met hmet), fun e he => ?_⟩
        rw [View.collect_of_mem_met hmet he]
      · cases hcollect : (scope.view q).collect (q.leaves roots) with
        | error e => simp [hcollect, hnew, hmet] at h
        | ok found =>
          rw [hcollect] at h
          obtain ⟨hleaf, hfails⟩ := ih h (by simp [hnew, hmet])
          rw [Query.leaves_settledAt] at hleaf
          refine ⟨Or.inr hleaf, fun e he => ?_⟩
          dsimp only
          rw [hfails e (by rw [nestedAt_settledAt, he])]
          rfl

end Scope

end ArenaSql
