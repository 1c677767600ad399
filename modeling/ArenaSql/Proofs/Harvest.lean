import ArenaSql.Proofs.Reading

/-!
# Collecting values

The values of expressions are collected leaf by leaf. This compiles the nested queries, each when its leaf is met
first, and replaces it by what compiling leaves.
-/

namespace ArenaSql

/-- The leaf is neither a nested query nor a fault. -/
def Leaf.isPlain : Leaf → Bool
  | .subquery _ | .broken _ => false
  | _ => true

/-- The values of a leaf that is plain. -/
def Leaf.ownValues : Leaf → List Value
  | .value .null => []
  | .value v => [v]
  | _ => []

namespace Scope

def leafValues (scope : Scope) : Leaf → DraftM (List Value)
  | .value .null => return []
  | .value v => return [v]
  | .subquery index => return (← scope.statementAt (.index index)).values
  | .field _ | .unknown _ => return []
  | .broken fault => throw (.arena fault)

def collect (scope : Scope) : List Leaf → DraftM (List Value)
  | [] => return []
  | leaf :: rest => do
    let found ← scope.leafValues leaf
    return found ++ (← collect scope rest)

def anyValues (scope : Scope) : List Leaf → DraftM Bool
  | [] => return false
  | leaf :: rest => do
    let found ← scope.leafValues leaf
    if found.isEmpty then anyValues scope rest else return true

variable (scope : Scope)

theorem collect_append (first rest : List Leaf) :
    scope.collect (first ++ rest) = do
      let found ← scope.collect first
      return found ++ (← scope.collect rest) := by
  induction first with
  | nil => simp [collect]
  | cons leaf more ih => simp only [List.cons_append, collect, ih, bind_assoc, pure_bind, List.append_assoc]

/-- Collecting the values of plain leaves succeeds and has no effect. -/
theorem run_collect_of_plain {leaves : List Leaf} (h : ∀ leaf ∈ leaves, leaf.isPlain) (d : Draft) :
    (scope.collect leaves).run d = (.ok (leaves.flatMap Leaf.ownValues), d) := by
  induction leaves with
  | nil => rfl
  | cons leaf rest ih =>
    obtain ⟨hleaf, hrest⟩ := List.forall_mem_cons.mp h
    have hfirst : (scope.leafValues leaf).run d = (.ok leaf.ownValues, d) := by
      cases leaf with
      | value v => cases v <;> rfl
      | field | unknown => rfl
      | subquery | broken => cases hleaf
    rw [collect, DraftM.run_bind, hfirst]
    dsimp only
    rw [DraftM.run_bind, ih hrest]
    rfl

theorem collect_singleton (leaf : Leaf) : scope.collect [leaf] = scope.leafValues leaf := by
  simp [collect]

theorem anyValues_append (first rest : List Leaf) :
    scope.anyValues (first ++ rest) =
      (do if ← scope.anyValues first then return true else scope.anyValues rest) := by
  induction first with
  | nil => simp [anyValues]
  | cons leaf more ih =>
    simp only [List.cons_append, anyValues, ih, bind_assoc]
    congr 1
    funext found
    split
    · rfl
    · simp

mutual

theorem valuesOf_eq_collect : (t : Tree) → scope.valuesOf t = scope.collect t.leaves
  | .value v => by
    cases v <;> simp [valuesOf, Tree.leaves, collect_singleton, leafValues]
  | .subquery index _ => by simp [valuesOf, Tree.leaves, collect_singleton, leafValues]
  | .func _ args | .cond _ args | .summarise args => by
    rw [valuesOf, Tree.leaves]
    exact valuesOfAll_eq_collect args
  | .calc _ left right | .cmp _ left right => by
    rw [valuesOf, Tree.leaves, collect_append, valuesOf_eq_collect (left ()), valuesOf_eq_collect (right ())]
  | .sort expr _ => by
    rw [valuesOf, Tree.leaves]
    exact valuesOf_eq_collect (expr ())
  | .field .. | .unknown _ | .broken _ => by simp [valuesOf, Tree.leaves, collect_singleton, leafValues]

theorem valuesOfAll_eq_collect :
    (ts : List (Unit → Tree)) → scope.valuesOfAll ts = scope.collect (Tree.leaves.leavesAll ts)
  | [] => by rw [valuesOfAll, Tree.leaves.leavesAll, collect]
  | t :: rest => by
    rw [valuesOfAll, Tree.leaves.leavesAll, collect_append, valuesOf_eq_collect (t ()), valuesOfAll_eq_collect rest]

end

mutual

theorem hasValues_eq_anyValues : (t : Tree) → scope.hasValues t = scope.anyValues t.leaves
  | .value v => by
    cases v <;> simp [hasValues, Tree.leaves, anyValues, leafValues]
  | .subquery index _ => by
    simp only [hasValues, Tree.leaves, anyValues, leafValues, bind_assoc, pure_bind]
    congr 1
    funext statement
    cases statement.values.isEmpty <;> rfl
  | .func _ args | .cond _ args | .summarise args => by
    rw [hasValues, Tree.leaves]
    exact anyHasValues_eq_anyValues args
  | .calc _ left right | .cmp _ left right => by
    rw [hasValues, Tree.leaves, anyValues_append, hasValues_eq_anyValues (left ()), hasValues_eq_anyValues (right ())]
  | .sort expr _ => by
    rw [hasValues, Tree.leaves]
    exact hasValues_eq_anyValues (expr ())
  | .field .. | .unknown _ => by simp [hasValues, Tree.leaves, anyValues, leafValues]
  | .broken fault => by rw [hasValues]; rfl

theorem anyHasValues_eq_anyValues :
    (ts : List (Unit → Tree)) → scope.anyHasValues ts = scope.anyValues (Tree.leaves.leavesAll ts)
  | [] => by rw [anyHasValues, Tree.leaves.leavesAll, anyValues]
  | t :: rest => by
    rw [anyHasValues, Tree.leaves.leavesAll, anyValues_append, hasValues_eq_anyValues (t ()),
      anyHasValues_eq_anyValues rest]

end

/-! ## Reading on -/

variable {scope} {q : Query} {known : Nat → Prop}

theorem Yields.leafValues (leaf : Leaf) (h : ∀ i, leaf = .subquery i → known i) :
    scope.Yields q known (scope.leafValues leaf) ((scope.view q).leafValues leaf) := by
  cases leaf with
  | value v => cases v <;> exact .pure _
  | subquery i => exact (Yields.statementAt (h i rfl)).bind fun _ _ => .pure _
  | field | unknown => exact .pure _
  | broken fault => exact .throw _

theorem Yields.anyValues (leaves : List Leaf) (h : ∀ i, .subquery i ∈ leaves → known i) :
    scope.Yields q known (scope.anyValues leaves) ((scope.view q).anyValues leaves) := by
  induction leaves with
  | nil => exact .pure _
  | cons leaf rest ih =>
    refine (Yields.leafValues leaf fun i hi => h i (hi ▸ List.mem_cons_self)).bind fun found _ => ?_
    cases found with
    | nil => exact ih fun i hi => h i (List.mem_cons_of_mem _ hi)
    | cons => exact .pure _

/-- In a draft that is ready, asking whether an expression has values changes nothing. -/
theorem Yields.hasValues (t : Tree) (h : ∀ i, .subquery i ∈ t.leaves → known i) :
    scope.Yields q known (scope.hasValues t) ((scope.view q).anyValues t.leaves) := by
  rw [hasValues_eq_anyValues]
  exact .anyValues t.leaves h

end Scope

/-! ## Compiling on -/

/-- The draft stands for the query `q`, of which exactly the nested queries at the positions `done` are
compiled. -/
structure Draft.Tracks (scope : Scope) (q : Query) (done : Nat → Bool) (d : Draft) : Prop where
  query_eq : d.query = scope.overlay done q
  statements : ∀ i, done i → ∃ statement, d.statement? i = some statement ∧ scope.nestedAt q i = .ok statement
  others : ∀ i, done i = false → d.statement? i = none

theorem Draft.Tracks.ready {scope : Scope} {q : Query} {done : Nat → Bool} {d : Draft}
    (h : d.Tracks scope q done) : d.Ready scope q (fun i => done i = true) :=
  ⟨⟨done, h.query_eq⟩, h.statements⟩

/-- A draft in which no nested query is compiled yet. -/
theorem Draft.tracks_fresh (scope : Scope) (q : Query) (requested : Nat) :
    Draft.Tracks scope q (fun _ => false) { query := q, requested := requested } :=
  ⟨(scope.overlay_none q).symm, fun _ h => (by cases h), fun _ _ => rfl⟩

/-- The positions of the nested queries that collecting values meets, up to one that fails or a broken place. -/
def View.met (view : View) : List Leaf → List Nat
  | [] => []
  | .subquery i :: rest => i :: (match view.nested i with
    | .ok _ => met view rest
    | .error _ => [])
  | .broken _ :: _ => []
  | _ :: rest => met view rest

namespace Scope

variable {scope : Scope} {q : Query} {α β : Type}

/-- From a draft with the nested queries `done` compiled, the work ends with the answer, and those at the positions
`met` are compiled as well. -/
def Harvests (scope : Scope) (q : Query) (done : Nat → Bool) (met : List Nat) (work : DraftM α)
    (answer : Except CompileError α) : Prop :=
  ∀ d, d.Tracks scope q done → ∃ d', work.run d = (answer, d') ∧ d'.aliases = d.aliases ∧
    d'.query = scope.overlay (fun i => done i || met.contains i) q ∧
    (answer.isOk → d'.Tracks scope q fun i => done i || met.contains i)

theorem statement?_cons (d : Draft) (i : Nat) (statement : Statement) (q : Query) (requested : Nat) (j : Nat) :
    ({ d with query := q, requested := requested, statements := (i, statement) :: d.statements } : Draft).statement? j =
      if i = j then some statement else d.statement? j := by
  simp only [Draft.statement?, List.find?_cons]
  by_cases h : i = j
  · simp [h]
  · simp [beq_false_of_ne h, h]

theorem run_compileAt (scope : Scope) (i : Nat) (query : Query) (embedding : Embedding) (d : Draft) :
    (scope.compileAt i query embedding).run d =
      let outcome := scope.nested (query.embedded embedding) d.requested
      let after := { d with
        query := d.query.setExpr i (.subquery outcome.query embedding)
        requested := outcome.requested }
      match outcome.result with
      | .error e => (.error e, after)
      | .ok statement => (.ok statement, { after with statements := (i, statement) :: d.statements }) := by
  rw [compileAt, DraftM.run_bind, DraftM.run_get]
  simp only [DraftM.run_bind, DraftM.run_modify]
  cases (scope.nested (query.embedded embedding) d.requested).result <;> rfl

theorem Harvests.compileAt (hsteady : scope.Steady) {done : Nat → Bool} {i : Nat} {query : Query}
    {embedding : Embedding} (hexpr : q.expr? (.index i) = some (.subquery query embedding)) :
    scope.Harvests q done [i] (scope.compileAt i query embedding) (scope.nestedAt q i) := by
  intro d htracks
  obtain ⟨hquery, hresult⟩ := hsteady (query.embedded embedding) d.requested
  have hset : d.query.setExpr i (.subquery (scope.nested (query.embedded embedding) d.requested).query embedding) =
      scope.overlay (fun j => done j || [i].contains j) q := by
    simp only [List.contains_cons, List.contains_nil, Bool.or_false]
    rw [htracks.query_eq, hquery]
    exact setExpr_overlay_subquery hexpr
  have hnested : scope.nestedAt q i = (scope.nested (query.embedded embedding) d.requested).result := by
    rw [nestedAt, hexpr, hresult]
  rw [hnested, run_compileAt]
  generalize scope.nested (query.embedded embedding) d.requested = outcome at hnested hset ⊢
  dsimp only
  cases hres : outcome.result with
  | error e => exact ⟨_, rfl, rfl, hset, fun h => by cases h⟩
  | ok statement =>
    refine ⟨_, rfl, rfl, hset, fun _ => ⟨hset, fun j hj => ?_, fun j hj => ?_⟩⟩
    · rw [statement?_cons]
      by_cases hij : i = j
      · subst hij
        exact ⟨statement, if_pos rfl, by rw [hnested, hres]⟩
      · have hdone : done j = true := by simpa [Ne.symm hij] using hj
        rw [if_neg hij]
        exact htracks.statements j hdone
    · rw [statement?_cons]
      have hj : done j = false ∧ j ≠ i := by simpa using hj
      rw [if_neg (Ne.symm hj.2)]
      exact htracks.others j hj.1

/-- The statement of a nested query is compiled when it is first asked for, and the same ever after. -/
theorem Harvests.statementAt (hsteady : scope.Steady) {done : Nat → Bool} {i : Nat} {query : Query}
    {embedding : Embedding} (hexpr : q.expr? (.index i) = some (.subquery query embedding)) :
    scope.Harvests q done [i] (scope.statementAt (.index i)) (scope.nestedAt q i) := by
  intro d htracks
  cases hdone : done i with
  | true =>
    obtain ⟨statement, hstatement, hnested⟩ := htracks.statements i hdone
    have hsame : (fun j => done j || [i].contains j) = done := by
      funext j
      by_cases hij : j = i
      · simp [hij, hdone]
      · simp [hij]
    rw [hnested, hsame]
    exact ⟨d, run_statementAt_of_some scope hstatement, rfl, htracks.query_eq, fun _ => htracks⟩
  | false =>
    have hrun : (scope.statementAt (.index i)).run d = (scope.compileAt i query embedding).run d := by
      have hnone := htracks.others i hdone
      rw [Draft.statement?, Option.map_eq_none_iff] at hnone
      have hhere : d.query.expr? (.index i) = some (.subquery query embedding) := by
        rw [htracks.query_eq, expr?_overlay, hexpr, hdone]
        rfl
      rw [Query.expr?_index] at hhere
      obtain ⟨node, hnode, hsubquery⟩ := Option.map_eq_some_iff.mp hhere
      obtain ⟨aliasName, expr, forms⟩ := node
      dsimp only at hsubquery
      subst hsubquery
      rw [Scope.statementAt, DraftM.run_bind, DraftM.run_get]
      dsimp only
      rw [find?_position, hnone, locate?_index, hnode]
      rfl
    rw [hrun]
    exact Harvests.compileAt hsteady hexpr d htracks

theorem Harvests.pure (a : α) {done : Nat → Bool} : scope.Harvests q done [] (pure a) (.ok a) := by
  intro d htracks
  have hsame : (fun i => done i || [].contains i) = done := by
    funext i
    simp
  rw [hsame]
  exact ⟨d, rfl, rfl, htracks.query_eq, fun _ => htracks⟩

theorem Harvests.throw (e : CompileError) {done : Nat → Bool} :
    scope.Harvests q done [] (throw e : DraftM α) (.error e) := by
  intro d htracks
  refine ⟨d, rfl, rfl, ?_, fun h => by cases h⟩
  rw [htracks.query_eq]
  simp

theorem Harvests.bind_error {done : Nat → Bool} {met : List Nat} {work : DraftM α} {next : α → DraftM β}
    {e : CompileError} (h : scope.Harvests q done met work (.error e)) :
    scope.Harvests q done met (work >>= next) (.error e) := by
  intro d htracks
  obtain ⟨d', hrun, haliases, hquery, -⟩ := h d htracks
  exact ⟨d', by rw [DraftM.run_bind, hrun], haliases, hquery, fun h => by cases h⟩

theorem Harvests.bind_ok {done : Nat → Bool} {met more : List Nat} {work : DraftM α} {next : α → DraftM β} {a : α}
    {answer : Except CompileError β} (h : scope.Harvests q done met work (.ok a))
    (hnext : scope.Harvests q (fun i => done i || met.contains i) more (next a) answer) :
    scope.Harvests q done (met ++ more) (work >>= next) answer := by
  intro d htracks
  obtain ⟨d₁, hrun₁, haliases₁, -, htracks₁⟩ := h d htracks
  obtain ⟨d₂, hrun₂, haliases₂, hquery₂, htracks₂⟩ := hnext d₁ (htracks₁ rfl)
  have hsame : (fun i => done i || met.contains i || more.contains i) = fun i => done i || (met ++ more).contains i := by
    funext i
    simp [Bool.or_assoc]
  rw [hsame] at hquery₂ htracks₂
  exact ⟨d₂, by rw [DraftM.run_bind, hrun₁]; exact hrun₂, haliases₂.trans haliases₁, hquery₂, htracks₂⟩

/-- Collecting the values of leaves compiles the nested queries that are met. -/
theorem Harvests.collect (hsteady : scope.Steady) {done : Nat → Bool} (leaves : List Leaf)
    (hsub : ∀ i : Nat, .subquery i ∈ leaves →
      ∃ query embedding, q.expr? (.index i) = some (.subquery query embedding)) :
    scope.Harvests q done ((scope.view q).met leaves) (scope.collect leaves) ((scope.view q).collect leaves) := by
  induction leaves generalizing done with
  | nil => exact .pure []
  | cons leaf rest ih =>
    -- `done` is free here, since a nested query at the first leaf joins the ones that were compiled before
    have hrest : ∀ done found, scope.Harvests q done ((scope.view q).met rest)
        (do return found ++ (← scope.collect rest)) (do return found ++ (← (scope.view q).collect rest)) := by
      intro done found
      have hih : scope.Harvests q done ((scope.view q).met rest) (scope.collect rest) ((scope.view q).collect rest) :=
        ih fun i hi => hsub i (List.mem_cons_of_mem _ hi)
      cases hcollect : (scope.view q).collect rest with
      | error e => rw [hcollect] at hih; exact hih.bind_error
      | ok more =>
        rw [hcollect] at hih
        rw [← List.append_nil ((scope.view q).met rest)]
        exact hih.bind_ok (.pure (found ++ more))
    cases leaf with
    | subquery i =>
      obtain ⟨query, embedding, hexpr⟩ := hsub i List.mem_cons_self
      have hhere : scope.Harvests q done [i] (scope.statementAt (.index i)) (scope.nestedAt q i) :=
        .statementAt hsteady hexpr
      rw [Scope.collect, Scope.leafValues, bind_assoc, View.collect, View.leafValues, View.met]
      simp only [Scope.view]
      cases hnested : scope.nestedAt q i with
      | error e => rw [hnested] at hhere; exact hhere.bind_error
      | ok statement =>
        rw [hnested] at hhere
        exact hhere.bind_ok (hrest _ _)
    | broken fault => exact (Harvests.throw (.arena fault)).bind_error
    | value v => cases v <;> exact hrest _ _
    | field | unknown => exact hrest _ _

end Scope

end ArenaSql
