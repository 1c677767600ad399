import ArenaSql.Proofs.Replay

/-!
# Stocked drafts

The passes ask for the values of all that the clauses will show. So when they are done, every nested query that a
clause reaches has its statement, and from there on rendering only requests placeholders and gives aliases.
-/

namespace ArenaSql

open DraftM

/-! ## Leaves at hand -/

namespace Draft

/-- Nothing is missing to read the leaf. -/
def Holds (d : Draft) : Leaf → Prop
  | .subquery i => (d.statement? i).isSome
  | .broken _ => False
  | .field _ | .value _ | .unknown _ => True

/-- Fields may have been resolved, and nested queries compiled. -/
structure Advances (d d' : Draft) : Prop where
  leaves : ∀ ref, (d'.query.tree ref).leaves = (d.query.tree ref).leaves
  roots : d'.query.roots = d.query.roots
  statements : ∀ i statement, d.statement? i = some statement → d'.statement? i = some statement

theorem Advances.refl (d : Draft) : d.Advances d :=
  ⟨fun _ => rfl, rfl, fun _ _ h => h⟩

theorem Advances.trans {d d' d'' : Draft} (h : d.Advances d') (h' : d'.Advances d'') : d.Advances d'' :=
  ⟨fun ref => (h'.leaves ref).trans (h.leaves ref), h'.roots.trans h.roots,
    fun i statement hi => h'.statements i statement (h.statements i statement hi)⟩

theorem Grows.advances {d d' : Draft} (h : d.Grows d') : d.Advances d' := by
  refine ⟨fun ref => by rw [h.query.tree], ?_, h.statements⟩
  obtain ⟨f, -, heq⟩ := h.query
  rw [heq]
  rfl

theorem Holds.mono {d d' : Draft} {leaf : Leaf} (h : d.Holds leaf) (hadvances : d.Advances d') : d'.Holds leaf := by
  cases leaf with
  | subquery i =>
    obtain ⟨statement, hstatement⟩ := Option.isSome_iff_exists.mp h
    exact Option.isSome_iff_exists.mpr ⟨statement, hadvances.statements i statement hstatement⟩
  | _ => exact h

/-- All leaves are at hand from which the clauses are made. -/
def Stocked (d : Draft) : Prop :=
  ∀ ref ∈ d.query.roots, ref.isNull = false → ∀ leaf ∈ (d.query.tree ref).leaves, d.Holds leaf

end Draft

namespace Scope

variable {scope : Scope} {d d' : Draft}

theorem holds_of_leafValues {leaf : Leaf} {found : List Value} (h : (scope.leafValues leaf).run d = (.ok found, d')) :
    d'.Holds leaf := by
  cases leaf with
  | subquery i =>
    obtain ⟨statement, _, hstatement, hlast⟩ := run_bind_eq_ok_iff.mp h
    cases hlast
    exact Option.isSome_iff_exists.mpr ⟨statement, statement?_of_run hstatement⟩
  | broken fault => cases h
  | _ => trivial

theorem holds_of_collect {leaves : List Leaf} {found : List Value}
    (h : (scope.collect leaves).run d = (.ok found, d')) :
    ∀ leaf ∈ leaves, d'.Holds leaf := by
  induction leaves generalizing d found with
  | nil => exact fun _ hleaf => by cases hleaf
  | cons leaf rest ih =>
    obtain ⟨first, d₁, hfirst, h⟩ := run_bind_eq_ok_iff.mp h
    obtain ⟨more, _, hmore, hlast⟩ := run_bind_eq_ok_iff.mp h
    cases hlast
    refine List.forall_mem_cons.mpr ⟨(holds_of_leafValues hfirst).mono ?_, ih hmore⟩
    exact ((moves_collect scope rest).of_run hmore).toGrows.advances

theorem holds_of_valuesOfRoots {roots : List NodeRef} {found : List Value}
    (h : (scope.valuesOfRoots roots).run d = (.ok found, d')) :
    ∀ root ∈ roots, ∀ leaf ∈ (d.query.tree root).leaves, d'.Holds leaf := by
  induction roots generalizing d found with
  | nil => exact fun _ hroot => by cases hroot
  | cons root rest ih =>
    obtain ⟨_, _, htree, h⟩ := run_bind_eq_ok_iff.mp h
    cases htree
    obtain ⟨first, d₁, hfirst, h⟩ := run_bind_eq_ok_iff.mp h
    obtain ⟨more, _, hmore, hlast⟩ := run_bind_eq_ok_iff.mp h
    cases hlast
    rw [valuesOf_eq_collect] at hfirst
    have hadvances := ((moves_collect scope _).of_run hfirst).toGrows.advances
    refine List.forall_mem_cons.mpr ⟨fun leaf hleaf => ?_, fun other hother leaf hleaf => ?_⟩
    · exact (holds_of_collect hfirst leaf hleaf).mono ((moves_valuesOfRoots scope rest).of_run hmore).toGrows.advances
    · rw [← hadvances.leaves] at hleaf
      exact ih hmore other hother leaf hleaf

/-- A pass leaves all leaves of its part at hand. -/
theorem holds_of_pass {refs : List NodeRef} {found : List Value} (h : (scope.pass refs).run d = (.ok found, d')) :
    d.Advances d' ∧ ∀ ref ∈ refs, ref.isNull = false → ∀ leaf ∈ (d.query.tree ref).leaves, d'.Holds leaf := by
  obtain ⟨_, d₁, hresolve, hvalues⟩ := run_bind_eq_ok_iff.mp h
  obtain ⟨done, joins, heq, -⟩ := d.query.resolveLeaves_eq scope.schema scope.config.joinType
    (d.query.leaves (refs.filter (!·.isNull)))
  rw [run_onQuery, Query.resolveTrees_eq, heq] at hresolve
  have hresolved : d.Advances d₁ := by
    cases hfault : d.query.fault? scope.schema (d.query.leaves (refs.filter (!·.isNull))) with
    | some e => rw [hfault] at hresolve; cases hresolve
    | none =>
      rw [hfault] at hresolve
      cases hresolve
      exact ⟨Query.leaves_tree_settledAt done joins _, rfl, fun _ _ h => h⟩
  refine ⟨hresolved.trans ((moves_valuesOfRoots scope _).of_run hvalues).toGrows.advances, ?_⟩
  intro ref href hnull leaf hleaf
  rw [← hresolved.leaves] at hleaf
  exact holds_of_valuesOfRoots hvalues ref (List.mem_filter.mpr ⟨href, by rw [hnull]; rfl⟩) leaf hleaf

theorem holds_of_passAll {parts : List (List NodeRef)} {found : List Value}
    (h : (scope.passAll parts).run d = (.ok found, d')) :
    d.Advances d' ∧ ∀ refs ∈ parts, ∀ ref ∈ refs, ref.isNull = false → ∀ leaf ∈ (d.query.tree ref).leaves,
      d'.Holds leaf := by
  induction parts generalizing d found with
  | nil =>
    cases h
    exact ⟨.refl _, fun _ hrefs => by cases hrefs⟩
  | cons refs rest ih =>
    obtain ⟨first, d₁, hfirst, h⟩ := run_bind_eq_ok_iff.mp h
    obtain ⟨more, _, hmore, hlast⟩ := run_bind_eq_ok_iff.mp h
    cases hlast
    obtain ⟨hadvances, hheld⟩ := holds_of_pass hfirst
    obtain ⟨hadvances', hrest⟩ := ih hmore
    refine ⟨hadvances.trans hadvances', List.forall_mem_cons.mpr ⟨?_, ?_⟩⟩
    · exact fun ref href hnull leaf hleaf => (hheld ref href hnull leaf hleaf).mono hadvances'
    · intro others hothers ref href hnull leaf hleaf
      rw [← hadvances.leaves] at hleaf
      exact hrest others hothers ref href hnull leaf hleaf

/-- When the passes are done, the draft is stocked. -/
theorem Drafts.stocked {q : Query} {statement : Statement} {d₁ d₂ : Draft} {clauses : List Sql}
    (h : scope.Drafts q statement d₁ d₂ clauses) : d₁.Stocked := by
  obtain ⟨q₁, requested, found, -, hpassed⟩ := h.passed
  obtain ⟨hadvances, hheld⟩ := holds_of_passAll hpassed
  intro ref href hnull leaf hleaf
  rw [hadvances.leaves] at hleaf
  rw [hadvances.roots] at href
  have hpart :
      ∃ refs ∈ [q₁.select, q₁.head.toList, q₁.summarise.toList, shownHaving q₁, shownOrder q₁], ref ∈ refs := by
    simpa [Query.roots] using href
  obtain ⟨refs, hrefs, href⟩ := hpart
  exact hheld refs hrefs ref href hnull leaf hleaf

end Scope

/-! ## Rendering from a stock -/

/-- The drafts differ at most in their aliases and in the placeholders requested. -/
structure Draft.Agrees (d d' : Draft) : Prop where
  query : d'.query = d.query
  statements : d'.statements = d.statements

namespace Draft

variable {d d' : Draft}

theorem Agrees.refl (d : Draft) : d.Agrees d :=
  ⟨rfl, rfl⟩

theorem Agrees.symm (h : d.Agrees d') : d'.Agrees d :=
  ⟨h.query.symm, h.statements.symm⟩

theorem Agrees.statement? (h : d.Agrees d') (i : Nat) : d'.statement? i = d.statement? i := by
  rw [Draft.statement?, Draft.statement?, h.statements]

theorem Agrees.grows (h : d.Agrees d') : d.Grows d' :=
  ⟨h.query ▸ .refl _, fun i _ hi => (h.statement? i).trans hi⟩

theorem Agrees.eq (h : d.Agrees d') : d' = { d with requested := d'.requested, aliases := d'.aliases } := by
  obtain ⟨hquery, hstatements⟩ := h
  cases d'
  cases hquery
  cases hstatements
  rfl

theorem Stocked.of_root (h : d.Stocked) {ref : NodeRef} (href : ref ∈ d.query.roots) {i : Nat}
    (hi : .subquery i ∈ (d.query.tree ref).leaves) : (d.statement? i).isSome := by
  cases hnull : ref.isNull with
  | true => cases Query.eq_broken_of_isNull hnull hi
  | false => exact h ref href hnull _ hi

theorem Stocked.of_arg (h : d.Stocked) {args : List NodeRef} (hargs : d.query.groupArgs = .ok args) {ref : NodeRef}
    (href : ref ∈ args) {i : Nat} (hi : .subquery i ∈ (d.query.tree ref).leaves) : (d.statement? i).isSome := by
  have hsummarise : ∀ root ∈ d.query.summarise, root ∈ d.query.roots := by
    intro root hroot
    have hroot : d.query.summarise = some root := hroot
    simp [Query.roots, hroot]
  have hleaves := Query.leaves_groupArgs hargs fun root hroot hnull fault hfault =>
    h root (hsummarise root hroot) hnull (.broken fault) hfault
  have hmem : .subquery i ∈ d.query.leaves args := List.mem_flatMap.mpr ⟨ref, href, hi⟩
  rw [hleaves] at hmem
  obtain ⟨root, hroot, hi⟩ := List.mem_flatMap.mp hmem
  exact h.of_root (hsummarise root (Option.mem_toList.mp hroot)) hi

end Draft

theorem Draft.Stocked.of_agrees {d d' : Draft} (h : d.Stocked) (hagrees : d.Agrees d') : d'.Stocked := by
  intro ref href hnull leaf hleaf
  rw [hagrees.query] at href hleaf
  exact (h ref href hnull leaf hleaf).mono hagrees.grows.advances

/-- From a stocked draft, work changes nothing but aliases and the placeholders requested. -/
theorem Scope.invariant_agrees (scope : Scope) {d : Draft} (h : d.Stocked) (S : AliasTable → Prop) :
    scope.Invariant (fun e => d.Agrees e ∧ S e.aliases) (fun e => d.Agrees e ∧ S e.aliases)
      fun i => (d.statement? i).isSome where
  failing _ := id
  placeholder _ _ he := ⟨⟨he.1.query, he.1.statements⟩, he.2⟩
  statementAt i hi e he := by
    obtain ⟨statement, hstatement⟩ := Option.isSome_iff_exists.mp hi
    rw [run_statementAt_of_some scope ((he.1.statement? i).trans hstatement)]
    exact he
  roots e he ref href e' he' i hi := by
    rw [he.1.query] at href
    rw [he'.1.query] at hi
    exact h.of_root href hi
  args e he args hargs ref href e' he' i hi := by
    rw [he.1.query] at hargs
    rw [he'.1.query] at hi
    exact h.of_arg hargs href hi

/-! ## Rendering without aliases -/

namespace DraftM

variable {α β : Type} {work : DraftM α} {next : α → DraftM β}

/-- The work neither looks at the aliases nor gives any. -/
def Blind (work : DraftM α) : Prop :=
  ∀ d table, work.run { d with aliases := table } = ((work.run d).1, { (work.run d).2 with aliases := table })

theorem Blind.pure (a : α) : (pure a : DraftM α).Blind :=
  fun _ _ => rfl

theorem Blind.throw (e : CompileError) : (throw e : DraftM α).Blind :=
  fun _ _ => rfl

theorem Blind.bind (h : work.Blind) (hnext : ∀ a, (next a).Blind) : (work >>= next).Blind := by
  intro d table
  rw [run_bind, run_bind, h d table]
  rcases work.run d with ⟨_ | a, d₁⟩
  · rfl
  · exact hnext a d₁ table

end DraftM

namespace Scope

theorem blind_statementAt (scope : Scope) (i : Nat) : (scope.statementAt (.index i)).Blind := by
  intro d table
  have hstatement : ({ d with aliases := table } : Draft).statement? i = d.statement? i := rfl
  rw [run_statementAt, run_statementAt, hstatement]
  cases d.statement? i with
  | some statement => rfl
  | none =>
    dsimp only
    cases d.query.expr? (.index i) with
    | none => rfl
    | some expr =>
      cases expr with
      | subquery query embedding =>
        dsimp only
        rw [run_compileAt, run_compileAt]
        dsimp only
        cases (scope.nested (query.embedded embedding) d.requested).result <;> rfl
      | _ => rfl

theorem blind_literal (scope : Scope) (style : Style) (v : Value) : (scope.literal style v).Blind := by
  have hmark : (DraftM.placeholder scope.dialect).Blind := fun _ _ => rfl
  cases v with
  | null => exact .pure _
  | _ =>
    cases style with
    | inline => exact .pure _
    | bound => exact hmark.bind fun _ => .pure _

mutual

theorem blind_render (scope : Scope) (style : Style) : (t : Tree) → (scope.render style t).Blind
  | .field _ f => by
    rw [render]
    exact fun _ _ => rfl
  | .value v => by
    rw [render]
    exact blind_literal scope style v
  | .func name args => by
    rw [render]
    exact (blind_renderAll scope style args).bind fun _ => .pure _
  | .calc op left right => by
    rw [render]
    exact (blind_render scope style (left ())).bind fun _ => (blind_render scope style (right ())).bind fun _ => .pure _
  | .cmp op left right => by
    rw [render]
    refine (blind_render scope style (left ())).bind fun _ => ?_
    split
    · exact .pure _
    · exact (blind_render scope style (right ())).bind fun _ => .pure _
  | .cond op args => by
    rw [render]
    refine (blind_renderAll scope style args).bind fun parts => ?_
    cases op.connect parts with
    | ok sql => exact .pure _
    | error e => exact .throw e
  | .sort expr direction => by
    rw [render]
    exact (blind_render scope style (expr ())).bind fun _ => .pure _
  | .summarise args => by
    rw [render]
    exact (blind_renderAll scope style args).bind fun _ => .pure _
  | .subquery index embedding => by
    rw [render]
    exact (blind_statementAt scope index).bind fun _ => .pure _
  | .unknown className => by
    rw [render]
    exact .throw _
  | .broken fault => by
    rw [render]
    exact .throw _

theorem blind_renderAll (scope : Scope) (style : Style) : (ts : List (Unit → Tree)) → (scope.renderAll style ts).Blind
  | [] => by
    rw [renderAll]
    exact .pure _
  | t :: rest => by
    rw [renderAll]
    exact (blind_render scope style (t ())).bind fun _ => (blind_renderAll scope style rest).bind fun _ => .pure _

end

/-- The expression is written out in the draft, after some number of placeholders. -/
def WritesOut (scope : Scope) (d : Draft) (t : Tree) (sql : Sql) : Prop :=
  ∃ requested, ((scope.render .bound t).run { d with requested := requested }).1 = .ok sql

theorem writesOut_of_run {scope : Scope} {d e e' : Draft} {t : Tree} {sql : Sql} (hagrees : d.Agrees e)
    (h : (scope.render .bound t).run e = (.ok sql, e')) : scope.WritesOut d t sql := by
  refine ⟨e.requested, ?_⟩
  have hblind := blind_render scope .bound t { d with requested := e.requested } e.aliases
  have heq : e = { ({ d with requested := e.requested } : Draft) with aliases := e.aliases } := hagrees.eq
  rw [← heq, h] at hblind
  exact (congrArg Prod.fst hblind).symm

end Scope

end ArenaSql
