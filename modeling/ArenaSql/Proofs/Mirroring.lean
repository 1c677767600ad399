import ArenaSql.Proofs.Clauses

/-!
# Work that other work mirrors

Collecting values and rendering clauses depend on a scope through its dialect, its configuration and the statements of
nested queries. On a draft they depend through all of it, but only two clauses ask for the filter and the condition on
groups. So where two scopes differ in their schemas and two drafts in these roots only, and nested queries are compiled
by both scopes in the same way, all such work succeeds in the one scope with the answer it has in the other. The two
drafts are related all the way, by a relation that the work keeps; and if the work fails, it is known how.
-/

namespace ArenaSql

/-- The query with another filter and another condition on groups. -/
def Query.rerooted (q : Query) (head having : Option NodeRef) : Query :=
  { q with head, having }

/-- The draft with another filter and another condition on groups. -/
def Draft.rerooted (d : Draft) (head having : Option NodeRef) : Draft :=
  { d with query := d.query.rerooted head having }

theorem Draft.rerooted_self (d : Draft) : d.rerooted d.query.head d.query.having = d := by
  obtain ⟨q, statements, aliases, requested⟩ := d
  cases q
  rfl

/-- In all drafts with `P`, the nested queries below the reference are at the positions `known`. -/
def Draft.Reads (P : Draft → Prop) (known : Nat → Prop) (ref : NodeRef) : Prop :=
  ∀ d, P d → ∀ i, .subquery i ∈ (d.query.tree ref).leaves → known i

namespace DraftM

variable {α β : Type} {R : Draft → Draft → Prop} {F : CompileError → Draft → Option Draft → Prop}
  {work work' : DraftM α} {next next' : α → DraftM β}

/-- From drafts related by `R`, if the work succeeds then `work'` does so with the same answer, and leaves a draft
related by `R` again. If it fails, `F` knows the reason and the draft that is left; or `work'` fails for the same reason,
and `F` knows both drafts. -/
def Mirrors (R : Draft → Draft → Prop) (F : CompileError → Draft → Option Draft → Prop) (work work' : DraftM α) : Prop :=
  ∀ d d', R d d' → match work.run d with
    | (.ok a, d₁) => ∃ d₁', work'.run d' = (.ok a, d₁') ∧ R d₁ d₁'
    | (.error e, d₁) => F e d₁ none ∨ ∃ d₁', work'.run d' = (.error e, d₁') ∧ F e d₁ (some d₁')

theorem Mirrors.pure (a : α) : Mirrors R F (pure a : DraftM α) (Pure.pure a) :=
  fun _ d' hd => ⟨d', rfl, hd⟩

theorem Mirrors.throw {e : CompileError} (hfailing : ∀ d d', R d d' → F e d none ∨ F e d (some d')) :
    Mirrors R F (throw e : DraftM α) (MonadExcept.throw e) :=
  fun d d' hd => (hfailing d d' hd).imp_right fun h => ⟨d', rfl, h⟩

theorem Mirrors.bind (h : Mirrors R F work work') (hnext : ∀ a, Mirrors R F (next a) (next' a)) :
    Mirrors R F (work >>= next) (work' >>= next') := by
  intro d d' hd
  have hfirst := h d d' hd
  rw [run_bind, run_bind]
  rcases hrun : work.run d with ⟨e | a, d₁⟩
  · rw [hrun] at hfirst
    refine hfirst.imp_right ?_
    rintro ⟨d₁', hrun', hd₁⟩
    exact ⟨d₁', by rw [hrun'], hd₁⟩
  · rw [hrun] at hfirst
    obtain ⟨d₁', hrun', hd₁⟩ := hfirst
    rw [hrun']
    exact hnext a d₁ d₁' hd₁

/-- Work that goes on from the draft it is given. -/
theorem Mirrors.get_bind {next next' : Draft → DraftM β} (h : ∀ d d', R d d' → Mirrors R F (next d) (next' d')) :
    Mirrors R F (get >>= next) (get >>= next') :=
  fun d d' hd => h d d' hd d d' hd

end DraftM

open DraftM

/-- The second scope has the dialect and the configuration of the first one, and its nested queries at the positions
`known` mirror those of the first one. There are no other nested queries below the references from which clauses start.
The drafts differ in roots only and request the same placeholders, and it is known how work fails that resolves no
fields. -/
structure Scope.Mirror (scope scope' : Scope) (R : Draft → Draft → Prop)
    (F : CompileError → Draft → Option Draft → Prop) (known : Nat → Prop) : Prop where
  dialect : scope'.dialect = scope.dialect
  config : scope'.config = scope.config
  same : ∀ d d', R d d' → ∃ head having, d' = d.rerooted head having
  failing : ∀ e, e.unresolved? = none → ∀ d d', R d d' → F e d none ∨ F e d (some d')
  placeholder : ∀ d d' n, R d d' → R { d with requested := n } { d' with requested := n }
  statementAt : ∀ i, known i → Mirrors R F (scope.statementAt (.index i)) (scope'.statementAt (.index i))
  roots : ∀ d d', R d d' → ∀ ref ∈ d.query.roots, Draft.Reads (fun d => ∃ d', R d d') known ref
  args : ∀ d d', R d d' → ∀ args, d.query.groupArgs = .ok args → ∀ ref ∈ args,
    Draft.Reads (fun d => ∃ d', R d d') known ref

namespace Scope

variable {scope scope' : Scope} {R : Draft → Draft → Prop} {F : CompileError → Draft → Option Draft → Prop}
  {known : Nat → Prop}

theorem unresolved?_connect {op : CondOp} {parts : List Sql} {e : CompileError} (h : op.connect parts = .error e) :
    e.unresolved? = none := by
  unfold CondOp.connect at h
  split at h <;> cases h
  rfl

theorem unresolved?_groupArgs {q : Query} {e : CompileError} (h : q.groupArgs = .error e) : e.unresolved? = none := by
  rw [Query.groupArgs] at h
  split at h
  · cases h
  · split at h <;> cases h <;> rfl

theorem Mirror.tree_bind (h : scope.Mirror scope' R F known) {β : Type} {next next' : Tree → DraftM β} {ref : NodeRef}
    (hnext : ∀ d d', R d d' → Mirrors R F (next (d.query.tree ref)) (next' (d.query.tree ref))) :
    Mirrors R F (tree ref >>= next) (tree ref >>= next') := by
  intro d d' hd
  have hmirrors := hnext d d' hd d d' hd
  obtain ⟨head, having, rfl⟩ := h.same d d' hd
  exact hmirrors

/-! ## Expressions -/

theorem mirrors_literal (h : scope.Mirror scope' R F known) (style : Style) (v : Value) :
    Mirrors R F (scope.literal style v) (scope'.literal style v) := by
  have hmark : Mirrors R F (placeholder scope.dialect) (placeholder scope'.dialect) := by
    intro d d' hd
    have hnext := h.placeholder d d' (d.requested + 1) hd
    obtain ⟨head, having, rfl⟩ := h.same d d' hd
    rw [h.dialect]
    exact ⟨_, rfl, hnext⟩
  cases v with
  | null => exact .pure _
  | _ =>
    cases style with
    | inline => exact .pure _
    | bound => exact hmark.bind fun _ => .pure _

mutual

theorem mirrors_render (h : scope.Mirror scope' R F known) (style : Style) :
    (t : Tree) → (∀ i, .subquery i ∈ t.leaves → known i) → Mirrors R F (scope.render style t) (scope'.render style t)
  | .field _ f, _ => by
    rw [render, render]
    refine .get_bind fun d d' hd => ?_
    obtain ⟨head, having, rfl⟩ := h.same d d' hd
    exact .pure _
  | .value v, _ => by
    rw [render, render]
    exact mirrors_literal h style v
  | .func name args, ht => by
    rw [render, render]
    exact (mirrors_renderAll h style args ht).bind fun _ => .pure _
  | .calc op left right, ht => by
    rw [render, render]
    refine (mirrors_render h style (left ()) fun i hi => ht i (List.mem_append_left _ hi)).bind fun _ => ?_
    exact (mirrors_render h style (right ()) fun i hi => ht i (List.mem_append_right _ hi)).bind fun _ => .pure _
  | .cmp op left right, ht => by
    rw [render, render, h.dialect]
    refine (mirrors_render h style (left ()) fun i hi => ht i (List.mem_append_left _ hi)).bind fun _ => ?_
    split
    · exact .pure _
    · exact (mirrors_render h style (right ()) fun i hi => ht i (List.mem_append_right _ hi)).bind fun _ => .pure _
  | .cond op args, ht => by
    rw [render, render]
    refine (mirrors_renderAll h style args ht).bind fun parts => ?_
    cases hconnect : op.connect parts with
    | ok sql => exact .pure _
    | error e => exact .throw (h.failing e (unresolved?_connect hconnect))
  | .sort expr direction, ht => by
    rw [render, render]
    exact (mirrors_render h style (expr ()) ht).bind fun _ => .pure _
  | .summarise args, ht => by
    rw [render, render]
    exact (mirrors_renderAll h style args ht).bind fun _ => .pure _
  | .subquery index embedding, ht => by
    rw [render, render]
    exact (h.statementAt index (ht index (List.mem_singleton_self _))).bind fun _ => .pure _
  | .unknown className, _ => by
    rw [render, render]
    exact .throw (h.failing _ rfl)
  | .broken fault, _ => by
    rw [render, render]
    exact .throw (h.failing _ rfl)

theorem mirrors_renderAll (h : scope.Mirror scope' R F known) (style : Style) :
    (ts : List (Unit → Tree)) → (∀ i, .subquery i ∈ Tree.leaves.leavesAll ts → known i) →
      Mirrors R F (scope.renderAll style ts) (scope'.renderAll style ts)
  | [], _ => by
    rw [renderAll, renderAll]
    exact .pure _
  | t :: rest, hts => by
    rw [renderAll, renderAll]
    refine (mirrors_render h style (t ()) fun i hi => hts i (List.mem_append_left _ hi)).bind fun _ => ?_
    exact (mirrors_renderAll h style rest fun i hi => hts i (List.mem_append_right _ hi)).bind fun _ => .pure _

end

variable (h : scope.Mirror scope' R F known)

include h

theorem mirrors_leafValues (leaf : Leaf) (hleaf : ∀ i, leaf = .subquery i → known i) :
    Mirrors R F (scope.leafValues leaf) (scope'.leafValues leaf) := by
  cases leaf with
  | value v => cases v <;> exact .pure _
  | subquery i => exact (h.statementAt i (hleaf i rfl)).bind fun _ => .pure _
  | field | unknown => exact .pure _
  | broken fault => exact .throw (h.failing _ rfl)

theorem mirrors_collect (leaves : List Leaf) (hleaves : ∀ i, .subquery i ∈ leaves → known i) :
    Mirrors R F (scope.collect leaves) (scope'.collect leaves) := by
  induction leaves with
  | nil => exact .pure _
  | cons leaf rest ih =>
    refine (mirrors_leafValues h leaf fun i hi => hleaves i (hi ▸ List.mem_cons_self)).bind fun _ => ?_
    exact (ih fun i hi => hleaves i (List.mem_cons_of_mem _ hi)).bind fun _ => .pure _

theorem mirrors_valuesOf (t : Tree) (ht : ∀ i, .subquery i ∈ t.leaves → known i) :
    Mirrors R F (scope.valuesOf t) (scope'.valuesOf t) := by
  rw [valuesOf_eq_collect, valuesOf_eq_collect]
  exact mirrors_collect h t.leaves ht

theorem mirrors_hasValues (t : Tree) (ht : ∀ i, .subquery i ∈ t.leaves → known i) :
    Mirrors R F (scope.hasValues t) (scope'.hasValues t) := by
  rw [hasValues_eq_anyValues, hasValues_eq_anyValues]
  generalize t.leaves = leaves at ht
  induction leaves with
  | nil => exact .pure _
  | cons leaf rest ih =>
    refine (mirrors_leafValues h leaf fun i hi => ht i (hi ▸ List.mem_cons_self)).bind fun found => ?_
    cases found with
    | nil => exact ih fun i hi => ht i (List.mem_cons_of_mem _ hi)
    | cons => exact .pure _

theorem mirrors_valuesOfRoots (roots : List NodeRef)
    (hroots : ∀ ref ∈ roots, Draft.Reads (fun d => ∃ d', R d d') known ref) :
    Mirrors R F (scope.valuesOfRoots roots) (scope'.valuesOfRoots roots) := by
  induction roots with
  | nil => exact .pure _
  | cons root rest ih =>
    obtain ⟨hroot, hrest⟩ := List.forall_mem_cons.mp hroots
    refine h.tree_bind fun d d' hd => (mirrors_valuesOf h _ (hroot d ⟨d', hd⟩)).bind fun _ => ?_
    exact (ih hrest).bind fun _ => .pure _

/-! ## Aliases -/

theorem mirrors_isSimple (t : Tree) : Mirrors R F (Scope.isSimple t) (Scope.isSimple t) := by
  rw [Scope.isSimple]
  cases t.isSimple with
  | ok b => exact .pure b
  | error fault => exact .throw (h.failing _ rfl)

theorem mirrors_canonicalText (t : Tree) (ht : ∀ i, .subquery i ∈ t.leaves → known i) :
    Mirrors R F (scope.canonicalText t) (scope'.canonicalText t) :=
  (mirrors_render h .inline t ht).bind fun _ => .pure _

theorem mirrors_aliasOf? (t : Tree) (ht : ∀ i, .subquery i ∈ t.leaves → known i) :
    Mirrors R F (scope.aliasOf? t) (scope'.aliasOf? t) := by
  refine (mirrors_canonicalText h t ht).bind fun _ => .get_bind fun d d' hd => ?_
  obtain ⟨head, having, rfl⟩ := h.same d d' hd
  exact .pure _

section

variable (haliases : ∀ d d' table, R d d' → R { d with aliases := table } { d' with aliases := table })

include haliases

theorem mirrors_freshAlias (t : Tree) (ht : ∀ i, .subquery i ∈ t.leaves → known i) :
    Mirrors R F (scope.freshAlias t) (scope'.freshAlias t) := by
  refine (mirrors_canonicalText h t ht).bind fun text => .get_bind fun d d' hd => ?_
  obtain ⟨head, having, rfl⟩ := h.same d d' hd
  rw [h.config, show (d.rerooted head having).aliases = d.aliases from rfl]
  cases d.aliases.assign scope.config text with
  | error e => exact .throw (h.failing _ rfl)
  | ok found =>
    have hinsert : Mirrors R F (modify fun d : Draft => { d with aliases := found.2 } : DraftM PUnit)
        (modify fun d : Draft => { d with aliases := found.2 }) :=
      fun d d' hd => ⟨_, rfl, haliases d d' _ hd⟩
    exact hinsert.bind fun _ => .pure _

theorem mirrors_renderAliased (t : Tree) (ht : ∀ i, .subquery i ∈ t.leaves → known i) :
    Mirrors R F (scope.renderAliased t) (scope'.renderAliased t) := by
  refine (mirrors_isSimple h t).bind fun simple => ?_
  cases simple with
  | true => exact mirrors_render h .bound t ht
  | false =>
    refine (mirrors_aliasOf? h t ht).bind fun found => ?_
    cases found with
    | some name => exact .pure _
    | none =>
      refine (mirrors_freshAlias h haliases t ht).bind fun _ => ?_
      exact (mirrors_render h .bound t ht).bind fun _ => .pure _

theorem mirrors_groupItem (ref : NodeRef) (href : Draft.Reads (fun d => ∃ d', R d d') known ref) :
    Mirrors R F (scope.groupItem ref) (scope'.groupItem ref) := by
  refine h.tree_bind fun d d' hd => ?_
  have ht := href d ⟨d', hd⟩
  refine (mirrors_isSimple h _).bind fun simple => ?_
  cases simple with
  | true => exact mirrors_render h .bound _ ht
  | false =>
    refine (mirrors_aliasOf? h _ ht).bind fun found => ?_
    cases found with
    | none => exact mirrors_renderAliased h haliases _ ht
    | some name =>
      refine (mirrors_hasValues h _ ht).bind fun valued => ?_
      cases valued with
      | true => exact mirrors_render h .bound _ ht
      | false => exact mirrors_renderAliased h haliases _ ht

theorem mirrors_groupItems (refs : List NodeRef)
    (hrefs : ∀ ref ∈ refs, Draft.Reads (fun d => ∃ d', R d d') known ref) :
    Mirrors R F (scope.groupItems refs) (scope'.groupItems refs) := by
  induction refs with
  | nil => exact .pure _
  | cons ref rest ih =>
    obtain ⟨href, hrest⟩ := List.forall_mem_cons.mp hrefs
    exact (mirrors_groupItem h haliases ref href).bind fun _ => (ih hrest).bind fun _ => .pure _

theorem mirrors_groupByClause : Mirrors R F scope.groupByClause scope'.groupByClause := by
  intro d d' hd
  obtain ⟨head, having, rfl⟩ := h.same d d' hd
  rw [run_groupByClause, run_groupByClause,
    show (d.rerooted head having).query.groupArgs = d.query.groupArgs from rfl]
  cases hargs : d.query.groupArgs with
  | error e => exact Mirrors.throw (h.failing e (unresolved?_groupArgs hargs)) d _ hd
  | ok args =>
    cases args with
    | nil => exact ⟨_, rfl, hd⟩
    | cons ref rest =>
      exact ((mirrors_groupItems h haliases _ (h.args d _ hd _ hargs)).bind fun _ => .pure _) d _ hd

end

/-! ## Clauses -/

theorem mirrors_selectItem (ref : NodeRef) (href : Draft.Reads (fun d => ∃ d', R d d') known ref) :
    Mirrors R F (scope.selectItem ref) (scope'.selectItem ref) := by
  refine h.tree_bind fun d d' hd => (mirrors_render h .bound _ (href d ⟨d', hd⟩)).bind fun _ => .get_bind fun d d' hd => ?_
  obtain ⟨head, having, rfl⟩ := h.same d d' hd
  rw [show (d.rerooted head having).query.node? ref = d.query.node? ref from rfl]
  cases (d.query.node? ref).bind (·.aliasName.filter (!·.isEmpty)) with
  | some name => exact .pure _
  | none => exact .pure _

theorem mirrors_selectItems (refs : List NodeRef)
    (hrefs : ∀ ref ∈ refs, Draft.Reads (fun d => ∃ d', R d d') known ref) :
    Mirrors R F (scope.selectItems refs) (scope'.selectItems refs) := by
  induction refs with
  | nil => exact .pure _
  | cons ref rest ih =>
    obtain ⟨href, hrest⟩ := List.forall_mem_cons.mp hrefs
    exact (mirrors_selectItem h ref href).bind fun _ => (ih hrest).bind fun _ => .pure _

theorem mirrors_selectClause : Mirrors R F scope.selectClause scope'.selectClause := by
  refine .get_bind fun d d' hd => ?_
  have hroots : ∀ ref ∈ d.query.select, Draft.Reads (fun d => ∃ d', R d d') known ref :=
    fun ref href => h.roots d d' hd ref (List.mem_append_left _ href)
  obtain ⟨head, having, rfl⟩ := h.same d d' hd
  rw [show (d.rerooted head having).query.select = d.query.select from rfl]
  cases hselect : d.query.select with
  | nil => exact .pure _
  | cons ref rest =>
    rw [hselect] at hroots
    exact (mirrors_selectItems h (ref :: rest) hroots).bind fun _ => .pure _

theorem mirrors_fromClause : Mirrors R F Scope.fromClause Scope.fromClause := by
  refine .get_bind fun d d' hd => ?_
  obtain ⟨head, having, rfl⟩ := h.same d d' hd
  exact .pure _

theorem mirrors_whereClause (hhead : ∀ d d', R d d' → d'.query.head = d.query.head) :
    Mirrors R F scope.whereClause scope'.whereClause := by
  refine .get_bind fun d d' hd => ?_
  rw [hhead d d' hd]
  cases hroot : d.query.head with
  | none => exact .pure _
  | some root =>
    have hreads := h.roots d d' hd root (by simp [Query.roots, hroot])
    refine h.tree_bind fun d d' hd => (mirrors_render h .bound _ (hreads d ⟨d', hd⟩)).bind fun sql => ?_
    cases sql.isBlank with
    | true => exact .pure _
    | false => exact .pure _

theorem mirrors_havingClause (hhaving : ∀ d d', R d d' → d'.query.having = d.query.having) :
    Mirrors R F scope.havingClause scope'.havingClause := by
  refine .get_bind fun d d' hd => ?_
  have hsummarise : d'.query.summarise = d.query.summarise := by
    obtain ⟨head, having, rfl⟩ := h.same d d' hd
    rfl
  dsimp only
  rw [hsummarise, hhaving d d' hd]
  cases hgrouping : d.query.summarise with
  | none => exact .pure _
  | some root =>
    cases hcondition : d.query.having with
    | none => exact .pure _
    | some ref =>
      have hreads := h.roots d d' hd ref (by simp [Query.roots, shownHaving, hgrouping, hcondition])
      exact h.tree_bind fun d d' hd => (mirrors_render h .bound _ (hreads d ⟨d', hd⟩)).bind fun _ => .pure _

theorem mirrors_orderItem (ref : NodeRef) (href : Draft.Reads (fun d => ∃ d', R d d') known ref) :
    Mirrors R F (scope.orderItem ref) (scope'.orderItem ref) := by
  refine h.tree_bind fun d d' hd => ?_
  have ht := href d ⟨d', hd⟩
  generalize d.query.tree ref = t at ht
  cases t with
  | sort expr direction =>
    have hexpr : ∀ i, .subquery i ∈ (expr ()).leaves → known i := ht
    refine (mirrors_isSimple h (expr ())).bind fun simple => ?_
    cases simple with
    | true => exact mirrors_render h .bound _ ht
    | false =>
      refine (mirrors_hasValues h (expr ()) hexpr).bind fun valued => ?_
      cases valued with
      | true => exact mirrors_render h .bound _ ht
      | false =>
        refine (mirrors_aliasOf? h (expr ()) hexpr).bind fun found => ?_
        cases found with
        | some name => exact .pure _
        | none => exact mirrors_render h .bound _ ht
  | _ => exact mirrors_render h .bound _ ht

theorem mirrors_orderItems (refs : List NodeRef)
    (hrefs : ∀ ref ∈ refs, Draft.Reads (fun d => ∃ d', R d d') known ref) :
    Mirrors R F (scope.orderItems refs) (scope'.orderItems refs) := by
  induction refs with
  | nil => exact .pure _
  | cons ref rest ih =>
    obtain ⟨href, hrest⟩ := List.forall_mem_cons.mp hrefs
    exact (mirrors_orderItem h ref href).bind fun _ => (ih hrest).bind fun _ => .pure _

theorem mirrors_orderByClause : Mirrors R F scope.orderByClause scope'.orderByClause := by
  refine .get_bind fun d d' hd => ?_
  have hroots := h.roots d d' hd
  obtain ⟨head, having, rfl⟩ := h.same d d' hd
  dsimp only [Draft.rerooted, Query.rerooted]
  split
  · exact .pure _
  · rename_i hshown
    simp only [Bool.or_eq_true, not_or, Bool.not_eq_true, Bool.not_eq_false'] at hshown
    refine (mirrors_orderItems h d.query.order fun ref href => hroots ref ?_).bind fun _ => .pure _
    simp [Query.roots, shownOrder, hshown.1.1, hshown.1.2, href]

theorem mirrors_limitClause : Mirrors R F scope.limitClause scope'.limitClause := by
  refine .get_bind fun d d' hd => ?_
  obtain ⟨head, having, rfl⟩ := h.same d d' hd
  rw [h.config]
  exact .pure _

/-- All clauses, if the two drafts have the same roots. -/
theorem mirrors_clauses (hhead : ∀ d d', R d d' → d'.query.head = d.query.head)
    (hhaving : ∀ d d', R d d' → d'.query.having = d.query.having)
    (haliases : ∀ d d' table, R d d' → R { d with aliases := table } { d' with aliases := table }) :
    Mirrors R F scope.clauses scope'.clauses := by
  refine (mirrors_selectClause h).bind fun _ => (mirrors_fromClause h).bind fun _ => ?_
  refine (mirrors_whereClause h hhead).bind fun _ => (mirrors_groupByClause h haliases).bind fun _ => ?_
  refine (mirrors_havingClause h hhaving).bind fun _ => (mirrors_orderByClause h).bind fun _ => ?_
  exact (mirrors_limitClause h).bind fun _ => .pure _

end Scope

end ArenaSql
