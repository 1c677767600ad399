import ArenaSql.Proofs.Overlay
import ArenaSql.Proofs.View

/-!
# Reading a draft

Clauses are rendered from a draft in which all nested queries are compiled. Such work only reads: it counts
placeholders and leaves everything else in the draft as it is, and its answer is the one that the view of the
query gives.
-/

namespace ArenaSql

/-- The view that a scope has of a query. -/
def Scope.view (scope : Scope) (q : Query) : View :=
  ⟨scope.dialect, q.tables, scope.nestedAt q⟩

namespace Draft

/-- The statement of the nested query at a position, if it is there. -/
def statement? (d : Draft) (i : Nat) : Option Statement :=
  (d.statements.find? (·.1 == i)).map (·.2)

/-- The draft stands for the query `q`, and holds the statements of the nested queries at the positions
`known`. -/
structure Ready (scope : Scope) (q : Query) (known : Nat → Prop) (d : Draft) : Prop where
  query_eq : ∃ done, d.query = scope.overlay done q
  statements : ∀ i, known i → ∃ statement, d.statement? i = some statement ∧ scope.nestedAt q i = .ok statement

end Draft

namespace Scope

variable {scope : Scope} {q : Query} {known : Nat → Prop} {α β : Type}

/-- From the draft the work ends with the answer, and does nothing but count placeholders. -/
def YieldsFrom (work : DraftM α) (answer : Except CompileError α) (d : Draft) : Prop :=
  ∃ n, work.run d = (answer, { d with requested := n })

/-- The work does so from every draft that is ready. -/
def Yields (scope : Scope) (q : Query) (known : Nat → Prop) (work : DraftM α) (answer : Except CompileError α) :
    Prop :=
  ∀ d, d.Ready scope q known → YieldsFrom work answer d

theorem YieldsFrom.pure (a : α) (d : Draft) : YieldsFrom (pure a) (.ok a) d :=
  ⟨d.requested, rfl⟩

theorem YieldsFrom.throw (e : CompileError) (d : Draft) : YieldsFrom (throw e : DraftM α) (.error e) d :=
  ⟨d.requested, rfl⟩

/-- The steps of the work follow the steps of the answer. -/
theorem YieldsFrom.bind {work : DraftM α} {answer : Except CompileError α} {next : α → DraftM β}
    {after : α → Except CompileError β} {d : Draft} (h : YieldsFrom work answer d)
    (hnext : ∀ a n, answer = .ok a → YieldsFrom (next a) (after a) { d with requested := n }) :
    YieldsFrom (work >>= next) (answer >>= after) d := by
  obtain ⟨n, hrun⟩ := h
  rw [YieldsFrom, DraftM.run_bind, hrun]
  cases answer with
  | error e => exact ⟨n, rfl⟩
  | ok a => exact hnext a n rfl

theorem YieldsFrom.get {next : Draft → DraftM α} {answer : Except CompileError α} {d : Draft}
    (h : YieldsFrom (next d) answer d) : YieldsFrom (get >>= next) answer d := by
  rw [YieldsFrom, DraftM.run_bind]
  exact h

theorem Yields.pure (a : α) : scope.Yields q known (pure a) (.ok a) :=
  fun d _ => .pure a d

theorem Yields.throw (e : CompileError) : scope.Yields q known (throw e : DraftM α) (.error e) :=
  fun d _ => .throw e d

theorem Yields.bind {work : DraftM α} {answer : Except CompileError α} {next : α → DraftM β}
    {after : α → Except CompileError β} (h : scope.Yields q known work answer)
    (hnext : ∀ a, answer = .ok a → scope.Yields q known (next a) (after a)) :
    scope.Yields q known (work >>= next) (answer >>= after) :=
  fun d hd => (h d hd).bind fun a _ ha => hnext a ha _ ⟨hd.1, hd.2⟩

/-! ## Leaves -/

theorem Yields.literal (hd : scope.dialect.Stateless) (style : Style) (v : Value) :
    scope.Yields q known (scope.literal style v) (.ok ((scope.view q).literal style v)) := by
  intro d _
  cases style with
  | inline => cases v <;> exact .pure _ d
  | bound =>
    have hmark : (DraftM.placeholder scope.dialect).run d =
        (.ok scope.dialect.mark, { d with requested := d.requested + 1 }) :=
      congrArg (fun mark => (Except.ok mark, _)) (hd _)
    cases v with
    | null => exact .pure _ d
    | _ =>
      refine ⟨d.requested + 1, ?_⟩
      rw [Scope.literal, DraftM.run_bind, hmark]
      · rfl
      · rintro ⟨⟩

theorem find?_position (statements : List (Nat × Statement)) (i : Nat) :
    statements.find? (fun (j, _) => (NodeRef.index i).equalPosition? == some j) =
      statements.find? (·.1 == i) := by
  congr 1
  funext entry
  rw [NodeRef.equalPosition?_index, NodeRef.position?_natCast, Bool.eq_iff_iff, beq_iff_eq, beq_iff_eq,
    Option.some.injEq]
  exact eq_comm

theorem run_statementAt_of_some (scope : Scope) {d : Draft} {i : Nat} {statement : Statement}
    (h : d.statement? i = some statement) : (scope.statementAt (.index i)).run d = (.ok statement, d) := by
  rw [Scope.statementAt, DraftM.run_bind, DraftM.run_get]
  obtain ⟨entry, hfound, rfl⟩ := Option.map_eq_some_iff.mp h
  dsimp only
  rw [find?_position, hfound]
  rfl

/-- The statement of a nested query that is compiled is at hand. -/
theorem Yields.statementAt {i : Nat} (hknown : known i) :
    scope.Yields q known (scope.statementAt (.index i)) (scope.nestedAt q i) := by
  intro d hd
  obtain ⟨statement, hstatement, hnested⟩ := hd.statements i hknown
  rw [hnested]
  exact ⟨d.requested, run_statementAt_of_some scope hstatement⟩

/-! ## Expressions -/

/-- Work on drafts goes step by step with answers of the view: both go on after each other, and field, literal and the
nested queries at the positions `known` are answered. -/
structure Reads (scope : Scope) (q : Query) (known : Nat → Prop)
    (r : (α : Type) → DraftM α → Except CompileError α → Prop) : Prop where
  pure {α : Type} (a : α) : r α (pure a) (.ok a)
  throw {α : Type} (e : CompileError) : r α (throw e) (.error e)
  bind {α β : Type} {work : DraftM α} {answer : Except CompileError α} {next : α → DraftM β}
    {after : α → Except CompileError β} : r α work answer → (∀ a, r β (next a) (after a)) →
    r β (work >>= next) (answer >>= after)
  field (f : Field) : r Sql (do return Sql.plain (f.text (← get).query.tables)) (.ok (Sql.plain (f.text q.tables)))
  literal (style : Style) (v : Value) : r Sql (scope.literal style v) (.ok ((scope.view q).literal style v))
  statementAt {i : Nat} : known i → r Statement (scope.statementAt (.index i)) (scope.nestedAt q i)

section

variable {r : (α : Type) → DraftM α → Except CompileError α → Prop}

mutual

theorem Reads.render (hr : scope.Reads q known r) (style : Style) :
    (t : Tree) → (∀ i, .subquery i ∈ t.leaves → known i) →
      r Sql (scope.render style t) ((scope.view q).render style t)
  | .field _ f, _ => by
    rw [Scope.render, View.render]
    exact hr.field f
  | .value v, _ => by
    rw [Scope.render, View.render]
    exact hr.literal style v
  | .func name args, h => by
    rw [Scope.render, View.render]
    exact hr.bind (hr.renderAll style args h) fun _ => hr.pure _
  | .calc op left right, h => by
    rw [Scope.render, View.render]
    refine hr.bind (hr.render style (left ()) fun i hi => h i (List.mem_append_left _ hi)) fun _ => ?_
    exact hr.bind (hr.render style (right ()) fun i hi => h i (List.mem_append_right _ hi)) fun _ => hr.pure _
  | .cmp op left right, h => by
    rw [Scope.render, View.render]
    refine hr.bind (hr.render style (left ()) fun i hi => h i (List.mem_append_left _ hi)) fun _ => ?_
    have hright := hr.render style (right ()) fun i hi => h i (List.mem_append_right _ hi)
    cases op.nullTest? with
    | none => exact hr.bind hright fun _ => hr.pure _
    | some test =>
      cases (right ()).isNull with
      | true => exact hr.pure _
      | false => exact hr.bind hright fun _ => hr.pure _
  | .cond op args, h => by
    rw [Scope.render, View.render]
    refine hr.bind (hr.renderAll style args h) fun parts => ?_
    cases op.connect parts with
    | ok sql => exact hr.pure _
    | error e => exact hr.throw e
  | .sort expr direction, h => by
    rw [Scope.render, View.render]
    exact hr.bind (hr.render style (expr ()) h) fun _ => hr.pure _
  | .summarise args, h => by
    rw [Scope.render, View.render]
    exact hr.bind (hr.renderAll style args h) fun _ => hr.pure _
  | .subquery index embedding, h => by
    rw [Scope.render, View.render]
    exact hr.bind (hr.statementAt (h index (List.mem_singleton_self _))) fun _ => hr.pure _
  | .unknown className, _ => by
    rw [Scope.render, View.render]
    exact hr.throw _
  | .broken fault, _ => by
    rw [Scope.render, View.render]
    exact hr.throw _

theorem Reads.renderAll (hr : scope.Reads q known r) (style : Style) :
    (ts : List (Unit → Tree)) → (∀ i, .subquery i ∈ Tree.leaves.leavesAll ts → known i) →
      r (List Sql) (scope.renderAll style ts) ((scope.view q).renderAll style ts)
  | [], _ => by
    rw [Scope.renderAll, View.renderAll]
    exact hr.pure _
  | t :: rest, h => by
    rw [Scope.renderAll, View.renderAll]
    refine hr.bind (hr.render style (t ()) fun i hi => h i (List.mem_append_left _ hi)) fun _ => ?_
    exact hr.bind (hr.renderAll style rest fun i hi => h i (List.mem_append_right _ hi)) fun _ => hr.pure _

end

end

theorem reads_yields (hd : scope.dialect.Stateless) : scope.Reads q known fun _ => scope.Yields q known where
  pure := .pure
  throw := .throw
  bind h hnext := h.bind fun a _ => hnext a
  field f := by
    intro d hready
    obtain ⟨done, hquery⟩ := hready.query_eq
    have htables : d.query.tables = q.tables := by rw [hquery, overlay_tables]
    refine .get ?_
    rw [htables]
    exact .pure _ d
  literal := .literal hd
  statementAt := .statementAt

theorem Yields.render (hd : scope.dialect.Stateless) (style : Style) (t : Tree)
    (h : ∀ i, .subquery i ∈ t.leaves → known i) :
    scope.Yields q known (scope.render style t) ((scope.view q).render style t) :=
  (reads_yields hd).render style t h

end Scope

end ArenaSql
