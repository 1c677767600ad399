import ArenaSql.Proofs.FreshAliases
import ArenaSql.Proofs.Growth

/-!
# Texts and aliases, asked for again

The canonical text of an expression and whether it has values stay what they were found to be, however the draft goes
on. So it can be said what an argument of the grouping and a term of the ordering look like by what their texts are.
-/

namespace ArenaSql

/-! ## Work that may be repeated -/

namespace DraftM

variable {α β : Type} {work work' : DraftM α} {next next' : α → DraftM β}

/-- Once the work has an answer, `work'` has that answer in all later drafts, and leaves them alone. -/
structure Recalls (work work' : DraftM α) : Prop where
  moves : work.Moves Draft.Grows
  again : ∀ {d a d'}, work.run d = (.ok a, d') → ∀ later, d'.Grows later → work'.run later = (.ok a, later)

/-- Once the work has an answer, it has that answer in all later drafts, and leaves them alone. -/
abbrev Replays (work : DraftM α) : Prop :=
  work.Recalls work

theorem Recalls.pure (a : α) : (pure a : DraftM α).Recalls (Pure.pure a) := by
  refine ⟨.pure a, fun h later _ => ?_⟩
  cases h
  rfl

theorem Recalls.throw (e : CompileError) : (throw e : DraftM α).Recalls (MonadExcept.throw e) :=
  ⟨.throw e, fun h => by cases h⟩

theorem Recalls.bind (h : work.Recalls work') (hnext : ∀ a, (next a).Recalls (next' a)) :
    (work >>= next).Recalls (work' >>= next') := by
  refine ⟨h.moves.bind fun a => (hnext a).moves, fun hrun later hlater => ?_⟩
  obtain ⟨a, d₁, hfirst, hrest⟩ := run_bind_eq_ok_iff.mp hrun
  have hgrows := (hnext a).moves.of_run hrest
  exact run_bind_eq_ok_iff.mpr
    ⟨a, later, h.again hfirst later (hgrows.trans hlater), (hnext a).again hrest later hlater⟩

/-- An answer that was found once is found at once the next time. -/
theorem Replays.stays (h : work.Replays) {d d' : Draft} {a : α} (hrun : work.run d = (.ok a, d')) :
    work.run d' = (.ok a, d') :=
  h.again hrun d' (.refl d')

end DraftM

namespace Scope

open DraftM

variable {scope scope' : Scope} {d d' : Draft}

theorem recalls_statementAt (scope scope' : Scope) (i : Nat) :
    (scope.statementAt (.index i)).Recalls (scope'.statementAt (.index i)) :=
  ⟨Moves.grows (moves_statementAt scope i), fun h _ hlater =>
    run_statementAt_of_some scope' (hlater.statements i _ (statement?_of_run h))⟩

theorem recalls_literal (scope scope' : Scope) (v : Value) :
    (scope.literal .inline v).Recalls (scope'.literal .inline v) := by
  cases v <;> exact .pure _

/-! Nested queries are not compiled again, so the second scope need not be the first one. -/

mutual

theorem recalls_render (hdialect : scope'.dialect = scope.dialect) :
    (t : Tree) → (scope.render .inline t).Recalls (scope'.render .inline t)
  | .field i f => by
    refine ⟨Moves.grows (moves_render scope .inline _), fun h later hlater => ?_⟩
    rw [render] at h ⊢
    cases h
    change (Except.ok (Sql.plain (f.text later.query.tables)), later) = _
    rw [hlater.query.tables]
  | .value v => by
    rw [render, render]
    exact recalls_literal scope scope' v
  | .func name args => by
    rw [render, render]
    exact (recalls_renderAll hdialect args).bind fun _ => .pure _
  | .calc op left right => by
    rw [render, render]
    exact (recalls_render hdialect (left ())).bind fun _ => (recalls_render hdialect (right ())).bind fun _ => .pure _
  | .cmp op left right => by
    rw [render, render, hdialect]
    refine (recalls_render hdialect (left ())).bind fun _ => ?_
    split
    · exact .pure _
    · exact (recalls_render hdialect (right ())).bind fun _ => .pure _
  | .cond op args => by
    rw [render, render]
    refine (recalls_renderAll hdialect args).bind fun parts => ?_
    cases op.connect parts with
    | ok sql => exact .pure _
    | error e => exact .throw e
  | .sort expr direction => by
    rw [render, render]
    exact (recalls_render hdialect (expr ())).bind fun _ => .pure _
  | .summarise args => by
    rw [render, render]
    exact (recalls_renderAll hdialect args).bind fun _ => .pure _
  | .subquery index embedding => by
    rw [render, render]
    exact (recalls_statementAt scope scope' index).bind fun _ => .pure _
  | .unknown className => by
    rw [render, render]
    exact .throw _
  | .broken fault => by
    rw [render, render]
    exact .throw _

theorem recalls_renderAll (hdialect : scope'.dialect = scope.dialect) :
    (ts : List (Unit → Tree)) → (scope.renderAll .inline ts).Recalls (scope'.renderAll .inline ts)
  | [] => by
    rw [renderAll, renderAll]
    exact .pure _
  | t :: rest => by
    rw [renderAll, renderAll]
    exact (recalls_render hdialect (t ())).bind fun _ => (recalls_renderAll hdialect rest).bind fun _ => .pure _

end

theorem recalls_canonicalText (hdialect : scope'.dialect = scope.dialect) (t : Tree) :
    (scope.canonicalText t).Recalls (scope'.canonicalText t) :=
  (recalls_render hdialect t).bind fun _ => .pure _

theorem replays_canonicalText (scope : Scope) (t : Tree) : (scope.canonicalText t).Replays :=
  recalls_canonicalText rfl t

/-! ## Aliases -/

theorem null_of_not_hasValues {t : Tree} (h : (scope.hasValues t).run d = (.ok false, d')) {v : Value}
    (hv : .value v ∈ t.leaves) : v = .null := by
  rw [hasValues_eq_anyValues] at h
  generalize t.leaves = leaves at h hv
  induction leaves generalizing d with
  | nil => cases hv
  | cons leaf rest ih =>
    obtain ⟨found, d₁, hfound, h⟩ := run_bind_eq_ok_iff.mp h
    cases found with
    | cons => cases h
    | nil =>
      rcases List.mem_cons.mp hv with rfl | hv
      · cases v with
        | null => rfl
        | _ => cases hfound
      · exact ih h hv

theorem replays_leafValues (scope : Scope) (leaf : Leaf) : (scope.leafValues leaf).Replays := by
  cases leaf with
  | value v => cases v <;> exact .pure _
  | subquery i => exact (recalls_statementAt scope scope i).bind fun _ => .pure _
  | field | unknown => exact .pure _
  | broken fault => exact .throw _

theorem replays_hasValues (scope : Scope) (t : Tree) : (scope.hasValues t).Replays := by
  rw [hasValues_eq_anyValues]
  induction t.leaves with
  | nil => exact .pure _
  | cons leaf rest ih =>
    refine (replays_leafValues scope leaf).bind fun found => ?_
    cases found with
    | nil => exact ih
    | cons => exact .pure _

theorem run_aliasOf? {t : Tree} {text : String} (htext : (scope.canonicalText t).run d = (.ok text, d')) :
    (scope.aliasOf? t).run d = (.ok (d'.aliases.find? text), d') :=
  run_bind_eq_ok_iff.mpr ⟨text, d', htext, rfl⟩

theorem run_freshAlias {t : Tree} {text : String} (htext : (scope.canonicalText t).run d = (.ok text, d')) :
    (scope.freshAlias t).run d =
      match d'.aliases.assign scope.config text with
      | .error e => (.error (.aliasNumber e), d')
      | .ok (name, table) => (.ok name, { d' with aliases := table }) := by
  rw [freshAlias, run_bind, htext]
  dsimp only
  rw [run_bind, run_get]
  dsimp only
  cases d'.aliases.assign scope.config text <;> rfl

/-- An expression whose text has an alias is that alias, and any other is written out with a fresh one. -/
theorem run_renderAliased {t : Tree} {text : String} (hsimple : t.isSimple = .ok false)
    (htext : (scope.canonicalText t).run d = (.ok text, d')) :
    (scope.renderAliased t).run d =
      match d'.aliases.find? text, d'.aliases.assign scope.config text with
      | some name, _ => (.ok (Sql.plain name), d')
      | none, .error e => (.error (.aliasNumber e), d')
      | none, .ok (name, table) =>
        DraftM.run (do return (← scope.render .bound t) ++ Sql.plain (" AS " ++ name)) { d' with aliases := table } := by
  rw [renderAliased, Scope.isSimple, hsimple]
  change (scope.aliasOf? t >>= _).run d = _
  rw [run_bind, run_aliasOf? htext]
  dsimp only
  cases d'.aliases.find? text with
  | some name => rfl
  | none =>
    dsimp only
    rw [run_bind, run_freshAlias ((replays_canonicalText scope t).stays htext)]
    cases d'.aliases.assign scope.config text <;> rfl

theorem renderAliased_of_run {t : Tree} {text : String} {sql : Sql} (hsimple : t.isSimple = .ok false)
    (htext : (scope.canonicalText t).run d = (.ok text, d)) (h : (scope.renderAliased t).run d = (.ok sql, d')) :
    (∃ name, d.aliases.find? text = some name ∧ sql = Sql.plain name ∧ d' = d) ∨
      ∃ name inside, d.aliases.find? text = none ∧ name ∉ d.aliases.aliases ∧
        (scope.render .bound t).run { d with aliases := d.aliases.insert text name } = (.ok inside, d') ∧
        sql = inside ++ Sql.plain (" AS " ++ name) := by
  rw [run_renderAliased hsimple htext] at h
  cases hfind : d.aliases.find? text with
  | some name =>
    rw [hfind] at h
    cases h
    exact Or.inl ⟨name, rfl, rfl, rfl⟩
  | none =>
    rw [hfind] at h
    cases hassign : d.aliases.assign scope.config text with
    | error e => rw [hassign] at h; cases h
    | ok made =>
      obtain ⟨name, table⟩ := made
      obtain ⟨rfl, hnew⟩ := AliasTable.assign_eq_ok hassign
      rw [hassign] at h
      obtain ⟨inside, _, hinside, hlast⟩ := run_bind_eq_ok_iff.mp h
      cases hlast
      exact Or.inr ⟨name, inside, rfl, hnew, hinside, rfl⟩

/-! ## Arguments and terms

What is rendered for an argument of the grouping and for a term of the ordering depends on the draft at that point. It
is reached from the draft before by work that keeps a property `P`.
-/

/-- How an argument of the grouping is rendered, and the draft that this leaves. -/
inductive Groups (scope : Scope) (P : Draft → Prop) (t : Tree) : Sql → Draft → Prop where
  | simple {e d' : Draft} {sql : Sql} (hsimple : t.isSimple = .ok true) (he : P e)
    (hsql : (scope.render .bound t).run e = (.ok sql, d')) : scope.Groups P t sql d'
  | introduces {e d' : Draft} {text name : String} {sql : Sql} (hsimple : t.isSimple = .ok false) (he : P e)
    (htext : (scope.canonicalText t).run e = (.ok text, e)) (hnone : e.aliases.find? text = none)
    (hfresh : name ∉ e.aliases.aliases)
    (hsql : (scope.render .bound t).run { e with aliases := e.aliases.insert text name } = (.ok sql, d')) :
    scope.Groups P t (sql ++ Sql.plain (" AS " ++ name)) d'
  | bare {e : Draft} {text name : String} (hsimple : t.isSimple = .ok false) (he : P e)
    (htext : (scope.canonicalText t).run e = (.ok text, e)) (hname : e.aliases.find? text = some name)
    (hvalues : (scope.hasValues t).run e = (.ok false, e)) : scope.Groups P t (Sql.plain name) e
  | again {e d' : Draft} {text name : String} {sql : Sql} (hsimple : t.isSimple = .ok false) (he : P e)
    (htext : (scope.canonicalText t).run e = (.ok text, e)) (hname : e.aliases.find? text = some name)
    (hvalues : (scope.hasValues t).run e = (.ok true, e)) (hsql : (scope.render .bound t).run e = (.ok sql, d')) :
    scope.Groups P t sql d'

/-- How a term of the ordering is rendered, and the draft that this leaves. -/
inductive Orders (scope : Scope) (P : Draft → Prop) : Tree → Sql → Draft → Prop where
  | bare {e : Draft} {expr : Unit → Tree} {direction : Direction} {text name : String}
    (hsimple : (expr ()).isSimple = .ok false) (he : P e) (hvalues : (scope.hasValues (expr ())).run e = (.ok false, e))
    (htext : (scope.canonicalText (expr ())).run e = (.ok text, e)) (hname : e.aliases.find? text = some name) :
    scope.Orders P (.sort expr direction) (Sql.plain (name ++ " " ++ direction.text)) e
  | full {e d' : Draft} {t : Tree} {sql : Sql} (he : P e) (hsql : (scope.render .bound t).run e = (.ok sql, d'))
    (hother : ∀ expr direction, t = .sort expr direction → (expr ()).isSimple = .ok true ∨
      (scope.hasValues (expr ())).run e = (.ok true, e) ∨
      ∃ text, (scope.canonicalText (expr ())).run e = (.ok text, e) ∧ e.aliases.find? text = none) :
    scope.Orders P t sql d'

section

variable {P Q : Draft → Prop} {known : Nat → Prop} (hkeeps : scope.Invariant P Q known)

include hkeeps

theorem aliasOf?_of_run {t : Tree} {found : Option String} (ht : ∀ i, .subquery i ∈ t.leaves → known i) (hd : P d)
    (h : (scope.aliasOf? t).run d = (.ok found, d')) :
    P d' ∧ ∃ text, (scope.canonicalText t).run d' = (.ok text, d') ∧ d'.aliases.find? text = found := by
  refine ⟨(keeps_aliasOf? hkeeps t ht).of_ok hd h, ?_⟩
  obtain ⟨text, _, htext, hlast⟩ := run_bind_eq_ok_iff.mp h
  cases hlast
  exact ⟨text, (replays_canonicalText scope t).stays htext, rfl⟩

theorem hasValues_of_run {t : Tree} {valued : Bool} (ht : ∀ i, .subquery i ∈ t.leaves → known i) (hd : P d)
    (h : (scope.hasValues t).run d = (.ok valued, d')) :
    P d' ∧ d.Extends d' ∧ (scope.hasValues t).run d' = (.ok valued, d') :=
  ⟨(keeps_hasValues hkeeps t ht).of_ok hd h, (moves_hasValues scope t).of_run h, (replays_hasValues scope t).stays h⟩

theorem groups_of_run {ref : NodeRef} {sql : Sql}
    (ht : ∀ i, .subquery i ∈ (d.query.tree ref).leaves → known i) (hd : P d)
    (h : (scope.groupItem ref).run d = (.ok sql, d')) : scope.Groups P (d.query.tree ref) sql d' := by
  obtain ⟨_, _, htree, h⟩ := run_bind_eq_ok_iff.mp h
  cases htree
  generalize d.query.tree ref = t at h ht ⊢
  rw [Scope.isSimple] at h
  cases hsimple : t.isSimple with
  | error fault => rw [hsimple] at h; cases h
  | ok simple =>
    rw [hsimple] at h
    obtain ⟨_, _, hpure, h⟩ := run_bind_eq_ok_iff.mp h
    cases hpure
    cases simple with
    | true => exact .simple hsimple hd h
    | false =>
      obtain ⟨found, d₁, hfound, h⟩ := run_bind_eq_ok_iff.mp h
      obtain ⟨hd₁, text, htext, hfind⟩ := aliasOf?_of_run hkeeps ht hd hfound
      cases found with
      | none =>
        obtain ⟨name, hsome, -⟩ | ⟨name, inside, hnone, hfresh, hinside, rfl⟩ := renderAliased_of_run hsimple htext h
        · rw [hfind] at hsome
          cases hsome
        · exact .introduces hsimple hd₁ htext hnone hfresh hinside
      | some name =>
        obtain ⟨valued, d₂, hvalued, h⟩ := run_bind_eq_ok_iff.mp h
        obtain ⟨hd₂, hextends, hvalues⟩ := hasValues_of_run hkeeps ht hd₁ hvalued
        rw [← hextends.aliases] at hfind
        have htext₂ := (replays_canonicalText scope t).again htext d₂ hextends.toGrows
        cases valued with
        | true => exact .again hsimple hd₂ htext₂ hfind hvalues h
        | false =>
          obtain ⟨_, hsome, rfl, rfl⟩ | ⟨_, _, hnone, -⟩ := renderAliased_of_run hsimple htext₂ h
          · exact .bare hsimple hd₂ htext₂ hsome hvalues
          · rw [hfind] at hnone
            cases hnone

theorem orders_of_run {ref : NodeRef} {sql : Sql}
    (ht : ∀ i, .subquery i ∈ (d.query.tree ref).leaves → known i) (hd : P d)
    (h : (scope.orderItem ref).run d = (.ok sql, d')) : scope.Orders P (d.query.tree ref) sql d' := by
  obtain ⟨_, _, htree, h⟩ := run_bind_eq_ok_iff.mp h
  cases htree
  generalize d.query.tree ref = t at h ht ⊢
  cases t with
  | sort expr direction =>
    have hexpr : ∀ i, .subquery i ∈ (expr ()).leaves → known i := ht
    dsimp only at h
    rw [Scope.isSimple] at h
    cases hsimple : (expr ()).isSimple with
    | error fault => rw [hsimple] at h; cases h
    | ok simple =>
      rw [hsimple] at h
      obtain ⟨_, _, hpure, h⟩ := run_bind_eq_ok_iff.mp h
      cases hpure
      cases simple with
      | true =>
        refine .full hd h fun expr' _ heq => Or.inl ?_
        cases heq
        exact hsimple
      | false =>
        obtain ⟨valued, d₁, hvalued, h⟩ := run_bind_eq_ok_iff.mp h
        obtain ⟨hd₁, -, hvalues⟩ := hasValues_of_run hkeeps hexpr hd hvalued
        cases valued with
        | true =>
          refine .full hd₁ h fun expr' _ heq => Or.inr (Or.inl ?_)
          cases heq
          exact hvalues
        | false =>
          obtain ⟨found, d₂, hfound, h⟩ := run_bind_eq_ok_iff.mp h
          have hextends := (moves_aliasOf? scope (expr ())).of_run hfound
          obtain ⟨hd₂, text, htext, hfind⟩ := aliasOf?_of_run hkeeps hexpr hd₁ hfound
          have hvalues₂ := (replays_hasValues scope (expr ())).again hvalues d₂ hextends.toGrows
          cases found with
          | some name =>
            cases h
            exact .bare hsimple hd₂ hvalues₂ htext hfind
          | none =>
            refine .full hd₂ h fun expr' _ heq => Or.inr (Or.inr ?_)
            cases heq
            exact ⟨text, htext, hfind⟩
  | _ => exact .full hd h fun _ _ heq => by cases heq

end

end Scope

end ArenaSql
