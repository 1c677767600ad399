import ArenaSql.Proofs.OneQuery

/-!
# Aliases given again

Whatever is asked of a query that has an alias for a text, and however the query is edited, the alias stays as long as no
fresh one is asked for an expression with that text. If one is, the text gets another alias, and the old one is lost. So
what is looked up is the alias that was given last.
-/

namespace ArenaSql

open Relation

/-! ## Tables -/

namespace AliasTable

variable {config : Config} {t t' : AliasTable} {text given : String}

/-- A text that has an alias keeps it while aliases are given to texts that have none. -/
theorem Assigns.find?_eq (h : Assigns config false t t') (hfind : t.find? text = some given) :
    t'.find? text = some given := by
  obtain ⟨other, name, hnone, hassign⟩ := h
  obtain ⟨rfl, -⟩ := assign_eq_ok hassign
  rw [find?_insert_of_ne]
  · exact hfind
  · rintro rfl
    rw [hnone rfl] at hfind
    cases hfind

theorem find?_of_assigns (h : ReflTransGen (Assigns config false) t t') (hfind : t.find? text = some given) :
    t'.find? text = some given := by
  induction h with
  | refl => exact hfind
  | tail _ hstep ih => exact hstep.find?_eq ih

end AliasTable

namespace Session

/-! ## What is asked -/

/-- The answer of a step, if it succeeds. -/
def answer? (s : Session) (name : String) (step : Step) : Option Value :=
  (s.step name step).1.toOption

/-- The alias that a text of a query has. -/
def aliasFor? (s : Session) (name text : String) : Option String :=
  (s.draft? name).bind (·.aliases.find? text)

/-- The alias that a step gives to the text, if it asks for a fresh one. -/
def renewal? (s : Session) (name text : String) : String × Step → Option Value
  | (other, .freshAlias ref) =>
    if other = name ∧ s.answer? name (.canonicalText ref) = some (.str text) then s.answer? name (.freshAlias ref)
    else none
  | _ => none

/-- The last alias that some steps give to the text where a fresh one is asked for. -/
def lastRenewal? (name text : String) : Session → List (String × Step) → Option Value
  | _, [] => none
  | s, entry :: rest => (lastRenewal? name text (s.step entry.1 entry.2).2 rest).or (s.renewal? name text entry)

variable {s : Session} {name text given : String} {ref : NodeRef} {d d' : Draft}

theorem answer?_canonicalText_eq_some_iff (hd : s.draft? name = some d) :
    s.answer? name (.canonicalText ref) = some (.str text) ↔
      ∃ d', ((s.context.scopeWith s.context d.query).canonicalText (d.query.tree ref)).run d = (.ok text, d') := by
  rw [answer?, step, Step.run, SessionM.run_onTree hd ref Scope.canonicalText .str]
  rcases ((s.context.scopeWith s.context d.query).canonicalText (d.query.tree ref)).run d with ⟨_ | _, _⟩ <;>
    simp [Except.map, Except.mapError, Except.toOption]

/-- What is looked up stands in the table. -/
theorem answer?_aliasOf (hd : s.draft? name = some d) (htext : s.answer? name (.canonicalText ref) = some (.str text)) :
    s.answer? name (.aliasOf ref) = some (.ofOption .str (d.aliases.find? text)) := by
  obtain ⟨d', hrun⟩ := (answer?_canonicalText_eq_some_iff hd).mp htext
  have haliases := ((Scope.moves_canonicalText _ _).of_run hrun).aliases
  rw [answer?, step, Step.run, SessionM.run_onTree hd ref Scope.aliasOf?, Scope.run_aliasOf? hrun, haliases]
  rfl

/-! ## One step -/

theorem renewal?_eq_some {entry : String × Step} {answer : Value} (h : s.renewal? name text entry = some answer) :
    ∃ ref, entry = (name, .freshAlias ref) ∧ s.answer? name (.canonicalText ref) = some (.str text) ∧
      s.answer? name (.freshAlias ref) = some answer := by
  unfold renewal? at h
  split at h
  · rename_i other ref
    split at h
    · rename_i hrenews
      exact ⟨ref, by rw [hrenews.1], hrenews.2, h⟩
    · cases h
  · cases h

/-- A step that asks for no fresh alias of an expression of the query leaves its aliases as they are. -/
theorem aliasFor?_step_of_not_renews {entry : String × Step} (h : s.aliasFor? name text = some given)
    (hentry : (entry.1 == name && entry.2.renews) = false) :
    (s.step entry.1 entry.2).2.aliasFor? name text = some given := by
  obtain ⟨d, hd, hfind⟩ := Option.bind_eq_some_iff.mp h
  have hedits := s.edits_step entry.1 entry.2
  obtain ⟨d', hd'⟩ := Option.isSome_iff_exists.mp ((Edit.isSome_draft? hedits name).trans (by rw [hd]; rfl))
  obtain ⟨d₀, hd₀, hassigns⟩ := (Edit.assigns hedits).2 name d' hd'
  cases hd₀.symm.trans hd
  rw [hentry] at hassigns
  exact Option.bind_eq_some_iff.mpr ⟨d', hd', AliasTable.find?_of_assigns hassigns hfind⟩

theorem aliasFor?_withDraft (hd : s.draft? name = some d) (d' : Draft) :
    (s.withDraft name d').aliasFor? name text = d'.aliases.find? text := by
  rw [aliasFor?, draft?_withDraft_self hd, Option.bind_some]

/-- A fresh alias changes the alias of a text only if it is asked for an expression with this text. -/
theorem aliasFor?_step_freshAlias (h : s.aliasFor? name text = some given) (ref : NodeRef) :
    ∃ now, (s.step name (.freshAlias ref)).2.aliasFor? name text = some now ∧
      (s.renewal? name text (name, .freshAlias ref) = none ∧ now = given ∨
        s.renewal? name text (name, .freshAlias ref) = some (.str now) ∧ now ≠ given) := by
  obtain ⟨d, hd, hfind⟩ := Option.bind_eq_some_iff.mp h
  rcases hread : ((s.context.scopeWith s.context d.query).canonicalText (d.query.tree ref)).run d with ⟨e | found, d'⟩
  · -- an expression without a text gets no alias
    have hnone : s.renewal? name text (name, .freshAlias ref) = none := by
      refine if_neg fun hboth => ?_
      obtain ⟨_, htext⟩ := (answer?_canonicalText_eq_some_iff hd).mp hboth.2
      cases hread.symm.trans htext
    have haliases := ((Scope.moves_canonicalText _ _).of_run hread).aliases
    refine ⟨given, ?_, Or.inl ⟨hnone, rfl⟩⟩
    rw [step, Step.run, SessionM.run_onTree hd ref Scope.freshAlias .str, Scope.freshAlias, DraftM.run_bind, hread]
    dsimp only
    rw [aliasFor?_withDraft hd, haliases, hfind]
  · have haliases := ((Scope.moves_canonicalText _ _).of_run hread).aliases
    have hstep := step_freshAlias_eq hd hread
    have hanswer : s.answer? name (.canonicalText ref) = some (.str found) :=
      (answer?_canonicalText_eq_some_iff hd).mpr ⟨d', hread⟩
    rw [renewal?, hanswer, answer?, hstep]
    cases hassign : d.aliases.assign s.context.config found with
    | error e =>
      refine ⟨given, ?_, Or.inl ⟨ite_self none, rfl⟩⟩
      dsimp only
      rw [aliasFor?_withDraft hd, haliases, hfind]
    | ok made =>
      obtain ⟨new, table⟩ := made
      obtain ⟨rfl, hnew⟩ := AliasTable.assign_eq_ok hassign
      dsimp only
      rw [aliasFor?_withDraft hd]
      by_cases hfound : found = text
      · subst hfound
        refine ⟨new, AliasTable.find?_insert_self .., Or.inr ⟨if_pos ⟨rfl, rfl⟩, ?_⟩⟩
        rintro rfl
        exact hnew (AliasTable.mem_aliases_of_find? hfind)
      · refine ⟨given, ?_, Or.inl ⟨if_neg (by simp [hfound]), rfl⟩⟩
        rw [AliasTable.find?_insert_of_ne _ _ (Ne.symm hfound), hfind]

/-- A text that has an alias keeps it in a step, or is given another one because that is asked for. -/
theorem aliasFor?_step (h : s.aliasFor? name text = some given) (entry : String × Step) :
    ∃ now, (s.step entry.1 entry.2).2.aliasFor? name text = some now ∧
      (s.renewal? name text entry = none ∧ now = given ∨ s.renewal? name text entry = some (.str now) ∧ now ≠ given) := by
  by_cases hentry : ∃ ref, entry = (name, .freshAlias ref)
  · obtain ⟨ref, rfl⟩ := hentry
    exact aliasFor?_step_freshAlias h ref
  · rw [not_exists] at hentry
    have hnone : s.renewal? name text entry = none := by
      rw [Option.eq_none_iff_forall_ne_some]
      intro answer hanswer
      obtain ⟨ref, heq, -⟩ := renewal?_eq_some hanswer
      exact hentry ref heq
    refine ⟨given, aliasFor?_step_of_not_renews h ?_, Or.inl ⟨hnone, rfl⟩⟩
    obtain ⟨other, step⟩ := entry
    cases step with
    | freshAlias ref =>
      have hother : other ≠ name := fun heq => hentry ref (by rw [heq])
      simp [hother]
    | _ => exact Bool.and_false _

/-- The text of an expression is still the same when it was given a fresh alias. -/
theorem answer?_canonicalText_step_freshAlias (hd : s.draft? name = some d)
    (htext : s.answer? name (.canonicalText ref) = some (.str text)) :
    (s.step name (.freshAlias ref)).2.answer? name (.canonicalText ref) = some (.str text) := by
  obtain ⟨d', hrun⟩ := (answer?_canonicalText_eq_some_iff hd).mp htext
  have hextends := (Scope.moves_canonicalText _ _).of_run hrun
  obtain ⟨table, hstep⟩ : ∃ table, (s.step name (.freshAlias ref)).2 = s.withDraft name { d' with aliases := table } := by
    rw [step_freshAlias_eq hd hrun]
    cases d.aliases.assign s.context.config text with
    | error e => exact ⟨d'.aliases, rfl⟩
    | ok made => exact ⟨made.2, rfl⟩
  rw [hstep, answer?_canonicalText_eq_some_iff (draft?_withDraft_self hd _)]
  refine ⟨{ d' with aliases := table }, ?_⟩
  dsimp only
  rw [hextends.query.tree]
  exact (Scope.recalls_canonicalText (by rfl) _).again hrun _ (Scope.grows_aliases table (.refl d'))

/-! ## Many steps -/

/-- After some steps a text has the last alias that was given because a fresh one was asked for, or the one that it had. -/
theorem aliasFor?_after (h : s.aliasFor? name text = some given) (steps : List (String × Step)) :
    ∃ now, (s.after steps).aliasFor? name text = some now ∧
      (s.lastRenewal? name text steps).getD (.str given) = .str now := by
  induction steps generalizing s given with
  | nil => exact ⟨given, h, rfl⟩
  | cons entry rest ih =>
    obtain ⟨next, hnext, hstep⟩ := aliasFor?_step h entry
    obtain ⟨now, hnow, hlast⟩ := ih hnext
    refine ⟨now, hnow, ?_⟩
    rw [lastRenewal?]
    cases hrest : lastRenewal? name text (s.step entry.1 entry.2).2 rest with
    | some answer =>
      rw [hrest] at hlast
      exact hlast
    | none =>
      rw [hrest] at hlast
      rw [Option.none_or, ← hlast]
      rcases hstep with ⟨hnone, rfl⟩ | ⟨hsome, -⟩
      · rw [hnone]
      · rw [hsome]
        rfl

theorem answer?_aliasOf_after (h : s.aliasFor? name text = some given) (steps : List (String × Step))
    (htext : (s.after steps).answer? name (.canonicalText ref) = some (.str text)) :
    (s.after steps).answer? name (.aliasOf ref) = some ((s.lastRenewal? name text steps).getD (.str given)) := by
  obtain ⟨now, hnow, hlast⟩ := aliasFor?_after h steps
  obtain ⟨d, hd, hfind⟩ := Option.bind_eq_some_iff.mp hnow
  rw [answer?_aliasOf hd htext, hfind, hlast]
  rfl

theorem lastRenewal?_take {steps : List (String × Step)} (h : s.lastRenewal? name text steps = none) (k : Nat) :
    s.lastRenewal? name text (steps.take k) = none := by
  induction steps generalizing s k with
  | nil => rwa [List.take_nil]
  | cons entry rest ih =>
    cases k with
    | zero => rfl
    | succ k =>
      rw [lastRenewal?, Option.or_eq_none_iff] at h
      rw [List.take_succ_cons, lastRenewal?, ih h.1 k, h.2]
      rfl

/-- If all that is looked up is the alias that was there, no fresh one was given. -/
theorem lastRenewal?_eq_none (h : s.aliasFor? name text = some given) {steps : List (String × Step)}
    (hstays : ∀ k ref, (s.after (steps.take k)).answer? name (.canonicalText ref) = some (.str text) →
      (s.after (steps.take k)).answer? name (.aliasOf ref) = some (.str given)) :
    s.lastRenewal? name text steps = none := by
  induction steps generalizing s with
  | nil => rfl
  | cons entry rest ih =>
    obtain ⟨now, hnow, hstep⟩ := aliasFor?_step h entry
    rw [lastRenewal?, Option.or_eq_none_iff]
    rcases hstep with ⟨hnone, rfl⟩ | ⟨hsome, hother⟩
    · exact ⟨ih hnow fun k => hstays (k + 1), hnone⟩
    · -- the expression has the other alias right after it was given
      obtain ⟨ref, rfl, htext, -⟩ := renewal?_eq_some hsome
      obtain ⟨d, hd, -⟩ := Option.bind_eq_some_iff.mp h
      obtain ⟨d', hd', hfind⟩ := Option.bind_eq_some_iff.mp hnow
      have htext' := answer?_canonicalText_step_freshAlias hd htext
      have hlookup := hstays 1 ref htext'
      rw [List.take_succ_cons, List.take_zero, after, after, answer?_aliasOf hd' htext', hfind] at hlookup
      cases hlookup
      exact absurd rfl hother

/-- Let a text of a query have an alias. After any steps, what is looked up for an expression with this text is the last
alias that was given because a fresh one was asked for an expression with this text, and the alias from the beginning if
there was no such step. So all that is looked up is the alias from the beginning exactly if there is no such step. -/
theorem aliasOf_lastGiven (h : s.aliasFor? name text = some given) (steps : List (String × Step)) :
    (∀ ref, (s.after steps).answer? name (.canonicalText ref) = some (.str text) →
        (s.after steps).answer? name (.aliasOf ref) = some ((s.lastRenewal? name text steps).getD (.str given))) ∧
      ((∀ k ref, (s.after (steps.take k)).answer? name (.canonicalText ref) = some (.str text) →
          (s.after (steps.take k)).answer? name (.aliasOf ref) = some (.str given)) ↔
        s.lastRenewal? name text steps = none) := by
  refine ⟨fun ref => answer?_aliasOf_after h steps, lastRenewal?_eq_none h, fun hnone k ref htext => ?_⟩
  rw [answer?_aliasOf_after h (steps.take k) htext, lastRenewal?_take hnone k]
  rfl

/-- Two calls with the same text, and a sum. -/
def tallies : Session where
  registry := .standard
  context := { dialect := .generic, schema := { tables := [] }, config := {} }
  drafts := [
    ("main", { query :=
      { nodes := [{ expr := .field { name := .text "x" } }, { expr := .func "count" [.index 0] },
          { expr := .field { name := .text "x" } }, { expr := .func "count" [.index 2] },
          { expr := .calc .add (.index 1) (.index 3) }]
        tables := { table := "orders" } } })]

/-- The calls keep their alias when the sum gets a fresh one. When the second call gets one, so does the first. -/
theorem aliasOf_lastGiven_tallies :
    let s := tallies.after [("main", .aliased (.index 1))]
    let steps := [("main", Step.freshAlias (.index 4)), ("main", .aliased (.index 3)), ("main", .freshAlias (.index 3))]
    s.aliasFor? "main" "count(x)" = some "count_x_alias" ∧
      (∀ k ref, (s.after ((steps.take 2).take k)).answer? "main" (.canonicalText ref) = some (.str "count(x)") →
        (s.after ((steps.take 2).take k)).answer? "main" (.aliasOf ref) = some (.str "count_x_alias")) ∧
      (s.after steps).answer? "main" (.aliasOf (.index 1)) = some (.str "count_x_alias_1") := by
  intro s steps
  have hgiven : s.aliasFor? "main" "count(x)" = some "count_x_alias" := by decide +kernel
  have hnone : s.lastRenewal? "main" "count(x)" (steps.take 2) = none := by decide +kernel
  have hsome : s.lastRenewal? "main" "count(x)" steps = some (.str "count_x_alias_1") := by decide +kernel
  have hlast := (aliasOf_lastGiven hgiven steps).1 (.index 1) (by decide +kernel)
  rw [hsome] at hlast
  exact ⟨hgiven, (aliasOf_lastGiven hgiven (steps.take 2)).2.mpr hnone, hlast⟩

/-- The alias that was given first is not looked up any more. -/
theorem aliasOf_tallies_changes :
    let s := tallies.after [("main", .aliased (.index 1))]
    s.aliasFor? "main" "count(x)" = some "count_x_alias" ∧
      s.answer? "main" (.aliasOf (.index 1)) = some (.str "count_x_alias") ∧
      (s.after [("main", .freshAlias (.index 3))]).answer? "main" (.canonicalText (.index 1)) = some (.str "count(x)") ∧
      (s.after [("main", .freshAlias (.index 3))]).answer? "main" (.aliasOf (.index 1)) =
        some (.str "count_x_alias_1") := by
  decide +kernel

end Session

end ArenaSql
