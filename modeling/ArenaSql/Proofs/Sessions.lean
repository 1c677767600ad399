import ArenaSql.Proofs.Aliasing
import ArenaSql.Session.Step

/-!
# What the steps of a session do

A session is known by the drafts and the compilers that stand under its names. All that a step can do is to put another
draft of its own query, whose aliases are the old ones with some more given, and another compiler that it names. So steps
neither bring in queries nor take them away, and a step leaves every compiler as it is that it does not name. A step
that compiles a query does what the compiler does: it has the answer of the compiler, and puts the query and the compiler
as they are afterwards.
-/

namespace ArenaSql

open Relation

/-! ## What stands under a name -/

namespace Session

def draft? (s : Session) (name : String) : Option Draft :=
  (s.drafts.find? (·.1 == name)).map (·.2)

/-- The compiler with a name. One that was not asked for yet is new. -/
def compilerAt (s : Session) (c : String) : Compiler :=
  ((s.compilers.find? (·.1 == c)).map (·.2)).getD (Compiler.new s.context)

def withDraft (s : Session) (name : String) (draft : Draft) : Session :=
  { s with drafts := s.drafts.map fun (n, d) => if n == name then (n, draft) else (n, d) }

def withCompiler (s : Session) (c : String) (compiler : Compiler) : Session :=
  { s with compilers := (c, compiler) :: s.compilers.filter (·.1 != c) }

variable (s : Session)

theorem draft?_withDraft (name other : String) (draft : Draft) :
    (s.withDraft name draft).draft? other =
      (s.draft? other).map fun d => if other = name then draft else d := by
  have hfind : ∀ drafts : List (String × Draft),
      ((drafts.map fun (n, d) => if n == name then (n, draft) else (n, d)).find? (·.1 == other)).map (·.2) =
        ((drafts.find? (·.1 == other)).map (·.2)).map fun d => if other = name then draft else d := by
    intro drafts
    induction drafts with
    | nil => rfl
    | cons entry rest ih =>
      obtain ⟨n, d⟩ := entry
      by_cases hname : n = name <;> by_cases hother : n = other <;> simp_all
  exact hfind s.drafts

theorem draft?_withDraft_self {s : Session} {name : String} {draft : Draft} (h : s.draft? name = some draft)
    (draft' : Draft) : (s.withDraft name draft').draft? name = some draft' := by
  rw [draft?_withDraft, h, Option.map_some, if_pos rfl]

theorem draft?_withCompiler (c name : String) (compiler : Compiler) :
    (s.withCompiler c compiler).draft? name = s.draft? name :=
  rfl

theorem compilerAt_withCompiler (c : String) (compiler : Compiler) :
    (s.withCompiler c compiler).compilerAt c = compiler := by
  simp [compilerAt, withCompiler]

theorem compilerAt_withCompiler_of_ne {c other : String} (h : other ≠ c) (compiler : Compiler) :
    (s.withCompiler other compiler).compilerAt c = s.compilerAt c := by
  have hfind : (s.compilers.filter (·.1 != other)).find? (·.1 == c) = s.compilers.find? (·.1 == c) := by
    rw [List.find?_filter]
    refine congrArg (s.compilers.find? ·) (funext fun entry => ?_)
    by_cases hentry : entry.1 = c
    · simp [hentry, Ne.symm h]
    · simp [hentry]
  rw [compilerAt, withCompiler, List.find?_cons_of_neg (by simp [h]), hfind]
  rfl

end Session

/-! ## What a step can do -/

/-- The step puts another compiler in the place of the one with the name. -/
def Step.remakes (c : String) : Step → Bool
  | .newCompiler compiler .. => compiler == c
  | _ => false

/-- The step asks for a fresh alias also where there is one. -/
def Step.renews : Step → Bool
  | .freshAlias _ => true
  | _ => false

/-- What a step on the query with the name does to a session, one thing at a time: the draft of the query gives way to
another, in which texts may have been given aliases, or a compiler that the step names gives way to another. -/
inductive Session.Edit (name : String) (step : Step) : Session → Session → Prop where
  | draft {s : Session} {draft draft' : Draft} (hdraft : s.draft? name = some draft)
    (haliases : draft.Assigns s.context.config step.renews draft') : Edit name step s (s.withDraft name draft')
  | compiler {s : Session} {c : String} (compiler : Compiler) (hnamed : step = .compile c ∨ step.remakes c) :
    Edit name step s (s.withCompiler c compiler)

namespace SessionM

variable {α β : Type} {name : String} {step : Step} {work : SessionM α} {next : α → SessionM β}

/-- A failure ends the work and keeps the session. -/
theorem run_bind (work : SessionM α) (next : α → SessionM β) (s : Session) :
    (work >>= next).run s =
      match work.run s with
      | (.ok a, s') => (next a).run s'
      | (.error e, s') => (.error e, s') := by
  change (match work.run s with | (result, s') => ExceptT.bindCont next result s') = _
  rcases work.run s with ⟨_ | _, s'⟩ <;> rfl

theorem run_get (s : Session) : (get : SessionM Session).run s = (.ok s, s) := rfl

theorem run_draft (name : String) (s : Session) :
    (draft name).run s =
      match s.draft? name with
      | none => (.error (.unknownQuery name), s)
      | some draft => (.ok draft, s) := by
  rw [draft, run_bind, run_get, Session.draft?]
  dsimp only
  cases s.drafts.find? (·.1 == name) <;> rfl

theorem run_compiler (c : String) (s : Session) : (compiler c).run s = (.ok (s.compilerAt c), s) := by
  rw [compiler, run_bind, run_get, Session.compilerAt]
  dsimp only
  cases s.compilers.find? (·.1 == c) <;> rfl

/-- Work on a draft puts the draft that it leaves, also if it fails. -/
theorem run_onDraft (name : String) (work : Scope → DraftM α) (s : Session) :
    (onDraft name work).run s =
      match s.draft? name with
      | none => (.error (.unknownQuery name), s)
      | some draft =>
        let (result, draft) := (work (s.context.scopeWith s.context draft.query)).run draft
        (result.mapError .compile, s.withDraft name draft) := by
  rw [onDraft, run_bind, run_draft]
  cases s.draft? name with
  | none => rfl
  | some draft =>
    dsimp only
    rw [run_bind, run_get]
    dsimp only
    rcases (work (s.context.scopeWith s.context draft.query)).run draft with ⟨_ | _, draft'⟩ <;> rfl

theorem config_scopeWith (context inner : Context) (q : Query) : (context.scopeWith inner q).config = context.config :=
  rfl

/-- What is asked about an expression is answered in the draft, and the draft stays as the answer leaves it. -/
theorem run_onTree {s : Session} {name : String} {draft : Draft} (hdraft : s.draft? name = some draft) (ref : NodeRef)
    (work : Scope → Tree → DraftM α) (answer : α → Value) :
    (onDraft name fun scope => do return answer (← work scope (← DraftM.tree ref))).run s =
      let (result, draft') := (work (s.context.scopeWith s.context draft.query) (draft.query.tree ref)).run draft
      ((result.map answer).mapError .compile, s.withDraft name draft') := by
  rw [run_onDraft, hdraft]
  dsimp only
  rw [DraftM.run_bind, DraftM.tree, DraftM.run_bind, DraftM.run_get]
  dsimp only
  rw [DraftM.run_pure]
  dsimp only
  rw [DraftM.run_bind]
  rcases (work (s.context.scopeWith s.context draft.query) (draft.query.tree ref)).run draft with ⟨_ | a, draft'⟩ <;> rfl

theorem run_compileWith (name : String) (c : Compiler) (s : Session) :
    (compileWith name c).run s =
      match s.draft? name with
      | none => (.error (.unknownQuery name), s)
      | some draft =>
        let (result, query, c) := c.compile name draft.query
        (.ok (result, c), s.withDraft name { draft with query := query }) := by
  rw [compileWith, run_bind, run_draft]
  cases s.draft? name with
  | none => rfl
  | some draft => rfl

/-- The work does to a session only what the step may do. -/
def Edits (name : String) (step : Step) (work : SessionM α) : Prop :=
  ∀ s : Session, ReflTransGen (Session.Edit name step) s (work.run s).2

theorem Edits.pure (a : α) : (pure a : SessionM α).Edits name step :=
  fun _ => .refl

theorem Edits.throw (e : Failure) : (throw e : SessionM α).Edits name step :=
  fun _ => .refl

theorem Edits.get : (get : SessionM Session).Edits name step :=
  fun _ => .refl

theorem Edits.bind (h : work.Edits name step) (hnext : ∀ a, (next a).Edits name step) :
    (work >>= next).Edits name step := by
  intro s
  have hfirst := h s
  rw [run_bind]
  rcases hrun : work.run s with ⟨_ | a, s'⟩
  · rwa [hrun] at hfirst
  · rw [hrun] at hfirst
    exact hfirst.trans (hnext a s')

theorem edits_lift (result : Except Failure α) : (lift result).Edits name step := by
  cases result with
  | ok a => exact .pure a
  | error e => exact .throw e

theorem edits_liftCompile (result : Except CompileError α) : (liftCompile result).Edits name step := by
  cases result with
  | ok a => exact .pure a
  | error e => exact .throw _

theorem edits_draft (other : String) : (draft other).Edits name step := by
  intro s
  rw [run_draft]
  cases s.draft? other <;> exact .refl

theorem edits_onDraft {work : Scope → DraftM α}
    (h : ∀ scope, (work scope).Moves (Draft.Assigns scope.config step.renews)) :
    (onDraft name work).Edits name step := by
  intro s
  rw [run_onDraft]
  cases hdraft : s.draft? name with
  | none => exact .refl
  | some draft => exact .single (.draft hdraft (h (s.context.scopeWith s.context draft.query) draft))

theorem edits_onQuery (work : Query → Query) : (onQuery name work).Edits name step :=
  edits_onDraft fun _ _ => .refl

theorem edits_query (other : String) : (query other).Edits name step :=
  (edits_draft other).bind fun _ => .pure _

theorem edits_locate (other : String) (ref : NodeRef) : (locate other ref).Edits name step := by
  refine (edits_query other).bind fun q => ?_
  cases locate? q.nodes ref with
  | none => exact .throw _
  | some found => exact .pure _

theorem edits_locateFromEnd (other : String) (ref : NodeRef) : (locateFromEnd other ref).Edits name step :=
  (edits_query other).bind fun _ => edits_locate other _

theorem edits_fieldNodes (other : String) (ref : NodeRef) : (fieldNodes other ref).Edits name step := by
  refine (edits_query other).bind fun q => ?_
  rcases (q.tree ref).fields with ⟨indices, _ | e⟩
  · exact .pure _
  · exact .throw _

theorem edits_contextFor (config : Config) : (contextFor config).Edits name step :=
  Edits.get.bind fun _ => edits_liftCompile _

theorem edits_compiler (c : String) : (compiler c).Edits name step := by
  intro s
  rw [run_compiler]

theorem edits_compileWith (compiler : Compiler) : (compileWith name compiler).Edits name step := by
  intro s
  rw [run_compileWith]
  cases hdraft : s.draft? name with
  | none => exact .refl
  | some draft => exact .single (.draft hdraft .refl)

theorem edits_putCompiler {c : String} (h : step = .compile c ∨ step.remakes c) (compiler : Compiler) :
    (putCompiler c compiler).Edits name step :=
  fun _ => .single (.compiler compiler h)

end SessionM

/-! ## Steps -/

open SessionM

section

open DraftM Scope

/-- A clause gives aliases only to texts that have none. -/
theorem ClauseName.assigns_run (scope : Scope) (clause : ClauseName) :
    (clause.run scope).Moves (Draft.Assigns scope.config false) := by
  cases clause with
  | select => exact (Moves.assigns (moves_selectClause scope)).bind fun _ => .pure _
  | sources => exact Moves.bind (fun d => .refl) fun _ => .pure _
  | filter => exact (Moves.assigns (moves_whereClause scope)).bind fun _ => .pure _
  | groupBy => exact (assigns_groupByClause scope).bind fun _ => .pure _
  | having => exact (Moves.assigns (moves_havingClause scope)).bind fun _ => .pure _
  | orderBy => exact (Moves.assigns (moves_orderByClause scope)).bind fun _ => .pure _
  | limit => exact Moves.bind (fun d => .refl) fun _ => .pure _
  | countLimit => exact moves_get.bind fun _ => .pure _

theorem Step.edits_run (name : String) (step : Step) : (step.run name).Edits name step := by
  cases step with
  | add document =>
    refine (edits_lift _).bind fun node => (edits_query name).bind fun q => ?_
    exact (edits_onQuery _).bind fun _ => .pure _
  | addBare aliasName =>
    refine (edits_lift _).bind fun aliasName => (edits_query name).bind fun q => ?_
    exact (edits_onQuery _).bind fun _ => .pure _
  | set part value =>
    refine (edits_query name).bind fun q => ?_
    cases q.assign? part value with
    | none => exact .throw _
    | some changed => exact (edits_onQuery _).bind fun _ => .pure _
  | setNode ref part value =>
    refine (edits_locateFromEnd name ref).bind fun (index, found) => ?_
    dsimp only
    cases found.assign? part value with
    | none => exact .throw _
    | some changed => exact (edits_onQuery _).bind fun _ => .pure _
  | setAlias given => exact (edits_onQuery _).bind fun _ => (edits_query name).bind fun _ => .pure _
  | node ref | children ref => exact (edits_locate name ref).bind fun _ => .pure _
  | reverse ref =>
    refine (edits_locate name ref).bind fun _ => (edits_onQuery _).bind fun _ => ?_
    refine (edits_locate name ref).bind fun found => ?_
    cases found.2.expr <;> exact .pure _
  | option key =>
    cases key with
    | str key => exact (edits_query name).bind fun _ => .pure _
    | _ => exact .pure _
  | qualifier | state => exact (edits_query name).bind fun _ => .pure _
  | hasJoin lookup =>
    cases lookup with
    | str lookup => exact (edits_query name).bind fun _ => .pure _
    | _ => exact .pure _
  | fields ref | fieldNames ref => exact (edits_fieldNodes name ref).bind fun _ => .pure _
  | settleIndex =>
    refine (edits_onDraft fun _ => assigns_onQuery _ _ _).bind fun _ => (edits_query name).bind fun _ => .pure _
  | joinFilter =>
    refine (edits_onDraft fun _ => moves_get.bind fun _ => assigns_onQuery _ _ _).bind fun _ => ?_
    exact (edits_query name).bind fun _ => .pure _
  | resolveAt ref =>
    refine (edits_locateFromEnd name ref).bind fun found => (edits_onDraft fun scope => ?_).bind fun _ => ?_
    · refine moves_get.bind fun d => ?_
      cases d.query.resolveAt scope.schema scope.config.joinType found.1 with
      | ok query => exact fun _ => .refl
      | error e => exact .throw e
    · exact (edits_locate name _).bind fun _ => (edits_query name).bind fun _ => .pure _
  | resolveField field =>
    refine (edits_lift _).bind fun (aliasName, field) => Edits.get.bind fun _ => (edits_query name).bind fun _ => ?_
    refine (edits_liftCompile _).bind fun (field, tables) => (edits_onQuery _).bind fun _ => ?_
    exact (edits_query name).bind fun _ => .pure _
  | render ref =>
    rw [run]
    exact edits_onDraft fun scope => (moves_tree ref).bind fun t =>
      (Moves.assigns (moves_render scope .bound t)).bind fun _ => .pure _
  | canonicalText ref =>
    rw [run]
    exact edits_onDraft fun scope => (moves_tree ref).bind fun t =>
      (Moves.assigns (moves_canonicalText scope t)).bind fun _ => .pure _
  | isSimple ref =>
    rw [run]
    exact edits_onDraft fun _ => (moves_tree ref).bind fun t => (moves_isSimple t).bind fun _ => .pure _
  | hasValues ref =>
    rw [run]
    exact edits_onDraft fun scope => (moves_tree ref).bind fun t =>
      (Moves.assigns (moves_hasValues scope t)).bind fun _ => .pure _
  | values ref =>
    rw [run]
    exact edits_onDraft fun scope => (moves_tree ref).bind fun t =>
      (Moves.assigns (moves_valuesOf scope t)).bind fun _ => .pure _
  | statementAt ref =>
    rw [run]
    exact edits_onDraft fun scope => (assigns_statementAt scope ref).bind fun _ => .pure _
  | aliased ref =>
    rw [run]
    exact edits_onDraft fun scope => (moves_tree ref).bind fun t => (assigns_renderAliased scope t).bind fun _ => .pure _
  | aliasOf ref =>
    rw [run]
    exact edits_onDraft fun scope => (moves_tree ref).bind fun t =>
      (Moves.assigns (moves_aliasOf? scope t)).bind fun _ => .pure _
  | freshAlias ref =>
    rw [run]
    exact edits_onDraft fun scope => (moves_tree ref).bind fun t => (assigns_freshAlias scope t).bind fun _ => .pure _
  | hasAlias text =>
    cases text with
    | str text =>
      rw [run]
      exact edits_onDraft fun _ => moves_get.bind fun _ => .pure _
    | _ => exact .pure _
  | aliases =>
    rw [run]
    exact edits_onDraft fun _ => moves_get.bind fun _ => .pure _
  | clause which =>
    rw [run]
    exact edits_onDraft fun scope => which.assigns_run scope
  | compile c =>
    refine (edits_compiler c).bind fun _ => (edits_compileWith _).bind fun _ => ?_
    exact (edits_putCompiler (Or.inl rfl) _).bind fun _ => (edits_liftCompile _).bind fun _ => .pure _
  | newCompiler c outer inner =>
    have hput : ∀ (base : Config) (given : Option Context), Edits name (.newCompiler c outer inner) (do
        let context ← contextFor (← lift (base.load outer))
        putCompiler c ⟨context, given.getD context, none⟩
        return Value.null) := by
      have hmakes : (Step.newCompiler c outer inner).remakes c := beq_self_eq_true c
      refine fun base given => (edits_lift _).bind fun _ => (edits_contextFor _).bind fun _ => ?_
      exact (edits_putCompiler (Or.inr hmakes) _).bind fun _ => .pure _
    refine Edits.get.bind fun s => ?_
    cases inner with
    | none => exact (Edits.pure none).bind (hput _)
    | some v =>
      exact (edits_lift _).bind fun _ => (edits_contextFor _).bind fun _ => (Edits.pure (some _)).bind (hput _)
  | compileAlone settings dialect =>
    refine (edits_lift _).bind fun _ => (edits_contextFor _).bind fun _ => ?_
    exact (edits_compileWith _).bind fun _ => (edits_liftCompile _).bind fun _ => .pure _

end

theorem Session.edits_step (s : Session) (name : String) (step : Step) :
    ReflTransGen (Edit name step) s (s.step name step).2 :=
  step.edits_run name s

/-- A step leaves the context as it is, and gives aliases to texts of its own query only. -/
theorem Session.Edit.assigns {name : String} {step : Step} {s s' : Session} (h : ReflTransGen (Edit name step) s s') :
    s'.context = s.context ∧ ∀ other d', s'.draft? other = some d' →
      ∃ d, s.draft? other = some d ∧ d.Assigns s.context.config (name == other && step.renews) d' := by
  induction h with
  | refl => exact ⟨rfl, fun other d hd => ⟨d, hd, .refl⟩⟩
  | tail _ hedit ih =>
    obtain ⟨hcontext, hdrafts⟩ := ih
    cases hedit with
    | compiler => exact ⟨hcontext, hdrafts⟩
    | draft hdraft haliases =>
      refine ⟨hcontext, fun other d' hd' => ?_⟩
      rw [draft?_withDraft] at hd'
      obtain ⟨d₁, hd₁, rfl⟩ := Option.map_eq_some_iff.mp hd'
      obtain ⟨d, hd, hassigns⟩ := hdrafts other d₁ hd₁
      refine ⟨d, hd, ?_⟩
      split
      · rename_i hother
        subst hother
        rw [hdraft] at hd₁
        cases hd₁
        rw [hcontext] at haliases
        rw [beq_self_eq_true, Bool.true_and] at hassigns ⊢
        exact hassigns.trans haliases
      · exact hassigns

/-- A step neither brings in queries nor takes them away. -/
theorem Session.Edit.isSome_draft? {name : String} {step : Step} {s s' : Session}
    (h : ReflTransGen (Edit name step) s s') (other : String) : (s'.draft? other).isSome = (s.draft? other).isSome := by
  induction h with
  | refl => rfl
  | tail _ hedit ih =>
    rw [← ih]
    cases hedit with
    | compiler => rfl
    | draft =>
      rw [draft?_withDraft]
      exact Option.isSome_map

/-! ## What steps leave alone -/

/-- The compiler with the name stays, and so do the names of the queries. -/
structure Session.Spares (c : String) (s s' : Session) : Prop where
  queries : ∀ name, (s'.draft? name).isSome = (s.draft? name).isSome
  compiler : s'.compilerAt c = s.compilerAt c

theorem Session.Spares.refl (c : String) (s : Session) : s.Spares c s :=
  ⟨fun _ => rfl, rfl⟩

theorem Session.Spares.trans {c : String} {s s' s'' : Session} (h : s.Spares c s') (h' : s'.Spares c s'') :
    s.Spares c s'' :=
  ⟨fun name => (h'.queries name).trans (h.queries name), h'.compiler.trans h.compiler⟩

/-- A step leaves a compiler as it is unless it compiles with it or makes it anew. -/
theorem Step.spares_run {c : String} (name : String) (step : Step) (hcompile : step ≠ .compile c)
    (hmake : step.remakes c = false) (s : Session) : s.Spares c (s.step name step).2 := by
  have hedits := s.edits_step name step
  refine ⟨Session.Edit.isSome_draft? hedits, ?_⟩
  generalize (s.step name step).2 = s' at hedits ⊢
  induction hedits with
  | refl => rfl
  | tail _ hedit ih =>
    rw [← ih]
    cases hedit with
    | draft => rfl
    | compiler compiler hnamed =>
      refine Session.compilerAt_withCompiler_of_ne _ ?_ compiler
      rintro rfl
      rcases hnamed with h | h
      · exact hcompile h
      · rw [hmake] at h
        cases h

/-- What a step does that compiles a query. -/
theorem Session.step_compile (s : Session) (name c : String) :
    s.step name (.compile c) =
      match s.draft? name with
      | none => (.error (.unknownQuery name), s)
      | some draft =>
        let (result, query, compiler) := (s.compilerAt c).compile name draft.query
        ((result.map Statement.toValue).mapError .compile,
          (s.withDraft name { draft with query := query }).withCompiler c compiler) := by
  rw [step, Step.run, run_bind, run_compiler]
  dsimp only
  rw [run_bind, run_compileWith]
  cases s.draft? name with
  | none => rfl
  | some draft =>
    dsimp only
    rcases (s.compilerAt c).compile name draft.query with ⟨_ | statement, query, compiler⟩ <;> rfl

/-- What a step does that asks for a fresh alias: the alias is put into the table, if there is one. -/
theorem Session.step_freshAlias_eq {s : Session} {name text : String} {ref : NodeRef} {d d' : Draft}
    (hd : s.draft? name = some d)
    (htext : ((s.context.scopeWith s.context d.query).canonicalText (d.query.tree ref)).run d = (.ok text, d')) :
    s.step name (.freshAlias ref) =
      match d.aliases.assign s.context.config text with
      | .error e => (.error (.compile (.aliasNumber e)), s.withDraft name d')
      | .ok (given, table) => (.ok (.str given), s.withDraft name { d' with aliases := table }) := by
  have haliases := ((Scope.moves_canonicalText _ _).of_run htext).aliases
  rw [step, Step.run, run_onTree hd ref Scope.freshAlias, Scope.run_freshAlias htext, haliases, config_scopeWith]
  cases d.aliases.assign s.context.config text <;> rfl

end ArenaSql
