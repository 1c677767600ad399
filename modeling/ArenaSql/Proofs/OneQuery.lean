import ArenaSql.Proofs.Sessions

/-!
# One query for each compiler

Whatever else a session does in between, a compiler goes on like a new one as long as its calls fail. The first call
that succeeds binds it to the query of that call: from then on it gives the same answer for this query, also after the
query was edited, and refuses all others, and its calls leave all queries alone.
-/

namespace ArenaSql

/-! ## Runs -/

/-- The answer of a step that compiled a query with the compiler. -/
def Step.success? (c : String) : Step → Except Failure Value → Option Value
  | .compile compiler, .ok answer => if compiler = c then some answer else none
  | _, _ => none

namespace Session

/-- The session after some steps, each on the query with a name. -/
def after : Session → List (String × Step) → Session
  | s, [] => s
  | s, (name, step) :: rest => after (s.step name step).2 rest

/-- The query and the answer of the first call of the compiler that succeeds. -/
def firstSuccess? (c : String) : Session → List (String × Step) → Option (String × Value)
  | _, [] => none
  | s, (name, step) :: rest =>
    match step.success? c (s.step name step).1 with
    | some answer => some (name, answer)
    | none => firstSuccess? c (s.step name step).2 rest

end Session

/-! ## Calls -/

theorem Step.success?_eq_some_iff {c : String} {step : Step} {result : Except Failure Value} {answer : Value} :
    step.success? c result = some answer ↔ step = .compile c ∧ result = .ok answer := by
  cases step with
  | compile compiler => cases result <;> simp [success?]
  | _ => simp [success?]

namespace Compiler

variable {c : Compiler} {name : String} {q : Query}

theorem compile_of_done {served : String} {statement : Statement} (h : c.done = some (served, statement))
    (name : String) (q : Query) :
    c.compile name q = (if served = name then .ok statement else .error .compilerUsed, q, c) := by
  rw [compile, h]

theorem compile_of_failed {e : CompileError} (h : (c.compile name q).1 = .error e) : (c.compile name q).2.2 = c := by
  rw [compile] at h ⊢
  cases hdone : c.done with
  | some found => rfl
  | none =>
    rw [hdone] at h
    dsimp only at h ⊢
    cases hresult : (q.compileWith c.context c.inner).result with
    | error e => rfl
    | ok statement => rw [hresult] at h; cases h

theorem compile_of_success {statement : Statement} (hunused : c.done = none)
    (h : (c.compile name q).1 = .ok statement) :
    (c.compile name q).2.2 = { c with done := some (name, statement) } := by
  rw [compile, hunused] at h ⊢
  dsimp only at h ⊢
  cases hresult : (q.compileWith c.context c.inner).result with
  | error e => rw [hresult] at h; cases h
  | ok statement => rw [hresult] at h; cases h; rfl

end Compiler

namespace Session

variable {s : Session} {c : String} {step : Step}

/-- A call with a query that the session has. -/
theorem step_compile_of_some {name : String} {draft : Draft} (h : s.draft? name = some draft) (c : String) :
    (s.step name (.compile c)).1 =
        ((((s.compilerAt c).compile name draft.query).1.map Statement.toValue).mapError .compile) ∧
      (∀ other, (s.step name (.compile c)).2.draft? other =
        if other = name then some { draft with query := ((s.compilerAt c).compile name draft.query).2.1 }
        else s.draft? other) ∧
      (s.step name (.compile c)).2.compilerAt c = ((s.compilerAt c).compile name draft.query).2.2 := by
  rw [step_compile, h]
  refine ⟨rfl, fun other => ?_, compilerAt_withCompiler ..⟩
  rw [draft?_withCompiler, draft?_withDraft]
  split
  · rename_i hother
    rw [hother, h]
    rfl
  · exact Option.map_id'

/-- A step leaves the compiler as it is, unless it is its first call that succeeds. -/
theorem spares_step (name : String) (hmake : step.remakes c = false)
    (h : (s.compilerAt c).done.isSome ∨ step.success? c (s.step name step).1 = none) :
    s.Spares c (s.step name step).2 := by
  by_cases hcompile : step = .compile c
  · subst hcompile
    cases hdraft : s.draft? name with
    | none =>
      rw [step_compile, hdraft]
      exact .refl c s
    | some draft =>
      obtain ⟨hanswer, hdrafts, hcompiler⟩ := step_compile_of_some hdraft c
      refine ⟨fun other => ?_, hcompiler.trans ?_⟩
      · rw [hdrafts]
        split
        · rename_i hother
          rw [hother, hdraft]
          rfl
        · rfl
      · rcases h with hdone | hfailed
        · obtain ⟨first, hdone⟩ := Option.isSome_iff_exists.mp hdone
          rw [Compiler.compile_of_done hdone]
        · cases hresult : ((s.compilerAt c).compile name draft.query).1 with
          | error e => exact Compiler.compile_of_failed hresult
          | ok statement =>
            have hsuccess : Step.success? c (.compile c) (s.step name (.compile c)).1 = some statement.toValue := by
              rw [Step.success?_eq_some_iff, hanswer, hresult]
              exact ⟨rfl, rfl⟩
            rw [hfailed] at hsuccess
            cases hsuccess
  · exact Step.spares_run name step hcompile hmake s

/-- A compiler that has served a query stays as it is. -/
theorem spares_after {steps : List (String × Step)} (hmake : ∀ entry ∈ steps, entry.2.remakes c = false)
    (hdone : (s.compilerAt c).done.isSome) : s.Spares c (s.after steps) := by
  induction steps generalizing s with
  | nil => exact .refl c s
  | cons entry rest ih =>
    obtain ⟨hstep, hrest⟩ := List.forall_mem_cons.mp hmake
    have hspares := spares_step entry.1 hstep (Or.inl hdone)
    exact hspares.trans (ih hrest (by rwa [hspares.compiler]))

/-- The compiler is the one that was made, or that one after it served a query of the session with an answer. -/
inductive Serves (c : String) (made : Compiler) (s : Session) : Option (String × Value) → Prop where
  | nothing (h : s.compilerAt c = made) : Serves c made s none
  | first {name : String} {statement : Statement} (h : s.compilerAt c = { made with done := some (name, statement) })
    (hname : (s.draft? name).isSome) : Serves c made s (some (name, statement.toValue))

/-- The first call that succeeds binds the compiler. -/
theorem serves_step_of_success {name : String} {answer : Value} (hunused : (s.compilerAt c).done = none)
    (hsuccess : step.success? c (s.step name step).1 = some answer) :
    (s.step name step).2.Serves c (s.compilerAt c) (some (name, answer)) := by
  obtain ⟨rfl, hanswer⟩ := Step.success?_eq_some_iff.mp hsuccess
  cases hdraft : s.draft? name with
  | none => rw [step_compile, hdraft] at hanswer; cases hanswer
  | some draft =>
    obtain ⟨hresult, hdrafts, hcompiler⟩ := step_compile_of_some hdraft c
    rw [hresult] at hanswer
    cases hcompiled : ((s.compilerAt c).compile name draft.query).1 with
    | error e => rw [hcompiled] at hanswer; cases hanswer
    | ok statement =>
      rw [hcompiled] at hanswer
      cases hanswer
      refine .first (hcompiler.trans (Compiler.compile_of_success hunused hcompiled)) ?_
      rw [hdrafts, if_pos rfl]
      rfl

theorem Serves.of_spares {made : Compiler} {s' : Session} {first : Option (String × Value)} (h : s.Serves c made first)
    (hspares : s.Spares c s') : s'.Serves c made first := by
  cases h with
  | nothing h => exact .nothing (hspares.compiler.trans h)
  | first h hname => exact .first (hspares.compiler.trans h) (by rwa [hspares.queries])

/-- After all steps the compiler serves the query of the first call that succeeded, if there was any. -/
theorem serves_after {made : Compiler} (hmade : made.done = none) {steps : List (String × Step)}
    (hmake : ∀ entry ∈ steps, entry.2.remakes c = false) (h : s.compilerAt c = made) :
    (s.after steps).Serves c made (s.firstSuccess? c steps) := by
  induction steps generalizing s with
  | nil => exact .nothing h
  | cons entry rest ih =>
    obtain ⟨name, step⟩ := entry
    obtain ⟨hstep, hrest⟩ := List.forall_mem_cons.mp hmake
    rw [after, firstSuccess?]
    cases hsuccess : step.success? c (s.step name step).1 with
    | none => exact ih hrest ((spares_step name hstep (Or.inr hsuccess)).compiler.trans h)
    | some answer =>
      have hserves := serves_step_of_success (h ▸ hmade) hsuccess
      rw [h] at hserves
      -- the compiler is bound now, so no later step changes it
      refine hserves.of_spares (spares_after hrest ?_)
      cases hserves with
      | first hdone _ => rw [hdone]; rfl

/-- Let a compiler be unused at first, and not made anew later. As long as it had no success, the next call has the
answer and the effect that it has with a new compiler. After its first success, the next call has the answer of that
success if it is for the same query, and is refused if it is for another one, and leaves all queries as they are. -/
theorem compile_servesOne (s : Session) (c : String) (steps : List (String × Step)) (name : String)
    (hunused : (s.compilerAt c).done = none) (hmake : ∀ entry ∈ steps, entry.2.remakes c = false)
    (hname : ((s.after steps).draft? name).isSome) :
    match s.firstSuccess? c steps with
    | none =>
      let renewed := (s.after steps).withCompiler c ⟨(s.compilerAt c).context, (s.compilerAt c).inner, none⟩
      ((s.after steps).step name (.compile c)).1 = (renewed.step name (.compile c)).1 ∧
        ∀ other, ((s.after steps).step name (.compile c)).2.draft? other =
          (renewed.step name (.compile c)).2.draft? other
    | some (served, answer) =>
      ((s.after steps).step name (.compile c)).1 =
          (if name = served then .ok answer else .error (.compile .compilerUsed)) ∧
        ∀ other, ((s.after steps).step name (.compile c)).2.draft? other = (s.after steps).draft? other := by
  have hserves := serves_after hunused hmake rfl
  obtain ⟨draft, hdraft⟩ := Option.isSome_iff_exists.mp hname
  obtain ⟨hanswer, hdrafts, -⟩ := step_compile_of_some hdraft c
  generalize s.firstSuccess? c steps = first at hserves
  cases hserves with
  | nothing h =>
    dsimp only
    have hnew : (⟨(s.compilerAt c).context, (s.compilerAt c).inner, none⟩ : Compiler) = s.compilerAt c := by
      rw [← hunused]
    have hdraft' : ((s.after steps).withCompiler c (s.compilerAt c)).draft? name = some draft := hdraft
    obtain ⟨hanswer', hdrafts', -⟩ := step_compile_of_some hdraft' c
    rw [hnew, hanswer, hanswer', compilerAt_withCompiler, h]
    refine ⟨rfl, fun other => ?_⟩
    rw [hdrafts, hdrafts', compilerAt_withCompiler, h]
    rfl
  | @first served statement h _ =>
    have hdone : ((s.after steps).compilerAt c).done = some (served, statement) := by rw [h]
    rw [Compiler.compile_of_done hdone] at hanswer hdrafts
    refine ⟨?_, fun other => ?_⟩
    · rw [hanswer]
      by_cases hserved : served = name
      · rw [if_pos hserved, if_pos hserved.symm]
        rfl
      · rw [if_neg hserved, if_neg (Ne.symm hserved)]
        rfl
    · rw [hdrafts]
      split
      · rename_i hother
        rw [hother, hdraft]
      · rfl

/-- The first query names a column that there is not, and the second one is as it should be. -/
def rota : Session where
  registry := .standard
  context :=
    { dialect := .generic
      schema := { tables := [{ name := "shifts", columns := [{ name := "day" }, { name := "nurse" }] }] }
      config := {} }
  drafts := [
    ("doctors", { query :=
      { nodes := [{ expr := .field { name := .text "doctor" } }]
        select := [.index 0]
        tables := { table := "shifts" } } }),
    ("nurses", { query :=
      { nodes := [{ expr := .field { name := .text "nurse" } }]
        select := [.index 0]
        tables := { table := "shifts" } } })]

/-- A call that fails, one that succeeds, and edits after which both queries could be compiled to other statements. -/
def rota.steps : List (String × Step) :=
  [("doctors", .compile "main"), ("nurses", .compile "main"), ("nurses", .set "select" (.list [])),
    ("doctors", .set "select" (.list []))]

theorem compile_servesOne_rota :
    ((rota.after (rota.steps.take 1)).step "nurses" (.compile "main")).1 =
        (((rota.after (rota.steps.take 1)).withCompiler "main" (.new rota.context)).step "nurses" (.compile "main")).1 ∧
      rota.firstSuccess? "main" rota.steps =
        some ("nurses", .object [("text", .str "SELECT nurse FROM shifts"), ("values", .list []),
          ("dialect", .str "generic")]) ∧
      ((rota.after rota.steps).step "nurses" (.compile "main")).1 =
        .ok (.object [("text", .str "SELECT nurse FROM shifts"), ("values", .list []), ("dialect", .str "generic")]) ∧
      ((rota.after rota.steps).step "doctors" (.compile "main")).1 = .error (.compile .compilerUsed) := by
  have hnone : rota.firstSuccess? "main" (rota.steps.take 1) = none := by decide +kernel
  have hfirst : rota.firstSuccess? "main" rota.steps =
      some ("nurses", .object [("text", .str "SELECT nurse FROM shifts"), ("values", .list []),
        ("dialect", .str "generic")]) := by decide +kernel
  have hmake : ∀ entry ∈ rota.steps, entry.2.remakes "main" = false := by decide +kernel
  have hbefore := compile_servesOne rota "main" (rota.steps.take 1) "nurses" rfl
    (fun entry hentry => hmake entry (List.mem_of_mem_take hentry)) (by decide +kernel)
  rw [hnone] at hbefore
  have hsame := compile_servesOne rota "main" rota.steps "nurses" rfl hmake (by decide +kernel)
  have hother := compile_servesOne rota "main" rota.steps "doctors" rfl hmake (by decide +kernel)
  rw [hfirst] at hsame hother
  exact ⟨hbefore.1, hfirst, hsame.1, hother.1⟩

end Session

end ArenaSql
