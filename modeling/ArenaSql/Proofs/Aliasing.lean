import ArenaSql.Proofs.Replay
import Mathlib.Logic.Relation

/-!
# How aliases are given

Whatever is asked of a draft, its alias table changes in one way only: texts are given fresh aliases, one after another.
A text that has an alias is given another one only if a fresh alias is asked for.
-/

namespace ArenaSql

open Relation

/-- A text is given a fresh alias. It may have had one before only if `again` is set. -/
def AliasTable.Assigns (config : Config) (again : Bool) (t t' : AliasTable) : Prop :=
  ∃ text name, (again = false → t.find? text = none) ∧ t.assign config text = .ok (name, t')

/-- Texts are given fresh aliases, one after another. -/
def Draft.Assigns (config : Config) (again : Bool) (d d' : Draft) : Prop :=
  ReflTransGen (AliasTable.Assigns config again) d.aliases d'.aliases

instance {config : Config} {again : Bool} : IsPreorder Draft (Draft.Assigns config again) where
  refl _ := .refl
  trans _ _ _ h h' := h.trans h'

theorem Draft.Extends.assigns {config : Config} {again : Bool} {d d' : Draft} (h : d.Extends d') :
    d.Assigns config again d' := by
  rw [Draft.Assigns, h.aliases]

theorem Draft.Assigns.mono {config : Config} {again again' : Bool} {d d' : Draft} (h : d.Assigns config again d')
    (hle : again → again') : d.Assigns config again' d' := by
  refine ReflTransGen.mono (fun t t' => ?_) _ _ h
  rintro ⟨text, name, hnew, hassign⟩
  refine ⟨text, name, fun hagain => hnew ?_, hassign⟩
  cases again with
  | true => rw [hle rfl] at hagain; cases hagain
  | false => rfl

namespace DraftM

variable {R : Draft → Draft → Prop} [IsPreorder Draft R]

theorem moves_tree (ref : NodeRef) : (tree ref).Moves R :=
  fun d => refl_of R d

theorem moves_get : (get : DraftM Draft).Moves R :=
  fun d => refl_of R d

theorem assigns_onQuery (config : Config) (again : Bool) (work : Query → Query × Option CompileError) :
    (onQuery work).Moves (Draft.Assigns config again) := by
  intro d
  rw [run_onQuery]
  rcases work d.query with ⟨q, _ | e⟩ <;> exact .refl

theorem moves_isSimple (t : Tree) : (Scope.isSimple t).Moves R := by
  rw [Scope.isSimple]
  cases t.isSimple with
  | ok simple => exact .pure simple
  | error fault => exact .throw _

end DraftM

namespace Scope

open DraftM

variable {again : Bool}

theorem Moves.assigns {α : Type} {config : Config} {work : DraftM α} (h : work.Moves Draft.Extends) :
    work.Moves (Draft.Assigns config again) :=
  h.mono fun _ _ hextends => hextends.assigns

theorem moves_canonicalText (scope : Scope) (t : Tree) : (scope.canonicalText t).Moves Draft.Extends :=
  (moves_render scope .inline t).bind fun _ => .pure _

theorem moves_valuesOf (scope : Scope) (t : Tree) : (scope.valuesOf t).Moves Draft.Extends := by
  rw [valuesOf_eq_collect]
  exact moves_collect scope t.leaves

theorem assigns_statementAt (scope : Scope) (ref : NodeRef) :
    (scope.statementAt ref).Moves (Draft.Assigns scope.config again) := by
  intro d
  rw [statementAt, run_bind, run_get]
  dsimp only
  split
  · exact .refl
  · split
    · exact .refl
    · rw [run_compileAt]
      dsimp only
      split <;> exact .refl
    · exact .refl

/-- A fresh alias is given to any text, whether it has one or not. -/
theorem assigns_freshAlias (scope : Scope) (t : Tree) :
    (scope.freshAlias t).Moves (Draft.Assigns scope.config true) := by
  intro d
  rcases htext : (scope.canonicalText t).run d with ⟨e | text, d₁⟩
  · have hextends := (moves_canonicalText scope t).of_run htext
    rw [freshAlias, run_bind, htext]
    exact hextends.assigns
  · have haliases := ((moves_canonicalText scope t).of_run htext).aliases
    rw [run_freshAlias htext, Draft.Assigns, ← haliases]
    cases hassign : d₁.aliases.assign scope.config text with
    | error e => exact .refl
    | ok made => exact .single ⟨text, made.1, fun hfresh => (by cases hfresh), hassign⟩

/-- An expression that is rendered with an alias gives its text one only if it has none. -/
theorem assigns_renderAliased (scope : Scope) (t : Tree) :
    (scope.renderAliased t).Moves (Draft.Assigns scope.config false) := by
  intro d
  cases hsimple : t.isSimple with
  | error fault =>
    rw [renderAliased, Scope.isSimple, hsimple]
    exact .refl
  | ok simple =>
    cases simple with
    | true =>
      rw [renderAliased, Scope.isSimple, hsimple]
      exact (moves_render scope .bound t d).assigns
    | false =>
      rcases htext : (scope.canonicalText t).run d with ⟨e | text, d₁⟩
      · have hextends := (moves_canonicalText scope t).of_run htext
        rw [renderAliased, Scope.isSimple, hsimple]
        change Draft.Assigns _ _ d ((scope.aliasOf? t >>= _).run d).2
        rw [run_bind, aliasOf?, run_bind, htext]
        exact hextends.assigns
      · have haliases := ((moves_canonicalText scope t).of_run htext).aliases
        rw [run_renderAliased hsimple htext, Draft.Assigns, ← haliases]
        cases hfind : d₁.aliases.find? text with
        | some name => exact .refl
        | none =>
          cases hassign : d₁.aliases.assign scope.config text with
          | error e => exact .refl
          | ok made =>
            obtain ⟨name, table⟩ := made
            have hrest := (moves_render scope .bound t).bind fun sql =>
              Moves.pure (R := Draft.Extends) (sql ++ Sql.plain (" AS " ++ name))
            exact .head ⟨text, name, fun _ => hfind, hassign⟩ (hrest { d₁ with aliases := table }).assigns

theorem assigns_groupItem (scope : Scope) (ref : NodeRef) :
    (scope.groupItem ref).Moves (Draft.Assigns scope.config false) := by
  refine (moves_tree ref).bind fun t => (moves_isSimple t).bind fun simple => ?_
  cases simple with
  | true => exact Moves.assigns (moves_render scope .bound t)
  | false =>
    refine (Moves.assigns (moves_aliasOf? scope t)).bind fun found => ?_
    cases found with
    | none => exact assigns_renderAliased scope t
    | some name =>
      refine (Moves.assigns (moves_hasValues scope t)).bind fun valued => ?_
      cases valued with
      | true => exact Moves.assigns (moves_render scope .bound t)
      | false => exact assigns_renderAliased scope t

theorem assigns_groupItems (scope : Scope) (refs : List NodeRef) :
    (scope.groupItems refs).Moves (Draft.Assigns scope.config false) := by
  induction refs with
  | nil => exact .pure _
  | cons ref rest ih => exact (assigns_groupItem scope ref).bind fun _ => ih.bind fun _ => .pure _

theorem assigns_groupByClause (scope : Scope) :
    scope.groupByClause.Moves (Draft.Assigns scope.config false) := by
  refine moves_get.bind fun d => ?_
  dsimp only
  split
  · exact .pure _
  · split
    · exact .throw _
    · exact .pure _
    · exact (assigns_groupItems scope _).bind fun _ => .pure _
    · exact .throw _

end Scope

end ArenaSql
