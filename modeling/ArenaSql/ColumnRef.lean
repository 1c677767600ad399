/-!
# Column references

A column is named alone or behind a table and a point. Only the first point divides, so what follows it may
hold further points.
-/

namespace ArenaSql

structure ColumnRef where
  /-- The table before the point, if there is a point. -/
  table : Option String
  column : String
  deriving DecidableEq

namespace ColumnRef

def parse (name : String) : ColumnRef :=
  let cs := name.toList
  let before := cs.takeWhile (· != '.')
  match cs.drop before.length with
  | [] => ⟨none, name⟩
  | _ :: after => ⟨some (String.ofList before), String.ofList after⟩

def qualified (ref : ColumnRef) : Bool :=
  ref.table.isSome

/-- The written form. An empty table leaves no trace. -/
def text (ref : ColumnRef) : String :=
  match ref.table with
  | some table => if table.isEmpty then ref.column else table ++ "." ++ ref.column
  | none => ref.column

/-! ## What parsing finds -/

theorem parse_of_table_eq_none {name : String} (h : (parse name).table = none) : parse name = ⟨none, name⟩ := by
  unfold parse at h ⊢
  dsimp only at h ⊢
  split
  · rfl
  · rename_i hsome
    rw [hsome] at h
    cases h

/-- A qualified name is its table, a point and its column. -/
theorem eq_of_table_parse {name table : String} (h : (parse name).table = some table) :
    name = table ++ "." ++ (parse name).column := by
  have hsplit : ∀ {cs : List Char} {c : Char} {after : List Char}, cs.drop (cs.takeWhile (· != '.')).length = c :: after →
      cs = cs.takeWhile (· != '.') ++ '.' :: after := by
    intro cs c after hcs
    induction cs with
    | nil => cases hcs
    | cons first rest ih =>
      by_cases hfirst : first = '.'
      · simp_all
      · simp only [bne_iff_ne, ne_eq, hfirst, not_false_eq_true, List.takeWhile_cons_of_pos, List.length_cons,
          List.drop_succ_cons, List.cons_append, List.cons.injEq, true_and] at hcs ⊢
        exact ih hcs
  unfold parse at h ⊢
  dsimp only at h ⊢
  split at h
  · cases h
  · rename_i c after hafter
    rw [← Option.some.inj h, ← String.toList_inj, String.toList_append, String.toList_append, String.toList_ofList,
      String.toList_ofList]
    simpa using hsplit hafter

end ColumnRef

end ArenaSql
