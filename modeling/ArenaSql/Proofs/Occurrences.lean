import ArenaSql.Proofs.Synchrony
import ArenaSql.Proofs.Wording

/-!
# Counting placeholders

Where the plain pieces of a fragment have neither a question mark nor a percent sign in them, apart from the
operator for remainders, the spelling of the placeholder stands in the text as often as there are placeholders.
-/

namespace ArenaSql

namespace Text

/-- How often a mark stands in a text. -/
def occurrences (mark : List Char) : List Char → Nat
  | [] => 0
  | c :: rest => (if mark.isPrefixOf (c :: rest) then 1 else 0) + occurrences mark rest

def isCleanChar (c : Char) : Bool :=
  c != '?' && c != '%'

/-- The text has neither a question mark nor a percent sign. -/
def isClean (s : String) : Bool :=
  s.toList.all isCleanChar

theorem isCleanChar_of_isBasicChar {c : Char} (h : isBasicChar c) : isCleanChar c := by
  rw [isCleanChar, Bool.and_eq_true, bne_iff_ne, bne_iff_ne]
  constructor
  · rintro rfl
    exact absurd h (by decide)
  · rintro rfl
    exact absurd h (by decide)

/-- Clean texts are those of clean characters, among which are all basic ones. -/
theorem wording_isClean : Wording isCleanChar (isClean ·) where
  basic _ := isCleanChar_of_isBasicChar
  chars _ hs := hs
  part _ _ hpart hs := List.all_eq_true.mpr fun c hc => List.all_eq_true.mp hs c (hpart.subset hc)
  across s t c hc hs ht := by
    refine madeOf_ofList.mpr fun d hd => ?_
    rcases List.mem_append.mp hd with hd | hd
    · exact madeOf_ofList.mp hs d hd
    · rcases List.mem_cons.mp hd with rfl | hd
      · exact isCleanChar_of_isBasicChar (isBasicChar_of_isBreak hc)
      · exact madeOf_ofList.mp ht d hd

/-! ## Occurrences -/

/-- The placeholders for which occurrences are counted. -/
def isMark (mark : String) : Bool :=
  mark == "?" || mark == "%s"

theorem isMark_cases {mark : String} (h : isMark mark) : mark = "?" ∨ mark = "%s" := by
  simpa [isMark] using h

theorem occurrences_append_of_not_mem {c : Char} {mark cs : List Char} (h : c ∉ cs) (rest : List Char) :
    occurrences (c :: mark) (cs ++ rest) = occurrences (c :: mark) rest := by
  induction cs with
  | nil => rfl
  | cons d more ih =>
    have hd : (c == d) = false := beq_false_of_ne fun hcd => h (hcd ▸ List.mem_cons_self)
    rw [List.cons_append, occurrences, List.isPrefixOf, hd, ih fun hc => h (List.mem_cons_of_mem _ hc)]
    simp

/-- Clean text before a text adds no placeholder to it. -/
theorem occurrences_clean_append {mark s : String} (hmark : isMark mark) (hs : isClean s) (rest : List Char) :
    occurrences mark.toList (s.toList ++ rest) = occurrences mark.toList rest := by
  rw [isClean, List.all_eq_true] at hs
  rcases isMark_cases hmark with rfl | rfl
  · exact occurrences_append_of_not_mem (fun h => absurd (hs _ h) (by decide)) rest
  · exact occurrences_append_of_not_mem (fun h => absurd (hs _ h) (by decide)) rest

/-- Nor does the operator for remainders, as a blank follows its percent sign. -/
theorem occurrences_remainder_append {mark : String} (hmark : isMark mark) (rest : List Char) :
    occurrences mark.toList (" % ".toList ++ rest) = occurrences mark.toList rest := by
  rcases isMark_cases hmark with rfl | rfl <;> simp [occurrences, List.isPrefixOf]

theorem occurrences_mark_append {mark : String} (hmark : isMark mark) (rest : List Char) :
    occurrences mark.toList (mark.toList ++ rest) = occurrences mark.toList rest + 1 := by
  rcases isMark_cases hmark with rfl | rfl <;> simp [occurrences, List.isPrefixOf, Nat.add_comm]

end Text

/-- In the text of a quiet fragment, the mark stands where the placeholders are and nowhere else. -/
theorem Sql.Quiet.occurrences {mark : String} {sql : Sql} (hmark : Text.isMark mark) (h : sql.Quiet (Text.isClean ·))
    (hbound : ∀ v m, .bound v m ∈ sql → m = mark) :
    Text.occurrences mark.toList sql.text.toList = sql.values.length := by
  replace h := h.plain
  induction sql with
  | nil => rfl
  | cons piece rest ih =>
    have hrest := ih (fun v m hm => hbound v m (List.mem_cons_of_mem _ hm)) fun s hs => h s (List.mem_cons_of_mem _ hs)
    rw [text_cons, String.toList_append]
    cases piece with
    | plain s =>
      refine Eq.trans ?_ hrest
      rcases h s List.mem_cons_self with hs | rfl
      · exact Text.occurrences_clean_append hmark hs _
      · exact Text.occurrences_remainder_append hmark _
    | bound v m =>
      rw [hbound v m List.mem_cons_self]
      exact (Text.occurrences_mark_append hmark _).trans (congrArg (· + 1) hrest)

end ArenaSql
