import ArenaSql.AliasTable
import ArenaSql.Proofs.View

/-!
# Fresh aliases

The aliases that are tried one after another have growing numbers, so none of them is tried twice. As each one that is
taken may be struck off the list, the search ends, and if it finds an alias, no text has it.
-/

namespace ArenaSql

/-! ## Numbers -/

namespace Text

theorem digitValue?_of_isDigit {c : Char} (h : c.isDigit) : digitValue? c = some (c.toNat - 48) := by
  have hrange : 48 ≤ c.toNat ∧ c.toNat ≤ 57 := by
    simpa [Char.isDigit, UInt32.le_iff_toNat_le] using h
  simp [digitValue?, digitZeros, hrange]

theorem isDecimalDigit_of_isDigit {c : Char} (h : c.isDigit) : isDecimalDigit c := by
  rw [isDecimalDigit, digitValue?_of_isDigit h]
  rfl

theorem isDecimalDigit_of_mem_toDigits {n : Nat} {c : Char} (h : c ∈ Nat.toDigits 10 n) : isDecimalDigit c :=
  isDecimalDigit_of_isDigit (Nat.isDigit_of_mem_toDigits (by decide) (by decide) h)

theorem digitsValue_toDigits (n : Nat) : digitsValue (Nat.toDigits 10 n) = n := by
  have hfold : ∀ (digits : List Char) (start : Nat), (∀ c ∈ digits, c.isDigit) →
      digits.foldl (fun n c => 10 * n + (digitValue? c).getD 0) start = Nat.ofDigitChars 10 digits start := by
    intro digits
    induction digits with
    | nil => exact fun _ _ => rfl
    | cons c rest ih =>
      intro start h
      obtain ⟨hc, hrest⟩ := List.forall_mem_cons.mp h
      rw [List.foldl_cons, Nat.ofDigitChars_cons, digitValue?_of_isDigit hc]
      exact ih _ hrest
  rw [digitsValue, hfold _ _ fun c hc => Nat.isDigit_of_mem_toDigits (by decide) (by decide) hc]
  exact Nat.ofDigitChars_ten_toDigits

end Text

namespace AliasTable

open Text

/-- A number behind an underscore is split off. -/
theorem splitNumber?_append {before digits : List Char} (hdigits : ∀ c ∈ digits, isDecimalDigit c) (hne : digits ≠ []) :
    splitNumber? (before ++ '_' :: digits) = some (before, digits) := by
  have hlast : (before ++ '_' :: digits).getLast? ≠ some '\n' := by
    intro hlast
    rw [List.getLast?_append, List.getLast?_cons_of_ne_nil hne, Option.or_of_isSome (by simpa using hne)] at hlast
    exact absurd (hdigits _ (List.mem_of_getLast? hlast)) (by decide)
  have hbehind : (before ++ '_' :: digits).reverse.takeWhile isDecimalDigit = digits.reverse := by
    have hunderscore : isDecimalDigit '_' = false := by decide
    rw [List.reverse_append, List.reverse_cons, List.append_assoc,
      List.takeWhile_append_of_pos fun c hc => hdigits c (List.mem_reverse.mp hc)]
    simp [hunderscore]
  have hbefore :
      (before ++ '_' :: digits).take ((before ++ '_' :: digits).length - digits.length) = before ++ ['_'] := by
    rw [List.append_cons, List.length_append, Nat.add_sub_cancel, List.take_left]
  simp only [splitNumber?, if_neg hlast, hbehind, List.reverse_reverse, hbefore]
  simp [hne]

theorem splitNumber?_toDigits (before : List Char) (n : Nat) :
    splitNumber? (before ++ '_' :: Nat.toDigits 10 n) = some (before, Nat.toDigits 10 n) :=
  splitNumber?_append (fun _ hc => isDecimalDigit_of_mem_toDigits hc) Nat.toDigits_ne_nil

/-- What stands before the number is where the alias begins. -/
theorem prefix_of_splitNumber? {name before digits : List Char} (h : splitNumber? name = some (before, digits)) :
    before <+: name := by
  have hbody : (if name.getLast? = some '\n' then name.dropLast else name) <+: name := by
    split
    · exact List.dropLast_prefix name
    · exact List.prefix_refl name
  unfold splitNumber? at h
  generalize (if name.getLast? = some '\n' then name.dropLast else name) = body at h hbody
  dsimp only at h
  split at h
  · cases h
  · cases h
    exact ((List.dropLast_prefix _).trans (List.take_prefix _ _)).trans hbody

theorem isNameChar_of_mem_stem {text : String} {c : Char} (h : c ∈ stem text) : Config.isNameChar c := by
  rw [stem, List.mem_reverse] at h
  have hmem := List.mem_reverse.mp ((List.dropWhile_sublist _).subset h)
  obtain ⟨d, -, rfl⟩ := List.mem_map.mp hmem
  split
  · rename_i halpha
    rw [Config.isNameChar, halpha, Bool.true_or]
  · rfl

/-- The number that an alias ends with counts how many aliases were tried before it. -/
def rank (name : List Char) : Nat :=
  match splitNumber? name with
  | some (_, digits) => digitsValue digits + 1
  | none => 0

theorem next_eq_ok {name other : List Char} (h : next name = .ok other) :
    (splitNumber? name = none ∧ other = name ++ ['_', '1']) ∨
      ∃ before digits, splitNumber? name = some (before, digits) ∧
        other = before ++ '_' :: Nat.toDigits 10 (digitsValue digits + 1) := by
  unfold next at h
  split at h
  · rename_i before digits hsplit
    obtain ⟨number, hnumber, rfl⟩ := Except.map_eq_ok_iff.mp h
    refine Or.inr ⟨before, digits, hsplit, ?_⟩
    unfold nextNumber at hnumber
    split at hnumber
    · cases hnumber
    · dsimp only at hnumber
      split at hnumber
      · cases hnumber
      · cases hnumber
        rfl
  · rename_i hsplit
    cases h
    exact Or.inl ⟨hsplit, rfl⟩

theorem rank_toDigits (before : List Char) (n : Nat) : rank (before ++ '_' :: Nat.toDigits 10 n) = n + 1 := by
  rw [rank, splitNumber?_toDigits]
  dsimp only
  rw [digitsValue_toDigits]

theorem rank_lt_next {name other : List Char} (h : next name = .ok other) : rank name < rank other := by
  obtain ⟨hnone, rfl⟩ | ⟨before, digits, hsome, rfl⟩ := next_eq_ok h
  · have hrank : rank (name ++ ['_', '1']) = 2 := rank_toDigits name 1
    rw [hrank, rank, hnone]
    exact Nat.succ_pos _
  · rw [rank_toDigits, rank, hsome]
    exact Nat.lt_succ_self _

/-! ## The search -/

/-- How the search for a free alias goes on from a name, however long it takes: a name that is taken gives way to the
next one, if there is a next one. -/
inductive Search (taken : List String) : List Char → Except LengthError (List Char) → Prop where
  | free {name : List Char} (hfree : String.ofList name ∉ taken) : Search taken name (.ok name)
  | further {name other : List Char} {result : Except LengthError (List Char)} (htaken : String.ofList name ∈ taken)
    (hnext : next name = .ok other) (hrest : Search taken other result) : Search taken name result
  | stuck {name : List Char} {e : LengthError} (htaken : String.ofList name ∈ taken) (hnext : next name = .error e) :
    Search taken name (.error e)

namespace Search

variable {taken : List String} {name free : List Char} {result result' : Except LengthError (List Char)}

theorem unique (h : Search taken name result) (h' : Search taken name result') : result = result' := by
  induction h with
  | free hfree =>
    cases h' with
    | free => rfl
    | further htaken | stuck htaken => exact absurd htaken hfree
  | further htaken hnext _ ih =>
    cases h' with
    | free hfree => exact absurd htaken hfree
    | further _ hnext' hrest' =>
      cases hnext.symm.trans hnext'
      exact ih hrest'
    | stuck _ hnext' => cases hnext.symm.trans hnext'
  | stuck htaken hnext =>
    cases h' with
    | free hfree => exact absurd htaken hfree
    | further _ hnext' => cases hnext.symm.trans hnext'
    | stuck _ hnext' =>
      cases hnext.symm.trans hnext'
      rfl

/-- A name of lower rank is not met any more, so it may be struck off. -/
theorem of_erase {tried : List Char} (h : Search (taken.erase (String.ofList tried)) name result)
    (hrank : rank tried < rank name) : Search taken name result := by
  have hmem : ∀ {name : List Char}, rank tried < rank name → String.ofList name ∈ taken →
      String.ofList name ∈ taken.erase (String.ofList tried) := by
    intro name hrank hname
    refine (List.mem_erase_of_ne fun heq => ?_).mpr hname
    rw [String.ofList_inj.mp heq] at hrank
    exact Nat.lt_irrefl _ hrank
  induction h with
  | free hfree => exact .free fun htaken => hfree (hmem hrank htaken)
  | further htaken hnext _ ih =>
    exact .further (List.mem_of_mem_erase htaken) hnext (ih (Nat.lt_trans hrank (rank_lt_next hnext)))
  | stuck htaken hnext => exact .stuck (List.mem_of_mem_erase htaken) hnext

theorem not_mem (h : Search taken name (.ok free)) : String.ofList free ∉ taken := by
  generalize hresult : (Except.ok free : Except LengthError (List Char)) = result at h
  induction h with
  | free hfree =>
    cases hresult
    exact hfree
  | further _ _ _ ih => exact ih hresult
  | stuck => cases hresult

/-- What holds of a name and is passed on to the next one holds of the name that is found. -/
theorem passes_on {p : List Char → Prop} (hp : ∀ {name other}, p name → next name = .ok other → p other)
    (h : Search taken name (.ok free)) (hname : p name) : p free := by
  generalize hresult : (Except.ok free : Except LengthError (List Char)) = result at h
  induction h with
  | free =>
    cases hresult
    exact hname
  | further _ hnext _ ih => exact ih (hp hname hnext) hresult
  | stuck => cases hresult

end Search

/-- As many tries as there are aliases suffice. -/
theorem search_freeFrom (taken : List String) (name : List Char) :
    Search taken name (freeFrom taken.length taken name) := by
  generalize hlength : taken.length = n
  induction n generalizing taken name with
  | zero =>
    rw [List.length_eq_zero_iff.mp hlength]
    exact .free List.not_mem_nil
  | succ n ih =>
    rw [freeFrom]
    split
    · rename_i htaken
      have hmem : String.ofList name ∈ taken := by simpa using htaken
      cases hnext : next name with
      | error e => exact .stuck hmem hnext
      | ok other =>
        have hrest := ih (taken.erase (String.ofList name)) other (by rw [List.length_erase_of_mem hmem, hlength]; rfl)
        exact .further hmem hnext (hrest.of_erase (rank_lt_next hnext))
    · rename_i hfree
      exact .free (by simpa using hfree)

section

variable {t : AliasTable} {config : Config} {text : String}

theorem freshAlias_of_search {result : Except LengthError (List Char)}
    (h : Search t.aliases (candidate config text) result) : t.freshAlias config text = result.map String.ofList := by
  rw [freshAlias, (search_freeFrom t.aliases (candidate config text)).unique h]

theorem search_of_freshAlias {name : String} (h : t.freshAlias config text = .ok name) :
    Search t.aliases (candidate config text) (.ok name.toList) := by
  obtain ⟨free, hfree, rfl⟩ := Except.map_eq_ok_iff.mp h
  rw [String.toList_ofList, ← hfree]
  exact search_freeFrom _ _

/-- A text gets the alias that is made from it if no other text has that one. -/
theorem assign_of_free (h : String.ofList (candidate config text) ∉ t.aliases) :
    t.assign config text =
      .ok (String.ofList (candidate config text), t.insert text (String.ofList (candidate config text))) := by
  rw [assign, freshAlias_of_search (.free h)]
  rfl

/-- A text gets no alias if the one that is made from it is taken and ends with too long a number. -/
theorem assign_of_overlong {before digits : List Char} (htaken : String.ofList (candidate config text) ∈ t.aliases)
    (hsplit : splitNumber? (candidate config text) = some (before, digits)) (hlong : maxDigits < digits.length) :
    t.assign config text = .error (.reading digits.length) := by
  have hnext : next (candidate config text) = .error (.reading digits.length) := by
    rw [next, hsplit]
    simp only [nextNumber, if_pos hlong]
    rfl
  rw [assign, freshAlias_of_search (.stuck htaken hnext)]
  rfl

end

theorem assign_eq_ok {t t' : AliasTable} {config : Config} {text name : String}
    (h : t.assign config text = .ok (name, t')) :
    t' = t.insert text name ∧ name ∉ t.aliases := by
  obtain ⟨made, hmade, hlast⟩ := Except.map_eq_ok_iff.mp h
  cases hlast
  have hfree := (search_of_freshAlias hmade).not_mem
  rw [String.ofList_toList] at hfree
  exact ⟨rfl, hfree⟩

/-! ## Aliases of a table -/

theorem mem_aliases_insert {t : AliasTable} {text name other : String} (h : other ∈ (t.insert text name).aliases) :
    other = name ∨ other ∈ t.aliases := by
  obtain ⟨entries⟩ := t
  simp only [insert, aliases] at h ⊢
  induction entries with
  | nil => simp_all [insertEntry]
  | cons entry rest ih =>
    obtain ⟨key, old⟩ := entry
    rw [insertEntry] at h
    split at h
    · rcases List.mem_cons.mp h with h | h
      · exact Or.inl h
      · exact Or.inr (List.mem_cons_of_mem _ h)
    · rcases List.mem_cons.mp h with h | h
      · exact Or.inr (h ▸ List.mem_cons_self)
      · exact (ih h).imp_right (List.mem_cons_of_mem _)

theorem mem_aliases_of_find? {t : AliasTable} {text name : String} (h : t.find? text = some name) :
    name ∈ t.aliases := by
  obtain ⟨entry, hentry, rfl⟩ := Option.map_eq_some_iff.mp h
  exact List.mem_map_of_mem (List.mem_of_find?_eq_some hentry)

end AliasTable

end ArenaSql
