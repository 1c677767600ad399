import ArenaSql.Proofs.DistinctAliases

/-!
# Numbers of aliases

With a suffix of letters and underscores, the aliases of a query can be told from the texts alone, as long as no fresh
alias is asked for where there is one: the first text with some letters gets these letters and the suffix, and the ones
after it get numbers from one on. Texts with other letters do not count.
-/

namespace ArenaSql

open Relation

/-! ## Numbers and their length -/

namespace Text

theorem isDecimalDigit_of_isNameChar {c : Char} (h : Config.isNameChar c) : isDecimalDigit c = false := by
  have hstarts : ∀ start ∈ digitZeros, start = 48 ∨ 1000 ≤ start := by decide
  have hrange : 65 ≤ c.toNat ∧ c.toNat ≤ 122 := by
    unfold Config.isNameChar Char.isAlpha Char.isUpper Char.isLower at h
    simp only [Bool.or_eq_true, Bool.and_eq_true, decide_eq_true_eq, beq_iff_eq, UInt32.le_iff_toNat_le] at h
    rcases h with (h | h) | rfl
    · exact ⟨h.1, Nat.le_trans h.2 (by decide)⟩
    · exact ⟨Nat.le_trans (by decide) h.1, h.2⟩
    · decide
  have hnone : digitValue? c = none := by
    rw [digitValue?, Option.map_eq_none_iff, List.find?_eq_none]
    intro start hstart
    have hcases := hstarts start hstart
    simp only [Bool.and_eq_true, decide_eq_true_eq]
    omega
  rw [isDecimalDigit, hnone]
  rfl

theorem digitValue?_le (c : Char) : (digitValue? c).getD 0 ≤ 9 := by
  rw [digitValue?]
  cases hfind : digitZeros.find? fun start => start ≤ c.toNat && c.toNat ≤ start + 9 with
  | none => exact Nat.zero_le 9
  | some start =>
    have hrange := List.find?_some hfind
    simp only [Bool.and_eq_true, decide_eq_true_eq] at hrange
    exact Nat.sub_le_of_le_add (by omega)

theorem digitsValue_lt (digits : List Char) : digitsValue digits < 10 ^ digits.length := by
  have hfold : ∀ (digits : List Char) (start : Nat),
      digits.foldl (fun n c => 10 * n + (digitValue? c).getD 0) start < (start + 1) * 10 ^ digits.length := by
    intro digits
    induction digits with
    | nil => exact fun start => by simp
    | cons c rest ih =>
      intro start
      have hdigit := digitValue?_le c
      calc rest.foldl (fun n c => 10 * n + (digitValue? c).getD 0) (10 * start + (digitValue? c).getD 0)
        _ < (10 * start + (digitValue? c).getD 0 + 1) * 10 ^ rest.length := ih _
        _ ≤ (start + 1) * 10 * 10 ^ rest.length := Nat.mul_le_mul_right _ (by omega)
        _ = (start + 1) * 10 ^ (c :: rest).length := by rw [List.length_cons, Nat.pow_succ']; ring
  simpa [digitsValue] using hfold digits 0

theorem length_toDigits_le_iff {n : Nat} : (Nat.toDigits 10 n).length ≤ maxDigits ↔ n < 10 ^ maxDigits := by
  refine ⟨fun h => ?_, Nat.toDigits_length 10 n maxDigits (by decide)⟩
  calc n = digitsValue (Nat.toDigits 10 n) := (digitsValue_toDigits n).symm
    _ < 10 ^ (Nat.toDigits 10 n).length := digitsValue_lt _
    _ ≤ 10 ^ maxDigits := Nat.pow_le_pow_right (by decide) h

end Text

namespace AliasTable

open Text

/-! ## Numbered names -/

/-- The name itself, and behind it the numbers from one on. -/
def numbered (name : List Char) : Nat → List Char
  | 0 => name
  | k + 1 => name ++ '_' :: Nat.toDigits 10 (k + 1)

section

variable {name : List Char} (hname : splitNumber? name = none)

include hname

theorem splitNumber?_numbered (k : Nat) :
    splitNumber? (numbered name k) = if k = 0 then none else some (name, Nat.toDigits 10 k) := by
  cases k with
  | zero => exact hname
  | succ k => exact splitNumber?_toDigits name (k + 1)

theorem numbered_inj {name' : List Char} (hname' : splitNumber? name' = none) {j k : Nat} :
    numbered name j = numbered name' k ↔ name = name' ∧ j = k := by
  refine ⟨fun h => ?_, fun ⟨hsame, hnumber⟩ => by rw [hsame, hnumber]⟩
  have hsplit := congrArg splitNumber? h
  rw [splitNumber?_numbered hname, splitNumber?_numbered hname'] at hsplit
  cases j with
  | zero =>
    cases k with
    | zero => exact ⟨h, rfl⟩
    | succ k => cases hsplit
  | succ j =>
    cases k with
    | zero => cases hsplit
    | succ k =>
      rw [if_neg (Nat.succ_ne_zero j), if_neg (Nat.succ_ne_zero k), Option.some.injEq, Prod.mk.injEq] at hsplit
      refine ⟨hsplit.1, ?_⟩
      rw [← digitsValue_toDigits (j + 1), hsplit.2, digitsValue_toDigits]

theorem next_numbered {k : Nat} (hk : (Nat.toDigits 10 k).length ≤ maxDigits) :
    next (numbered name k) =
      if (Nat.toDigits 10 (k + 1)).length ≤ maxDigits then .ok (numbered name (k + 1)) else .error .writing := by
  cases k with
  | zero =>
    rw [numbered, next, hname]
    rfl
  | succ k =>
    rw [numbered, next, splitNumber?_toDigits]
    simp only [nextNumber, digitsValue_toDigits, if_neg (Nat.not_lt.mpr hk)]
    by_cases hnext : (Nat.toDigits 10 (k + 1 + 1)).length ≤ maxDigits
    · rw [if_neg (Nat.not_lt.mpr hnext), if_pos hnext]
      rfl
    · rw [if_pos (Nat.lt_of_not_le hnext), if_neg hnext]
      rfl

/-- While names are taken, the search goes on to the one with the next number. -/
theorem search_numbered {taken : List String} {result : Except LengthError (List Char)} {j k : Nat} (hjk : j ≤ k)
    (hk : k < 10 ^ maxDigits) (htaken : ∀ i, i < k → String.ofList (numbered name i) ∈ taken)
    (hend : Search taken (numbered name k) result) : Search taken (numbered name j) result := by
  induction hjk using Nat.decreasingInduction with
  | self => exact hend
  | of_succ i hi ih =>
    have hnext := next_numbered hname (length_toDigits_le_iff.mpr (Nat.lt_trans hi hk))
    rw [if_pos (length_toDigits_le_iff.mpr (Nat.lt_of_le_of_lt hi hk))] at hnext
    exact .further (htaken i hi) hnext ih

end

/-! ## Letters of texts -/

/-- The letters that the alias of a text begins with. -/
def letters (config : Config) (text : String) : List Char :=
  if (stem text).isEmpty then config.emptyAliasBase.toList else stem text

/-- How many texts have the letters that a text has. -/
def likes (config : Config) (texts : List String) (text : String) : Nat :=
  texts.countP fun other => letters config other == letters config text

theorem likes_append (config : Config) (texts : List String) (other text : String) :
    likes config (texts ++ [other]) text =
      likes config texts text + if letters config other = letters config text then 1 else 0 := by
  simp [likes, List.countP_append, List.countP_singleton]

/-- The alias of a text that comes after some others. -/
def aliasAfter (config : Config) (earlier : List String) (text : String) : String :=
  String.ofList (numbered (letters config text ++ config.aliasSuffix.toList) (likes config earlier text))

/-- Aliases consist of letters and underscores, before they get a number. -/
structure Wordy (config : Config) : Prop where
  base : config.NamedBase
  suffix : ∀ c ∈ config.aliasSuffix.toList, Config.isNameChar c

section

variable {config : Config} (hconfig : Wordy config)

include hconfig

theorem isNameChar_of_mem_candidate {text : String} {c : Char} (h : c ∈ candidate config text) :
    Config.isNameChar c := by
  rw [candidate, List.mem_append] at h
  rcases h with h | h
  · split at h
    · exact List.all_eq_true.mp hconfig.base c h
    · exact isNameChar_of_mem_stem h
  · exact hconfig.suffix c h

theorem splitNumber?_candidate (text : String) : splitNumber? (candidate config text) = none := by
  have hchars : ∀ c ∈ candidate config text, Config.isNameChar c := fun c hc => isNameChar_of_mem_candidate hconfig hc
  generalize candidate config text = name at hchars
  have hlast : name.getLast? ≠ some '\n' := fun hlast =>
    absurd (hchars _ (List.mem_of_getLast? hlast)) (by decide)
  have hdigits : name.reverse.takeWhile isDecimalDigit = [] := by
    cases hreverse : name.reverse with
    | nil => rfl
    | cons c rest =>
      have hc : c ∈ name := List.mem_reverse.mp (hreverse ▸ List.mem_cons_self)
      exact List.takeWhile_cons_of_neg (by rw [isDecimalDigit_of_isNameChar (hchars c hc)]; exact Bool.false_ne_true)
  simp only [splitNumber?, if_neg hlast, hdigits]
  rfl

/-- Numbered aliases are the same only if their letters and their numbers are. -/
theorem numbered_candidate_inj {text other : String} {j k : Nat} :
    numbered (candidate config text) j = numbered (candidate config other) k ↔
      letters config text = letters config other ∧ j = k := by
  rw [numbered_inj (splitNumber?_candidate hconfig text) (splitNumber?_candidate hconfig other)]
  exact and_congr_left' (List.append_left_inj _)

end

/-! ## Numbered tables -/

/-- Every alias has the number of earlier texts with the same letters. -/
inductive Numbered (config : Config) : List (String × String) → Prop where
  | nil : Numbered config []
  | snoc {entries : List (String × String)} (h : Numbered config entries) (text : String) :
    Numbered config (entries ++ [(text, aliasAfter config (entries.map Prod.fst) text)])

/-- The aliases with the letters of a text have the numbers up to how many texts have these letters. -/
theorem Numbered.mem_iff {config : Config} (hconfig : Wordy config) {entries : List (String × String)}
    (h : Numbered config entries) (text : String) (k : Nat) :
    String.ofList (numbered (candidate config text) k) ∈ entries.map Prod.snd ↔
      k < likes config (entries.map Prod.fst) text := by
  induction h with
  | nil => simp [likes]
  | @snoc entries _ other ih =>
    have hnew : String.ofList (numbered (candidate config text) k) = aliasAfter config (entries.map Prod.fst) other ↔
        letters config text = letters config other ∧ k = likes config (entries.map Prod.fst) other := by
      rw [aliasAfter, String.ofList_inj]
      exact numbered_candidate_inj hconfig
    rw [List.map_append, List.mem_append, ih, List.map_singleton, List.mem_singleton, hnew, List.map_append,
      List.map_singleton, likes_append]
    by_cases hletters : letters config text = letters config other
    · have hsame : likes config (entries.map Prod.fst) other = likes config (entries.map Prod.fst) text := by
        rw [likes, likes, hletters]
      rw [if_pos hletters.symm, hsame, and_iff_right hletters]
      omega
    · rw [if_neg (Ne.symm hletters)]
      simp [hletters]

/-- What alias a text gets is known before the table is searched. -/
theorem freshAlias_of_numbered {config : Config} (hconfig : Wordy config) {t : AliasTable}
    (ht : Numbered config t.entries) (text : String) :
    t.freshAlias config text =
      if likes config (t.entries.map Prod.fst) text < 10 ^ maxDigits then
        .ok (aliasAfter config (t.entries.map Prod.fst) text)
      else .error .writing := by
  have hname := splitNumber?_candidate hconfig text
  have hmem : ∀ k, String.ofList (numbered (candidate config text) k) ∈ t.aliases ↔ _ := ht.mem_iff hconfig text
  split
  · rename_i hroom
    have hsearch := search_numbered hname (Nat.zero_le _) hroom (fun i hi => (hmem i).mpr hi)
      (.free fun htaken => Nat.lt_irrefl _ ((hmem _).mp htaken))
    rw [freshAlias_of_search hsearch]
    rfl
  · rename_i hroom
    -- the search stops before the first number that is too long
    have hlast : 10 ^ maxDigits - 1 + 1 = 10 ^ maxDigits := Nat.sub_add_cancel (Nat.pow_pos (by decide))
    have hstuck : next (numbered (candidate config text) (10 ^ maxDigits - 1)) = .error .writing := by
      rw [next_numbered hname (length_toDigits_le_iff.mpr (by omega)), hlast, if_neg]
      exact fun h => Nat.lt_irrefl _ (length_toDigits_le_iff.mp h)
    have hsearch := search_numbered hname (Nat.zero_le _) (k := 10 ^ maxDigits - 1) (by omega)
      (fun i hi => (hmem i).mpr (by omega)) (.stuck ((hmem _).mpr (by omega)) hstuck)
    rw [freshAlias_of_search hsearch]
    rfl

theorem entries_insert_of_none {t : AliasTable} {text name : String} (h : t.find? text = none) :
    (t.insert text name).entries = t.entries ++ [(text, name)] := by
  obtain ⟨entries⟩ := t
  rw [find?, Option.map_eq_none_iff] at h
  simp only [insert] at h ⊢
  induction entries with
  | nil => rfl
  | cons entry rest ih =>
    obtain ⟨key, old⟩ := entry
    rw [List.find?_cons] at h
    rw [insertEntry]
    split at h
    · cases h
    · rename_i hkey
      rw [if_neg (by simpa using hkey), ih h, List.cons_append]

theorem Numbered.assigns {config : Config} (hconfig : Wordy config) {t t' : AliasTable} (ht : Numbered config t.entries)
    (h : Assigns config false t t') : Numbered config t'.entries := by
  obtain ⟨text, name, hnone, hassign⟩ := h
  rw [assign, freshAlias_of_numbered hconfig ht] at hassign
  split at hassign
  · cases hassign
    rw [entries_insert_of_none (hnone rfl)]
    exact ht.snoc text
  · cases hassign

/-- Aliases that are given to texts that have none are numbered. -/
theorem numbered_of_assigns {config : Config} (hconfig : Wordy config) {t : AliasTable}
    (h : ReflTransGen (Assigns config false) {} t) : Numbered config t.entries := by
  induction h with
  | refl => exact .nil
  | tail _ hstep ih => exact ih.assigns hconfig hstep

theorem Numbered.eq_aliasAfter {config : Config} {entries : List (String × String)} (h : Numbered config entries)
    {i : Nat} {text name : String} (hi : entries[i]? = some (text, name)) :
    name = aliasAfter config ((entries.take i).map Prod.fst) text := by
  induction h with
  | nil => cases hi
  | @snoc entries _ last ih =>
    rcases Nat.lt_or_ge i entries.length with hlt | hge
    · rw [List.getElem?_append_left hlt] at hi
      rw [List.take_append_of_le_length (Nat.le_of_lt hlt)]
      exact ih hi
    · rw [List.getElem?_append_right hge, List.getElem?_singleton] at hi
      split at hi
      · rename_i hlength
        cases hi
        rw [Nat.le_antisymm (Nat.le_of_sub_eq_zero hlength) hge, List.take_left]
      · cases hi

end AliasTable

/-! ## Sessions -/

namespace Session

open AliasTable

/-- A text that has no alias is given one, if there is one, before the expression is written out. -/
theorem step_aliased {s : Session} {name text : String} {ref : NodeRef} {d d' : Draft} (hd : s.draft? name = some d)
    (hsimple : (d.query.tree ref).isSimple = .ok false)
    (htext : ((s.context.scopeWith s.context d.query).canonicalText (d.query.tree ref)).run d = (.ok text, d'))
    (hnone : d.aliases.find? text = none) :
    ∃ d'', (s.step name (.aliased ref)).2.draft? name = some d'' ∧
      match d.aliases.assign s.context.config text with
      | .error e => d''.aliases = d.aliases ∧ (s.step name (.aliased ref)).1 = .error (.compile (.aliasNumber e))
      | .ok (given, table) => d''.aliases = table ∧ ∀ answer, (s.step name (.aliased ref)).1 = .ok answer →
        ∃ sql : Sql, answer = .str (sql.text ++ " AS " ++ given) := by
  have haliases := ((Scope.moves_canonicalText _ _).of_run htext).aliases
  have hrun := Scope.run_renderAliased hsimple htext
  rw [haliases, hnone, SessionM.config_scopeWith] at hrun
  rw [step, Step.run, SessionM.run_onTree hd ref Scope.renderAliased fun sql => .str sql.text, hrun]
  cases d.aliases.assign s.context.config text with
  | error e => exact ⟨d', draft?_withDraft_self hd d', haliases, rfl⟩
  | ok made =>
    obtain ⟨given, table⟩ := made
    dsimp only
    rcases hinside : ((s.context.scopeWith s.context d.query).render .bound (d.query.tree ref)).run
      { d' with aliases := table } with ⟨e | sql, d''⟩
    · have hextends := (Scope.moves_render _ _ _).of_run hinside
      rw [DraftM.run_bind, hinside]
      exact ⟨d'', draft?_withDraft_self hd d'', hextends.aliases, fun _ hanswer => by cases hanswer⟩
    · have hextends := (Scope.moves_render _ _ _).of_run hinside
      rw [DraftM.run_bind, hinside]
      refine ⟨d'', draft?_withDraft_self hd d'', hextends.aliases, fun answer hanswer => ⟨sql, ?_⟩⟩
      cases hanswer
      dsimp only
      rw [Sql.text_append, Sql.text_plain, String.append_assoc]

/-- As long as no fresh alias is asked for where there is one, the aliases of a query are numbered: each has the number
of the texts before its own that have the same letters, and none if there are no such texts. A text that comes in next
gets its alias in the same way, unless the number gets too long. -/
theorem aliases_numbered {registry : Registry} {schema : Value} {document : Option Value} {queries : Fields}
    {s : Session} (h : Session.start registry schema document queries = .ok s)
    (hsuffix : ∀ c ∈ s.context.config.aliasSuffix.toList, Config.isNameChar c) (steps : List (String × Step))
    {name : String} (hsteps : ∀ entry ∈ steps, entry.1 = name → entry.2.renews = false) {d : Draft}
    (hd : (s.after steps).draft? name = some d) :
    (∀ i text given, d.aliases.entries[i]? = some (text, given) →
        given = aliasAfter s.context.config ((d.aliases.entries.take i).map Prod.fst) text) ∧
      ∀ ref text d', (d.query.tree ref).isSimple = .ok false →
        ((s.context.scopeWith s.context d.query).canonicalText (d.query.tree ref)).run d = (.ok text, d') →
        d.aliases.find? text = none →
        ∃ d'', ((s.after steps).step name (.aliased ref)).2.draft? name = some d'' ∧
          (likes s.context.config (d.aliases.entries.map Prod.fst) text < 10 ^ Text.maxDigits →
            d''.aliases.entries = d.aliases.entries ++
              [(text, aliasAfter s.context.config (d.aliases.entries.map Prod.fst) text)] ∧
            ∀ answer, ((s.after steps).step name (.aliased ref)).1 = .ok answer →
              ∃ sql : Sql, answer =
                .str (sql.text ++ " AS " ++ aliasAfter s.context.config (d.aliases.entries.map Prod.fst) text)) ∧
          (10 ^ Text.maxDigits ≤ likes s.context.config (d.aliases.entries.map Prod.fst) text →
            d''.aliases = d.aliases ∧
              ((s.after steps).step name (.aliased ref)).1 = .error (.compile (.aliasNumber .writing))) := by
  obtain ⟨hnamed, hnew⟩ := aliases_start h
  obtain ⟨hcontext, hdrafts⟩ := s.assigns_after steps
  obtain ⟨d₀, hd₀, hassigns⟩ := hdrafts name d hd
  have hagain : (steps.any fun entry => entry.1 == name && entry.2.renews) = false := by
    rw [List.any_eq_false]
    intro entry hentry hrenews
    rw [Bool.and_eq_true, beq_iff_eq] at hrenews
    rw [hsteps entry hentry hrenews.1] at hrenews
    cases hrenews.2
  rw [Draft.Assigns, hnew name d₀ hd₀, hagain] at hassigns
  have hconfig : Wordy s.context.config := ⟨hnamed.base, hsuffix⟩
  have hnumbered := numbered_of_assigns hconfig hassigns
  refine ⟨fun i text given => hnumbered.eq_aliasAfter, fun ref text d' hsimple htext hnone => ?_⟩
  rw [← hcontext] at htext
  obtain ⟨d'', hd'', hstep⟩ := step_aliased hd hsimple htext hnone
  rw [hcontext, assign, freshAlias_of_numbered hconfig hnumbered] at hstep
  refine ⟨d'', hd'', fun hroom => ?_, fun hlong => ?_⟩
  · rw [if_pos hroom] at hstep
    obtain ⟨haliases, hanswer⟩ := hstep
    rw [haliases, entries_insert_of_none hnone]
    exact ⟨rfl, hanswer⟩
  · rw [if_neg (Nat.not_lt.mpr hlong)] at hstep
    exact hstep

/-- Four expressions with the same letters, and two without any. -/
def totals : Fields :=
  let operation (op : String) (left right : Int) : Value :=
    .object [("kind", .str "calc"), ("op", .str op), ("left", .int left), ("right", .int right)]
  [("totals", .object
    [("tables", .object [("table", .str "orders")]),
     ("nodes", .list
      [.object [("kind", .str "field"), ("name", .str "total")],
       .object [("kind", .str "value"), ("value", .int 1)],
       operation "+" 0 1, operation "*" 1 1, operation "*" 0 1, operation "-" 1 1, operation "/" 0 1,
       operation "-" 0 1])])]

/-- Five of them get aliases, and one is asked for again. -/
def totals.steps : List (String × Step) :=
  [2, 3, 4, 2, 5, 6].map fun i => ("totals", .aliased (.index i))

theorem aliases_numbered_totals :
    ∃ s d d'', Session.start .standard (.object [("tables", .list [])]) none totals = .ok s ∧
      (s.after totals.steps).draft? "totals" = some d ∧
      d.aliases.entries = [("total + 1", "total_alias"), ("1 * 1", "expr_alias"), ("total * 1", "total_alias_1"),
        ("1 - 1", "expr_alias_1"), ("total / 1", "total_alias_2")] ∧
      "total_alias_1" = aliasAfter s.context.config ["total + 1", "1 * 1"] "total * 1" ∧
      ((s.after totals.steps).step "totals" (.aliased (.index 7))).2.draft? "totals" = some d'' ∧
      d''.aliases.entries = d.aliases.entries ++ [("total - 1", "total_alias_3")] := by
  have heval : ((Session.start .standard (.object [("tables", .list [])]) none totals).toOption.bind fun s =>
      ((s.after totals.steps).draft? "totals").map fun d =>
        (s.context.config, d.aliases.entries, (d.query.tree (.index 7)).isSimple.toOption,
          (((s.context.scopeWith s.context d.query).canonicalText (d.query.tree (.index 7))).run d).1.toOption)) =
      some ({}, [("total + 1", "total_alias"), ("1 * 1", "expr_alias"), ("total * 1", "total_alias_1"),
        ("1 - 1", "expr_alias_1"), ("total / 1", "total_alias_2")], some false, some "total - 1") := by decide +kernel
  obtain ⟨s, hs, heval⟩ := Option.bind_eq_some_iff.mp heval
  obtain ⟨d, hd, heval⟩ := Option.map_eq_some_iff.mp heval
  simp only [Prod.mk.injEq] at heval
  obtain ⟨hconfig, hentries, hsimple, htext⟩ := heval
  have hstart := Except.eq_ok_of_toOption hs
  have hnone : d.aliases.find? "total - 1" = none := by
    rw [find?, hentries]
    decide
  have hsuffix : ∀ c ∈ s.context.config.aliasSuffix.toList, Config.isNameChar c := by
    rw [hconfig]
    exact List.all_eq_true.mp (by decide)
  obtain ⟨hearlier, hnext⟩ := aliases_numbered hstart hsuffix totals.steps (by decide +kernel) hd
  obtain ⟨d'', hd'', hroom, -⟩ := hnext (.index 7) "total - 1" _ (Except.eq_ok_of_toOption hsimple)
    (Prod.ext (Except.eq_ok_of_toOption htext) rfl) hnone
  have hthird := hearlier 2 "total * 1" "total_alias_1" (by rw [hentries]; rfl)
  have hlikes : likes s.context.config (d.aliases.entries.map Prod.fst) "total - 1" < 10 ^ 1 := by
    rw [hconfig, hentries]
    decide
  have halias : aliasAfter s.context.config (d.aliases.entries.map Prod.fst) "total - 1" = "total_alias_3" := by
    rw [hconfig, hentries]
    decide
  have hlast := (hroom (Nat.lt_of_lt_of_le hlikes (Nat.pow_le_pow_right (by decide) (by decide)))).1
  rw [halias] at hlast
  rw [hentries] at hthird
  exact ⟨s, d, d'', hstart, hd, hentries, hthird, hd'', hlast⟩

end Session

end ArenaSql
