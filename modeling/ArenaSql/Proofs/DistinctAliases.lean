import ArenaSql.Proofs.Loaded
import ArenaSql.Proofs.Names
import ArenaSql.Proofs.OneQuery
import Mathlib.Data.List.Nodup
import Mathlib.Data.Nat.Digits.Defs

/-!
# Distinct aliases

However a session goes on, no two texts of a query have the same alias, and every search for an alias ends. An alias is
a plain identifier unless the suffix that was configured is none, whatever text it is made from.
-/

namespace ArenaSql

open Relation

/-! ## Plain identifiers -/

namespace Text

/-- ASCII letters, digits and the underscore. -/
def isPlainChar (c : Char) : Bool :=
  Config.isNameChar c || c.isDigit

/-- An ASCII letter or underscore, and behind it ASCII letters, digits and underscores. -/
def isPlainIdentifier : List Char → Bool
  | [] => false
  | c :: rest => Config.isNameChar c && rest.all isPlainChar

theorem isPlainIdentifier_cons {c : Char} {rest : List Char} :
    isPlainIdentifier (c :: rest) ↔ Config.isNameChar c ∧ ∀ d ∈ rest, isPlainChar d := by
  rw [isPlainIdentifier, Bool.and_eq_true, List.all_eq_true]

theorem isPlainIdentifier_append {name more : List Char} (hname : isPlainIdentifier name)
    (hmore : ∀ c ∈ more, isPlainChar c) : isPlainIdentifier (name ++ more) := by
  cases name with
  | nil => cases hname
  | cons c rest =>
    obtain ⟨hc, hrest⟩ := isPlainIdentifier_cons.mp hname
    exact isPlainIdentifier_cons.mpr ⟨hc, List.forall_mem_append.mpr ⟨hrest, hmore⟩⟩

end Text

/-- What every configuration that is read from a document has: letters or underscores for aliases of expressions that
have none. -/
structure Config.Named (config : Config) : Prop where
  base : config.NamedBase
  nonempty : config.emptyAliasBase.toList ≠ []

namespace AliasTable

open Text

theorem isPlainIdentifier_candidate {config : Config} (hconfig : config.Named)
    (hsuffix : ∀ c ∈ config.aliasSuffix.toList, isPlainChar c) (text : String) :
    isPlainIdentifier (candidate config text) := by
  have hletters : ∀ {letters : List Char}, letters ≠ [] → (∀ c ∈ letters, Config.isNameChar c) →
      isPlainIdentifier letters := by
    intro letters hne hchars
    cases letters with
    | nil => exact absurd rfl hne
    | cons c rest =>
      obtain ⟨hc, hrest⟩ := List.forall_mem_cons.mp hchars
      exact isPlainIdentifier_cons.mpr ⟨hc, fun d hd => by rw [isPlainChar, hrest d hd, Bool.true_or]⟩
  rw [candidate]
  refine isPlainIdentifier_append ?_ hsuffix
  split
  · exact hletters hconfig.nonempty (List.all_eq_true.mp hconfig.base)
  · rename_i hstem
    exact hletters (by simpa using hstem) fun c hc => isNameChar_of_mem_stem hc

theorem isPlainIdentifier_next {name other : List Char} (hname : isPlainIdentifier name) (h : next name = .ok other) :
    isPlainIdentifier other := by
  obtain ⟨-, rfl⟩ | ⟨before, digits, hsplit, rfl⟩ := next_eq_ok h
  · exact isPlainIdentifier_append hname (List.all_eq_true.mp (by decide))
  · have hnumber : ∀ c ∈ Nat.toDigits 10 (digitsValue digits + 1), isPlainChar c := fun c hc => by
      rw [isPlainChar, Nat.isDigit_of_mem_toDigits (by decide) (by decide) hc, Bool.or_true]
    obtain ⟨rest, rfl⟩ := prefix_of_splitNumber? hsplit
    cases before with
    | nil => exact isPlainIdentifier_cons.mpr ⟨by decide, hnumber⟩
    | cons c more =>
      obtain ⟨hc, hmore⟩ := isPlainIdentifier_cons.mp hname
      refine isPlainIdentifier_append (isPlainIdentifier_cons.mpr ⟨hc, fun d hd => hmore d ?_⟩)
        (List.forall_mem_cons.mpr ⟨by decide, hnumber⟩)
      exact List.mem_append_left rest hd

/-! ## Tables -/

variable {t t' : AliasTable} {config : Config} {text name : String}

theorem nodup_aliases_insert (h : t.aliases.Nodup) (hname : name ∉ t.aliases) : (t.insert text name).aliases.Nodup := by
  obtain ⟨entries⟩ := t
  simp only [insert, aliases] at h hname ⊢
  induction entries with
  | nil => exact List.nodup_singleton _
  | cons entry rest ih =>
    obtain ⟨key, old⟩ := entry
    rw [List.map_cons, List.nodup_cons] at h
    rw [List.map_cons, List.mem_cons, not_or] at hname
    rw [insertEntry]
    split
    · exact List.nodup_cons.mpr ⟨hname.2, h.2⟩
    · refine List.nodup_cons.mpr ⟨fun hold => ?_, ih h.2 hname.2⟩
      rcases mem_aliases_insert (t := ⟨rest⟩) hold with heq | hmem
      · exact hname.1 heq.symm
      · exact h.1 hmem

/-- Texts that have the same alias are the same. -/
theorem eq_of_find? (h : t.aliases.Nodup) {other : String} (htext : t.find? text = some name)
    (hother : t.find? other = some name) : text = other := by
  obtain ⟨⟨key, found⟩, hkey, rfl⟩ := Option.map_eq_some_iff.mp htext
  obtain ⟨⟨key', found'⟩, hkey', heq⟩ := Option.map_eq_some_iff.mp hother
  have hsame := List.inj_on_of_nodup_map h (List.mem_of_find?_eq_some hkey) (List.mem_of_find?_eq_some hkey') heq.symm
  have hfirst : key = text := by simpa using List.find?_some hkey
  have hsecond : key' = other := by simpa using List.find?_some hkey'
  rw [← hfirst, ← hsecond]
  exact congrArg Prod.fst hsame

/-- No two texts have the same alias, and with a plain suffix all aliases are plain identifiers. -/
structure Distinct (config : Config) (t : AliasTable) : Prop where
  nodup : t.aliases.Nodup
  plain : (∀ c ∈ config.aliasSuffix.toList, isPlainChar c) → ∀ name ∈ t.aliases, isPlainIdentifier name.toList

theorem Distinct.assigns {again : Bool} (hconfig : config.Named) (ht : t.Distinct config)
    (h : Assigns config again t t') : t'.Distinct config := by
  obtain ⟨text, name, -, hassign⟩ := h
  obtain ⟨found, hfound, heq⟩ := Except.map_eq_ok_iff.mp hassign
  cases heq
  refine ⟨nodup_aliases_insert ht.nodup (assign_eq_ok hassign).2, fun hsuffix other hother => ?_⟩
  rcases mem_aliases_insert hother with rfl | hother
  · exact (search_of_freshAlias hfound).passes_on isPlainIdentifier_next (isPlainIdentifier_candidate hconfig hsuffix text)
  · exact ht.plain hsuffix other hother

theorem distinct_of_assigns {again : Bool} (hconfig : config.Named)
    (h : ReflTransGen (Assigns config again) {} t) : t.Distinct config := by
  induction h with
  | refl => exact ⟨List.nodup_nil, fun _ _ hmem => by cases hmem⟩
  | tail _ hstep ih => exact ih.assigns hconfig hstep

/-! ## Room for another number -/

/-- The number at the end, if there is one, is not too long to be read. -/
def Fits (name : List Char) : Prop :=
  ∀ before digits, splitNumber? name = some (before, digits) → digits.length ≤ maxDigits

theorem fits_toDigits {before : List Char} {n : Nat} (h : (Nat.toDigits 10 n).length ≤ maxDigits) :
    Fits (before ++ '_' :: Nat.toDigits 10 n) := by
  intro before' digits' hsplit
  rw [splitNumber?_toDigits] at hsplit
  cases hsplit
  exact h

/-- The numbers that are tried go up by one. -/
theorem exists_next {name : List Char} (hfits : Fits name) (hroom : max 1 (rank name) < 10 ^ maxDigits) :
    ∃ other, next name = .ok other ∧ Fits other ∧ rank other = max 1 (rank name) + 1 := by
  cases hsplit : splitNumber? name with
  | none =>
    have hnext : next name = .ok (name ++ '_' :: Nat.toDigits 10 1) := by rw [next, hsplit]; rfl
    have hrank : rank name = 0 := by rw [rank, hsplit]
    refine ⟨_, hnext, fits_toDigits (by decide), ?_⟩
    rw [rank_toDigits, hrank]
    rfl
  | some found =>
    obtain ⟨before, digits⟩ := found
    have hrank : max 1 (rank name) = digitsValue digits + 1 := by
      rw [rank, hsplit]
      exact max_eq_right (Nat.le_add_left 1 _)
    rw [hrank] at hroom ⊢
    have hlength : (Nat.toDigits 10 (digitsValue digits + 1)).length ≤ maxDigits :=
      Nat.toDigits_length 10 _ _ (by decide) hroom
    refine ⟨before ++ '_' :: Nat.toDigits 10 (digitsValue digits + 1), ?_, fits_toDigits hlength, rank_toDigits _ _⟩
    rw [next, hsplit]
    simp only [nextNumber, if_neg (Nat.not_lt.mpr (hfits before digits hsplit)), if_neg (Nat.not_lt.mpr hlength)]
    rfl

theorem exists_freeFrom (n : Nat) (taken : List String) {name : List Char} (hfits : Fits name)
    (hroom : max 1 (rank name) + n ≤ 10 ^ maxDigits) : ∃ free, freeFrom n taken name = .ok free := by
  induction n generalizing taken name with
  | zero => exact ⟨name, rfl⟩
  | succ n ih =>
    rw [freeFrom]
    split
    · obtain ⟨other, hnext, hother, hrank⟩ := exists_next hfits (by omega)
      rw [hnext]
      exact ih _ hother (by omega)
    · exact ⟨name, rfl⟩

end AliasTable

/-! ## Sessions -/

/-- A configuration that is read has a base for aliases. -/
theorem Config.named_of_load {document : Option Value} {config : Config} (h : Config.load {} document = .ok config) :
    config.Named := by
  have hname : ∀ v, (nameText v).All fun s => s.toList.all isNameChar ∧ s.toList ≠ [] := by
    intro v s hs
    cases v with
    | str given =>
      rw [nameText] at hs
      split at hs
      · rename_i hgiven
        cases hs
        rw [Bool.and_eq_true] at hgiven
        exact ⟨hgiven.2, by simpa using hgiven.1⟩
      · cases hs
    | _ => cases hs
  have hread : ∀ v, (Config.ofValue v).All Config.Named := by
    intro v
    cases v with
    | object fields =>
      rw [Config.ofValue, Decode.record]
      refine .seqLeft (.seq (.seq (.seq ?_)))
      refine .seq (.map fun _ _ _ _ => ?_)
      refine (Decode.all_optional hname fields "empty_alias_base" ⟨by decide, by decide⟩).imp ?_
      exact fun base hbase _ _ _ _ => ⟨hbase.1, hbase.2⟩
    | _ => exact fun _ hc => by cases hc
  cases document with
  | none =>
    cases h
    exact ⟨rfl, by decide⟩
  | some v =>
    rw [Config.load] at h
    cases hv : Config.ofValue v with
    | bad issues => rw [hv] at h; cases h
    | ok found =>
      rw [hv] at h
      cases h
      exact hread v config hv

namespace Session

/-- A session starts with a configuration that was read, and without aliases. -/
theorem aliases_start {registry : Registry} {schema : Value} {document : Option Value} {queries : Fields} {s : Session}
    (h : Session.start registry schema document queries = .ok s) :
    s.context.config.Named ∧ ∀ name d, s.draft? name = some d → d.aliases = {} := by
  obtain ⟨schema, -, h⟩ := Except.bind_eq_ok_iff.mp h
  obtain ⟨config, hconfig, h⟩ := Except.bind_eq_ok_iff.mp h
  obtain ⟨context, hcontext, h⟩ := Except.bind_eq_ok_iff.mp h
  obtain ⟨drafts, hdrafts, h⟩ := Except.bind_eq_ok_iff.mp h
  cases h
  constructor
  · have hsame : context.config = config := by
      rw [Registry.context] at hcontext
      cases hdialect : registry.dialect config.dialect with
      | error e => rw [hdialect] at hcontext; cases hcontext
      | ok dialect => rw [hdialect] at hcontext; cases hcontext; rfl
    rw [hsame]
    exact Config.named_of_load hconfig
  · have hfresh : ∀ entry ∈ drafts, entry.2.aliases = {} := by
      refine Except.forall_mem_of_mapM (fun item entry hentry => ?_) hdrafts
      obtain ⟨query, -, hlast⟩ := Except.bind_eq_ok_iff.mp hentry
      cases hlast
      rfl
    intro name d hd
    obtain ⟨entry, hentry, rfl⟩ := Option.map_eq_some_iff.mp hd
    exact hfresh entry (List.mem_of_find?_eq_some hentry)

/-- The aliases of a query after some steps were given one after another. -/
theorem assigns_after (s : Session) (steps : List (String × Step)) :
    (s.after steps).context = s.context ∧ ∀ name d', (s.after steps).draft? name = some d' →
      ∃ d, s.draft? name = some d ∧
        d.Assigns s.context.config (steps.any fun entry => entry.1 == name && entry.2.renews) d' := by
  induction steps generalizing s with
  | nil => exact ⟨rfl, fun name d hd => ⟨d, hd, .refl⟩⟩
  | cons entry rest ih =>
    obtain ⟨other, step⟩ := entry
    obtain ⟨hcontext, hdrafts⟩ := Edit.assigns (s.edits_step other step)
    obtain ⟨hcontext', hdrafts'⟩ := ih (s.step other step).2
    refine ⟨hcontext'.trans hcontext, fun name d' hd' => ?_⟩
    obtain ⟨d₁, hd₁, hrest⟩ := hdrafts' name d' hd'
    obtain ⟨d, hd, hfirst⟩ := hdrafts name d₁ hd₁
    rw [hcontext] at hrest
    refine ⟨d, hd, (hfirst.mono fun h => ?_).trans (hrest.mono fun h => ?_)⟩
    · rw [List.any_cons, h, Bool.true_or]
    · rw [List.any_cons, h, Bool.or_true]

/-- A fresh alias that is asked for is looked up in the table as it is then. -/
theorem step_freshAlias {s : Session} {name text : String} {ref : NodeRef} {d d' : Draft} (hd : s.draft? name = some d)
    (htext : ((s.context.scopeWith s.context d.query).canonicalText (d.query.tree ref)).run d = (.ok text, d')) :
    (s.step name (.freshAlias ref)).1 =
      ((d.aliases.freshAlias s.context.config text).map .str).mapError fun e => .compile (.aliasNumber e) := by
  rw [step_freshAlias_eq hd htext, AliasTable.assign]
  cases d.aliases.freshAlias s.context.config text <;> rfl

/-- Whatever is asked of the queries of a session, and however they are edited in between, no two texts of a query have
the same alias, aliases are plain identifiers unless the suffix is none, and every search for a fresh alias ends. It
finds one unless numbers get too long. -/
theorem aliases_injective {registry : Registry} {schema : Value} {document : Option Value} {queries : Fields}
    {s : Session} (h : Session.start registry schema document queries = .ok s) (steps : List (String × Step))
    {name : String} {d : Draft} (hd : (s.after steps).draft? name = some d) :
    d.aliases.aliases.Nodup ∧
      (∀ text other given, d.aliases.find? text = some given → d.aliases.find? other = some given → text = other) ∧
      ((∀ c ∈ s.context.config.aliasSuffix.toList, Text.isPlainChar c) →
        ∀ given ∈ d.aliases.aliases, Text.isPlainIdentifier given.toList) ∧
      ∀ ref text d', ((s.context.scopeWith s.context d.query).canonicalText (d.query.tree ref)).run d = (.ok text, d') →
        ∃ result, (∀ found, AliasTable.Search d.aliases.aliases (AliasTable.candidate s.context.config text) found ↔
            found = result) ∧
          ((s.after steps).step name (.freshAlias ref)).1 =
            (result.map fun free => Value.str (String.ofList free)).mapError (fun e => .compile (.aliasNumber e)) ∧
          (AliasTable.Fits (AliasTable.candidate s.context.config text) →
            AliasTable.rank (AliasTable.candidate s.context.config text) + d.aliases.aliases.length <
              10 ^ Text.maxDigits → result.isOk) := by
  obtain ⟨hconfig, hnew⟩ := aliases_start h
  obtain ⟨hcontext, hdrafts⟩ := s.assigns_after steps
  obtain ⟨d₀, hd₀, hassigns⟩ := hdrafts name d hd
  rw [Draft.Assigns, hnew name d₀ hd₀] at hassigns
  have hdistinct := AliasTable.distinct_of_assigns hconfig hassigns
  refine ⟨hdistinct.nodup, fun _ _ _ => AliasTable.eq_of_find? hdistinct.nodup, hdistinct.plain, ?_⟩
  intro ref text d' htext
  have hsearch := AliasTable.search_freeFrom d.aliases.aliases (AliasTable.candidate s.context.config text)
  refine ⟨_, fun found => ⟨fun hfound => hfound.unique hsearch, fun heq => heq ▸ hsearch⟩, ?_, fun hfits hroom => ?_⟩
  · rw [← hcontext] at htext
    rw [step_freshAlias hd htext, hcontext, AliasTable.freshAlias_of_search hsearch]
    cases AliasTable.freeFrom d.aliases.aliases.length d.aliases.aliases _ <;> rfl
  · obtain ⟨free, hfree⟩ := AliasTable.exists_freeFrom d.aliases.aliases.length d.aliases.aliases hfits (by omega)
    rw [hfree]
    rfl

/-- Two sums, of which the second comes about by an edit, and a call with a literal. -/
def sums : Fields :=
  [("sums", .object
    [("tables", .object [("table", .str "orders")]),
     ("nodes", .list
      [.object [("kind", .str "field"), ("name", .str "total")],
       .object [("kind", .str "value"), ("value", .int 1)],
       .object [("kind", .str "calc"), ("op", .str "+"), ("left", .int 0), ("right", .int 1)],
       .object [("kind", .str "value"), ("value", .str "x'; DROP é 7")],
       .object [("kind", .str "func"), ("func", .str "left"), ("args", .list [.int 3, .int 1])]])])]

/-- A sum is given an alias twice, and the first of the two goes to another sum. -/
def sums.steps : List (String × Step) :=
  [("sums", .freshAlias (.index 2)), ("sums", .freshAlias (.index 2)), ("sums", .setNode (.index 1) "value" (.int 20)),
    ("sums", .aliased (.index 2)), ("sums", .aliasOf (.index 2)), ("sums", .aliased (.index 4))]

theorem aliases_injective_sums :
    ∃ s d, Session.start .standard (.object [("tables", .list [])]) (some (.object [("alias_suffix", .str "_1")])) sums =
        .ok s ∧
      (s.after sums.steps).draft? "sums" = some d ∧
      d.aliases.entries = [("total + 1", "total_2"), ("total + 20", "total_1"),
        ("left('x\'\'; DROP é 7', 20)", "left__x____DROP_1")] ∧
      d.aliases.aliases.Nodup ∧ (∀ given ∈ d.aliases.aliases, Text.isPlainIdentifier given.toList) ∧
      ∃ result, (∀ found, AliasTable.Search d.aliases.aliases "total_1".toList found ↔ found = result) ∧
        ((s.after sums.steps).step "sums" (.freshAlias (.index 2))).1 =
          (result.map fun free => Value.str (String.ofList free)).mapError fun e => .compile (.aliasNumber e) := by
  have heval : ((Session.start .standard (.object [("tables", .list [])])
      (some (.object [("alias_suffix", .str "_1")])) sums).toOption.bind fun s =>
        ((s.after sums.steps).draft? "sums").map fun d =>
          (s.context.config.aliasSuffix, AliasTable.candidate s.context.config "total + 20", d.aliases.entries,
            (((s.context.scopeWith s.context d.query).canonicalText (d.query.tree (.index 2))).run d).1.toOption)) =
      some ("_1", "total_1".toList, [("total + 1", "total_2"), ("total + 20", "total_1"),
        ("left('x\'\'; DROP é 7', 20)", "left__x____DROP_1")], some "total + 20") := by decide +kernel
  obtain ⟨s, hs, heval⟩ := Option.bind_eq_some_iff.mp heval
  obtain ⟨d, hd, heval⟩ := Option.map_eq_some_iff.mp heval
  simp only [Prod.mk.injEq] at heval
  obtain ⟨hsuffix, hcandidate, hentries, htext⟩ := heval
  have hstart := Except.eq_ok_of_toOption hs
  obtain ⟨hnodup, -, hplain, hsearch⟩ := aliases_injective hstart sums.steps hd
  obtain ⟨result, hresult, hstep, -⟩ := hsearch (.index 2) "total + 20" _ (Prod.ext (Except.eq_ok_of_toOption htext) rfl)
  rw [hcandidate] at hresult
  refine ⟨s, d, hstart, hd, hentries, hnodup, hplain ?_, result, hresult, hstep⟩
  rw [hsuffix]
  exact List.all_eq_true.mp (by decide)

end Session

end ArenaSql
