import ArenaSql.Proofs.Loaded

/-!
# Loading what was dumped

Reading a document is lenient, but what was read is written strictly: a field that was left out is written with its
default, and a number that was a numeral is written as a number. Each decoder accepts what is written of anything it
decoded, and gives it back. This goes from scalars to records and lists, and by the depth of the document to queries
in queries.
-/

namespace ArenaSql

open Decode

/-! ## Checked results -/

namespace Checked

variable {α β : Type}

@[simp] theorem map_ok (f : α → β) (a : α) : f <$> (.ok a : Checked α) = .ok (f a) := rfl

@[simp] theorem ok_seq_ok (f : α → β) (a : α) : (.ok f : Checked (α → β)) <*> .ok a = .ok (f a) := rfl

@[simp] theorem ok_seqLeft_ok (a : α) (b : β) : (.ok a : Checked α) <* .ok b = .ok a := rfl

@[simp] theorem pure_eq_ok (a : α) : (pure a : Checked α) = .ok a := rfl

@[simp] theorem under_ok (step : PathStep) (a : α) : (.ok a : Checked α).under step = .ok a := rfl

theorem all_ok {p : α → Prop} {a : α} : (ok a).All p ↔ p a :=
  ⟨fun h => h a rfl, fun h _ heq => by cases heq; exact h⟩

theorem all_bad {p : α → Prop} {issues : List Issue} : (bad issues).All p :=
  fun _ heq => by cases heq

end Checked

/-! ## Scalars -/

namespace Decode

variable {α : Type}

/-- Whatever is decoded can be written, and decoded again it is the same. -/
def Settles (decode : Value → Checked α) (encode : α → Value) : Prop :=
  ∀ v, (decode v).All fun a => decode (encode a) = .ok a

theorem settles_text : Settles text .str :=
  fun _ _ _ => rfl

/-- Choices are written by their spellings, no two of which are the same. -/
theorem settles_choice {all : List α} {spelling : α → String} {encode : α → Value}
    (h : ∀ a ∈ all, encode a = .str (spelling a) ∧ all.find? (spelling · == spelling a) = some a) :
    Settles (choice all spelling) encode := by
  intro v a ha
  unfold choice at ha
  split at ha
  · split at ha
    · rename_i hfind
      cases ha
      obtain ⟨hencode, hself⟩ := h a (List.mem_of_find?_eq_some hfind)
      simp only [hencode, choice, hself]
    · cases ha
  · cases ha

theorem Settles.nullable {decode : Value → Checked α} {encode : α → Value} (h : Settles decode encode)
    (hnull : ∀ v, (decode v).All fun a => encode a ≠ .null) : Settles (nullable decode) (.ofOption encode) := by
  intro v
  have hsome : (some <$> decode v).All fun found => Decode.nullable decode (.ofOption encode found) = .ok found := by
    refine .map fun a hv => ?_
    change Decode.nullable decode (encode a) = .ok (some a)
    rw [Decode.nullable, h v a hv]
    · rfl
    · exact hnull v a hv
  cases v with
  | null => exact Checked.all_ok.mpr rfl
  | _ => exact hsome

/-! ## Lists and mappings -/

theorem items_map {decode : Value → Checked α} {encode : α → Value} {as : List α}
    (h : ∀ a ∈ as, decode (encode a) = .ok a) (index : Nat) : items decode index (as.map encode) = .ok as := by
  induction as generalizing index with
  | nil => rfl
  | cons a rest ih =>
    obtain ⟨ha, hrest⟩ := List.forall_mem_cons.mp h
    rw [List.map_cons, items, ha, ih hrest]
    rfl

theorem Settles.list {decode : Value → Checked α} {encode : α → Value} (h : Settles decode encode) :
    Settles (list decode) (.ofList encode) :=
  fun v => (all_list h v).imp fun _ has => items_map has 0

/-- A list that may be left out, and is empty then. -/
theorem Settles.optional_list {decode : Value → Checked α} {encode : α → Value} (h : Settles decode encode)
    (fields : Fields) (name : String) :
    (Decode.optional fields name [] (Decode.list decode)).All fun as =>
      Decode.list decode (.ofList encode as) = .ok as :=
  all_optional h.list fields name rfl

/-- A part that may be left out or null. -/
theorem Settles.optional_nullable {decode : Value → Checked α} {encode : α → Value}
    (h : Settles (Decode.nullable decode) (.ofOption encode)) (fields : Fields) (name : String) :
    (Decode.optional fields name none (Decode.nullable decode)).All fun found =>
      Decode.nullable decode (.ofOption encode found) = .ok found :=
  all_optional h fields name rfl

theorem Settles.mapping {decode : Value → Checked α} {encode : α → Value} (h : Settles decode encode) :
    Settles (mapping decode) (fun entries => .object (entries.map fun (name, a) => (name, encode a))) := by
  have hentries : ∀ fields, (entries decode fields).All fun found =>
      entries decode (found.map fun (name, a) => (name, encode a)) = .ok found := by
    intro fields
    induction fields with
    | nil => exact Checked.all_ok.mpr rfl
    | cons field rest ih =>
      obtain ⟨name, v⟩ := field
      rw [entries]
      refine .seq (.map (((h v).under _).imp fun a ha => ih.imp fun more hmore => ?_))
      rw [List.map_cons, entries, ha, hmore]
      rfl
  intro v
  cases v with
  | object fields => exact hentries fields
  | _ => exact Checked.all_bad

theorem noOthers_eq_ok {known : List String} {fields : Fields} (h : ∀ field ∈ fields, field.1 ∈ known) :
    noOthers known fields = .ok () := by
  have hnone : (fields.filter fun field => !known.contains field.1) = [] := by
    simpa [List.filter_eq_nil_iff] using fun name v hfield => h (name, v) hfield
  unfold noOthers
  rw [hnone]

end Decode

/-! ## Parts of a query -/

theorem settles_nullable_text : Settles (nullable text) (.ofOption .str) :=
  settles_text.nullable fun _ _ _ => nofun

theorem NodeRef.settles_ofValue : Settles NodeRef.ofValue NodeRef.toValue :=
  fun _ => .map fun _ _ => rfl

theorem NodeRef.settles_nullable : Settles (nullable NodeRef.ofValue) (.ofOption NodeRef.toValue) :=
  NodeRef.settles_ofValue.nullable fun _ => .map fun _ _ => nofun

theorem RecordIndex.settles_nullable :
    Settles (nullable fun v => .whole <$> integer v) (.ofOption RecordIndex.toValue) :=
  Settles.nullable (fun _ => .map fun _ _ => rfl) fun _ => .map fun _ _ => nofun

theorem CalcOp.settles_choice : Settles (choice CalcOp.all CalcOp.text) CalcOp.toValue :=
  Decode.settles_choice (by decide +kernel)

theorem CmpOp.settles_choice : Settles (choice CmpOp.all CmpOp.text) CmpOp.toValue :=
  Decode.settles_choice (by decide +kernel)

theorem CondOp.settles_choice : Settles (choice CondOp.all CondOp.text) CondOp.toValue :=
  Decode.settles_choice (by decide +kernel)

theorem Direction.settles_choice : Settles (choice Direction.all Direction.text) Direction.toValue :=
  Decode.settles_choice (by decide +kernel)

theorem Embedding.settles_choice : Settles (choice Embedding.all Embedding.text) Embedding.toValue :=
  Decode.settles_choice (by decide +kernel)

theorem JoinType.settles_ofValue : Settles JoinType.ofValue fun type => .str type.text :=
  Decode.settles_choice (by decide +kernel)

theorem Join.settles_ofValue : Settles Join.ofValue Join.toValue := by
  intro v
  cases v with
  | object fields =>
    refine .seqLeft ?_
    iterate 4 refine .seq ?_
    refine .map fun lookup _ table _ fromCol _ toCol _ => ?_
    refine (all_optional JoinType.settles_ofValue fields "type" rfl).imp fun type htype => ?_
    simp [Join.toValue, Join.ofValue, record, required, Decode.optional, noOthers, Fields.get?, text, htype]
  | _ => exact Checked.all_bad

theorem Sources.settles_ofValue : Settles Sources.ofValue Sources.toValue := by
  intro v
  cases v with
  | object fields =>
    refine .seqLeft ?_
    iterate 2 refine .seq ?_
    refine .map fun table _ => ?_
    refine (settles_nullable_text.optional_nullable fields "alias").imp fun aliasName hname => ?_
    refine (Join.settles_ofValue.optional_list fields "joins").imp fun joins hjoins => ?_
    simp [Sources.toValue, Sources.ofValue, record, required, Decode.optional, noOthers, Fields.get?, text, hname, hjoins]
  | _ => exact Checked.all_bad

/-! ## Nodes -/

namespace Value

theorem depth_le_depthItems {v : Value} {items : List Value} (h : v ∈ items) : v.depth ≤ depthItems items := by
  induction items with
  | nil => cases h
  | cons w rest ih =>
    rw [depthItems]
    rcases List.mem_cons.mp h with rfl | h
    · exact Nat.le_max_left _ _
    · exact Nat.le_trans (ih h) (Nat.le_max_right _ _)

theorem depth_le_depthFields {name : String} {v : Value} {fields : Fields} (h : (name, v) ∈ fields) :
    v.depth ≤ depthFields fields := by
  induction fields with
  | nil => cases h
  | cons field rest ih =>
    obtain ⟨other, w⟩ := field
    rw [depthFields]
    rcases List.mem_cons.mp h with heq | h
    · cases heq
      exact Nat.le_max_left _ _
    · exact Nat.le_trans (ih h) (Nat.le_max_right _ _)

end Value

theorem nodesToValues_eq_map (nodes : List Node) : nodesToValues nodes = nodes.map Node.toValue := by
  induction nodes with
  | nil => rw [nodesToValues, List.map_nil]
  | cons node rest ih => rw [nodesToValues, List.map_cons, ih]

section

variable {nested nested' : Value → Checked Query} {k : Nat}

/-- A node is read back if its content is. -/
theorem Node.ofValueWith_toValue {aliasName : Option String} {expr : Expr} {kind : String} {members : Fields}
    {decode : Fields → Checked Expr} (hname : nullable text (.ofOption .str aliasName) = .ok aliasName)
    (hvalue : toValue { aliasName, expr } =
      .object (("alias", .ofOption .str aliasName) :: ("kind", .str kind) :: members))
    (hreader : reader? nested kind = some (ofFields (members.map (·.1)) decode))
    (hdecode : decode (("alias", .ofOption .str aliasName) :: ("kind", .str kind) :: members) = .ok expr) :
    ofValueWith nested (toValue { aliasName, expr }) = .ok { aliasName, expr } := by
  have hothers : noOthers (nodeFields ++ members.map (·.1))
      (("alias", .ofOption .str aliasName) :: ("kind", .str kind) :: members) = .ok () := by
    refine noOthers_eq_ok fun field hfield => ?_
    rcases List.mem_cons.mp hfield with rfl | hfield
    · simp [nodeFields]
    · rcases List.mem_cons.mp hfield with rfl | hfield
      · simp [nodeFields]
      · exact List.mem_append_right _ (List.mem_map_of_mem hfield)
  rw [hvalue]
  simp [ofValueWith, Fields.get?, hreader, ofFields, Decode.optional, hname, hdecode, hothers]

variable (hnested : ∀ v, (nested v).All fun q => q.toValue.depth < k → nested' q.toValue = .ok q)

include hnested

theorem Node.readsBack_reader? {kind : String} {read : Fields → Checked Node} (hread : reader? nested kind = some read)
    (fields : Fields) :
    (read fields).All fun node => node.toValue.depth ≤ k → Node.ofValueWith nested' node.toValue = .ok node := by
  have hnames := settles_nullable_text.optional_nullable fields "alias"
  have hargs := NodeRef.settles_ofValue.optional_list fields "args"
  unfold reader? at hread
  -- one case for each kind; only a subquery needs the bound on the depth
  split at hread <;> cases hread <;> refine .seqLeft (.seq (.map (hnames.imp fun aliasName hname => ?_)))
  · refine .map (.seq (.seq (.map fun name _ => ?_)))
    refine (settles_nullable_text.optional_nullable fields "table").imp fun table htable resolved _ _ => ?_
    refine Node.ofValueWith_toValue hname rfl rfl ?_
    simp [Field.ofFields, Field.members, FieldName.toValue, required, Decode.optional, Fields.get?, text, htable,
      Decode.bool]
  · refine .map fun v _ _ => Node.ofValueWith_toValue hname rfl rfl ?_
    simp [Decode.optional, Fields.get?]
  · refine .seq (.map fun func _ => hargs.imp fun args hargs _ => Node.ofValueWith_toValue hname rfl rfl ?_)
    simp [required, Decode.optional, Fields.get?, text, hargs]
  · refine .seq (.seq (.map ?_))
    refine (all_required CalcOp.settles_choice fields "op").imp fun op hop => ?_
    refine (all_required NodeRef.settles_ofValue fields "left").imp fun left hleft => ?_
    refine (all_required NodeRef.settles_ofValue fields "right").imp fun right hright _ => ?_
    refine Node.ofValueWith_toValue hname rfl rfl ?_
    simp [required, Fields.get?, hop, hleft, hright]
  · refine .seq (.seq (.map ?_))
    refine (all_required CmpOp.settles_choice fields "op").imp fun op hop => ?_
    refine (all_required NodeRef.settles_ofValue fields "left").imp fun left hleft => ?_
    refine (all_required NodeRef.settles_ofValue fields "right").imp fun right hright _ => ?_
    refine Node.ofValueWith_toValue hname rfl rfl ?_
    simp [required, Fields.get?, hop, hleft, hright]
  · refine .seq (.map ?_)
    refine (all_optional CondOp.settles_choice fields "op" rfl).imp fun op hop => hargs.imp fun args hargs _ => ?_
    refine Node.ofValueWith_toValue hname rfl rfl ?_
    simp [Decode.optional, Fields.get?, hop, hargs]
  · refine .seq (.map ?_)
    refine (all_required NodeRef.settles_ofValue fields "expr").imp fun expr hexpr => ?_
    refine (all_optional Direction.settles_choice fields "direction" rfl).imp fun direction hdirection _ => ?_
    refine Node.ofValueWith_toValue hname rfl rfl ?_
    simp [required, Decode.optional, Fields.get?, hexpr, hdirection]
  · refine .map (hargs.imp fun args hargs _ => Node.ofValueWith_toValue hname rfl rfl ?_)
    simp [Decode.optional, Fields.get?, hargs]
  · refine .seq (.map ?_)
    refine (all_required hnested fields "query").imp fun query hquery => ?_
    refine (all_optional Embedding.settles_choice fields "mode" rfl).imp fun mode hmode hdepth => ?_
    have hinside : query.toValue.depth < k :=
      Nat.lt_of_lt_of_le (Nat.lt_succ_of_le (Value.depth_le_depthFields
        (List.mem_cons_of_mem _ (List.mem_cons_of_mem _ List.mem_cons_self)))) hdepth
    refine Node.ofValueWith_toValue hname rfl rfl ?_
    simp [required, Decode.optional, Fields.get?, hquery hinside, hmode]

theorem Node.readsBack_ofValueWith (v : Value) : (Node.ofValueWith nested v).All fun node =>
    node.toValue.depth ≤ k → Node.ofValueWith nested' node.toValue = .ok node := by
  unfold ofValueWith
  split
  · split
    · exact Checked.all_bad
    · split
      · rename_i read hread
        exact (Node.readsBack_reader? hnested hread _).under _
      · exact Checked.all_bad
    · exact Checked.all_bad
  · exact Checked.all_bad

/-! ## Queries -/

theorem Query.readsBack_ofValueWith (v : Value) : (Query.ofValueWith nested v).All fun q =>
    q.toValue.depth ≤ k → Query.ofValueWith nested' q.toValue = .ok q := by
  cases v with
  | object fields =>
    have hrefs := NodeRef.settles_ofValue.optional_list fields
    have hroot := NodeRef.settles_nullable.optional_nullable fields
    refine .seqLeft ?_
    iterate 15 refine .seq ?_
    refine .map ((all_optional (all_list (Node.readsBack_ofValueWith hnested)) fields "nodes"
      (fun _ hnode => by cases hnode)).imp fun nodes hnodes => ?_)
    refine (hrefs "select").imp fun select hselect => ?_
    refine (hroot "head").imp fun head hhead => (hroot "summarise").imp fun summarise hsummarise => ?_
    refine (hroot "having").imp fun having hhaving => (hrefs "order").imp fun order horder => ?_
    refine (all_optional settles_text.list.mapping fields "options" rfl).imp fun options hoptions => ?_
    refine (all_required Sources.settles_ofValue fields "tables").imp fun tables htables => ?_
    refine fun subquery _ existsQuery _ subqueryExpression _ => ?_
    refine (settles_nullable_text.optional_nullable fields "alias").imp fun aliasName hname => ?_
    refine (RecordIndex.settles_nullable.optional_nullable fields "record_index").imp fun recordIndex hindex => ?_
    refine fun ordered _ simpleAggregate _ => Checked.all_ok.mpr fun hdepth => ?_
    rw [Query.toValue, Fields.showing_nil] at hdepth ⊢
    have hinside : (Value.list (nodesToValues nodes)).depth < k :=
      Nat.lt_of_lt_of_le (Nat.lt_succ_of_le (Value.depth_le_depthFields List.mem_cons_self)) hdepth
    have hlist : list (Node.ofValueWith nested') (.list (nodesToValues nodes)) = .ok nodes := by
      rw [nodesToValues_eq_map] at hinside ⊢
      refine items_map (fun node hnode => hnodes node hnode ?_) 0
      have hle := Value.depth_le_depthItems (List.mem_map_of_mem (f := Node.toValue) hnode)
      rw [Value.depth] at hinside
      omega
    simp [Query.ofValueWith, record, required, Decode.optional, Fields.get?, noOthers, hlist, hselect, hhead, hsummarise,
      hhaving, horder, hoptions, htables, hname, hindex, Decode.bool]
  | _ => exact Checked.all_bad

end

/-- What was read at some depth is read back at any depth that suffices for what is written. -/
theorem Query.readsBack_ofValueWithin (n : Nat) (v : Value) : (Query.ofValueWithin n v).All fun q =>
    ∀ m, q.toValue.depth < m → Query.ofValueWithin m q.toValue = .ok q := by
  induction n generalizing v with
  | zero => exact Checked.all_bad
  | succ n ih =>
    intro q hq m hdepth
    cases m with
    | zero => cases hdepth
    | succ m =>
      have hnested : ∀ v, (Query.ofValueWithin n v).All fun q =>
          q.toValue.depth < m → Query.ofValueWithin m q.toValue = .ok q := fun v q hq => ih v q hq m
      exact Query.readsBack_ofValueWith hnested v q hq (Nat.le_of_lt_succ hdepth)

theorem Query.exists_toValue_eq (q : Query) : ∃ fields, q.toValue = .object fields := by
  cases q
  exact ⟨_, by rw [toValue]⟩

/-- A query that was loaded, from a document or from the text of one, is loaded again from what is written of it. -/
theorem Query.load_toValue {v : Value} {q : Query} (h : Query.load v = .ok q) : Query.load q.toValue = .ok q := by
  obtain ⟨document, hq⟩ := exists_ofValue_of_load h
  have hback : Query.ofValue q.toValue = .ok q :=
    Query.readsBack_ofValueWithin _ document q hq _ (Nat.lt_succ_self _)
  obtain ⟨fields, hfields⟩ := q.exists_toValue_eq
  rw [hfields] at hback ⊢
  rw [load, hback]
  · rfl
  · nofun

/-- A lenient document, with a query in a query in a query. -/
def Value.lenientQuery : Value :=
  let nested (mode : Value) (nodes : List Value) : Value :=
    .object [("mode", mode), ("kind", .str "subquery"),
      ("query", .object [("tables", .object [("table", .str "items")]), ("nodes", .list nodes)])]
  .object
    [("tables", .object [("alias", .null), ("table", .str "orders"),
      ("joins", .list [.object [("lookup", .str "buyer"), ("table", .str "users"), ("from_col", .str "uid"),
        ("to_col", .str "id")]])]),
     ("nodes", .list
      [.object [("kind", .str "field"), ("name", .str "total"), ("resolved", .str "Off"), ("table", .null)],
       .object [("kind", .str "value"), ("value", .object [("limit", .list [.null, .float ⟨0x7ff8000000000000⟩])])],
       .object [("kind", .str "func"), ("func", .str "sum"), ("args", .list [.str " 0_0 ", .bool true])],
       .object [("kind", .str "calc"), ("op", .str "%"), ("left", .float ⟨0x3ff0000000000000⟩), ("right", .str "-1.00")],
       .object [("kind", .str "cmp"), ("op", .str "ILIKE"), ("left", .int 0), ("right", .int 1)],
       .object [("kind", .str "cond"), ("alias", .str "")],
       .object [("kind", .str "sort"), ("expr", .str "+6")],
       .object [("kind", .str "summarise")],
       nested (.str "expr") [nested (.str "exists") [.object [("kind", .str "value")]]]]),
     ("select", .list [.str "0", .float ⟨0x4000000000000000⟩]), ("head", .null),
     ("options", .object [("count", .list [.str "5"]), ("hint", .list [])]),
     ("record_index", .str "-2"), ("ordered", .int 1), ("subquery", .str "N")]

theorem Query.load_toValue_lenientQuery :
    ∃ q, Query.load Value.lenientQuery = .ok q ∧ q.nodes.length = 9 ∧ q.nesting = 2 ∧
      q.select = [.index 0, .index 2] ∧ q.recordIndex = some (.whole (-2)) ∧ Query.load q.toValue = .ok q := by
  have heval : (Query.load Value.lenientQuery).toOption.map
      (fun q => (q.nodes.length, q.nesting, q.select, q.recordIndex)) =
        some (9, 2, [.index 0, .index 2], some (.whole (-2))) := by decide +kernel
  cases hload : Query.load Value.lenientQuery with
  | error e => rw [hload] at heval; cases heval
  | ok q =>
    rw [hload] at heval
    simp only [Except.toOption, Option.map_some, Option.some.injEq, Prod.mk.injEq] at heval
    obtain ⟨hnodes, hnesting, hselect, hindex⟩ := heval
    exact ⟨q, rfl, hnodes, hnesting, hselect, hindex, load_toValue hload⟩

end ArenaSql
