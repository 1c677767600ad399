import ArenaSql.Proofs.Alike
import ArenaSql.Proofs.JoinOrder

/-!
# Matching queries

Queries match if their statements show the same parts and these parts start from alike expressions. What the
statements do not show may differ. Matching queries have the same clauses, need the same lookups, and still match once
their fields are resolved.
-/

namespace ArenaSql

theorem forall₂_imp_of_mem {α β : Type} {r s : α → β → Prop} {items : List α} {items' : List β}
    (h : List.Forall₂ r items items') (himp : ∀ a ∈ items, ∀ b ∈ items', r a b → s a b) :
    List.Forall₂ s items items' := by
  induction h with
  | nil => exact .nil
  | cons hfirst _ ih =>
    refine .cons (himp _ List.mem_cons_self _ List.mem_cons_self hfirst) (ih fun a ha b hb => ?_)
    exact himp a (List.mem_cons_of_mem _ ha) b (List.mem_cons_of_mem _ hb)

theorem exists_mem_of_forall₂ {α β : Type} {r : α → β → Prop} {items : List α} {items' : List β}
    (h : List.Forall₂ r items items') {b : β} (hb : b ∈ items') : ∃ a ∈ items, r a b := by
  induction h with
  | nil => cases hb
  | cons hfirst _ ih =>
    rcases List.mem_cons.mp hb with rfl | hb
    · exact ⟨_, List.mem_cons_self, hfirst⟩
    · obtain ⟨a, ha, hab⟩ := ih hb
      exact ⟨a, List.mem_cons_of_mem _ ha, hab⟩

theorem Tree.Alike.unbroken {nested : Nat → Nat → Prop} {t t' : Tree} (h : t.Alike nested t') (hunbroken : t.Unbroken) :
    t'.Unbroken := by
  intro fault hfault
  obtain ⟨leaf, hleaf, halike⟩ := exists_mem_of_forall₂ h.leaves hfault
  cases halike
  exact hunbroken _ hleaf

namespace Field.Alike

variable {f f' : Field} {schema : Schema} {primary : String}

theorem unplaced? (h : f.Alike f') : f.unplaced? schema primary = f'.unplaced? schema primary := by
  rw [Field.unplaced?, Field.unplaced?, h.name, h.resolved]

theorem needed? (h : f.Alike f') : f.needed? schema primary = f'.needed? schema primary := by
  rw [Field.needed?, Field.needed?, h.name, h.resolved]

theorem settled (h : f.Alike f') : (f.settled schema primary).Alike (f'.settled schema primary) := by
  rw [Field.settled, Field.settled, h.name, h.resolved]
  split
  · exact h
  · cases schema.place primary f'.name with
    | error e => exact h
    | ok placement => cases placement <;> exact ⟨h.name, by first | rfl | exact h.table, rfl⟩

end Field.Alike

/-! ## Settled trees -/

mutual

/-- The tree with all its fields settled. -/
def Tree.settled (schema : Schema) (primary : String) : Tree → Tree
  | .field i f => .field i (f.settled schema primary)
  | .func name args => .func name (settledAll schema primary args)
  | .calc op left right =>
    .calc op (fun _ => (left ()).settled schema primary) (fun _ => (right ()).settled schema primary)
  | .cmp op left right =>
    .cmp op (fun _ => (left ()).settled schema primary) (fun _ => (right ()).settled schema primary)
  | .cond op args => .cond op (settledAll schema primary args)
  | .sort expr direction => .sort (fun _ => (expr ()).settled schema primary) direction
  | .summarise args => .summarise (settledAll schema primary args)
  | t => t

def Tree.settledAll (schema : Schema) (primary : String) : List (Unit → Tree) → List (Unit → Tree)
  | [] => []
  | t :: rest => (fun _ => (t ()).settled schema primary) :: settledAll schema primary rest

end

section Settled

variable {schema : Schema} {primary : String}

theorem Tree.settledAll_map (f : NodeRef → Tree) (refs : List NodeRef) :
    settledAll schema primary (refs.map fun ref _ => f ref) = refs.map fun ref _ => (f ref).settled schema primary := by
  induction refs with
  | nil => simp [settledAll]
  | cons ref rest ih => simp [settledAll, ih]

theorem Expr.treeWith_settled (i : Nat) (sub : NodeRef → Tree) (expr : Expr) :
    (expr.settled schema primary).treeWith i (fun ref => (sub ref).settled schema primary) =
      (expr.treeWith i sub).settled schema primary := by
  cases expr <;> simp [settled, treeWith, Tree.settled, Tree.settledAll_map]

/-- Where all fields of an expression are settled, its tree is the settled tree. -/
theorem Query.tree_settledAt {q : Query} {done : Nat → Bool} (joins : List Join) {ref : NodeRef}
    (hdone : ∀ i, .field i ∈ (q.tree ref).leaves → done i = true) :
    (q.settledAt schema done joins).tree ref = (q.tree ref).settled schema q.tables.table := by
  let f := fun i expr => if done i then Expr.settled schema q.tables.table expr else expr
  have hunfold : ∀ n ref, (∀ i, .field i ∈ (Tree.unfold q.nodes n ref).leaves → done i = true) →
      Tree.unfold (q.mapExprs f).nodes n ref = (Tree.unfold q.nodes n ref).settled schema q.tables.table := by
    intro n
    induction n with
    | zero => intro ref _; simp [Tree.unfold, Tree.settled]
    | succ n ih =>
      intro ref hdone
      have hlocate := q.locate?_mapExprs f ref
      cases h : locate? q.nodes ref with
      | none =>
        rw [h] at hlocate
        rw [Tree.unfold_of_none n h, Tree.unfold_of_none n hlocate, length_mapExprs]
        simp [Tree.settled]
      | some found =>
        obtain ⟨i, node⟩ := found
        rw [h] at hlocate
        rw [Tree.unfold_of_some n h, Expr.leaves_treeWith] at hdone
        have hown : f i node.expr = node.expr.settled schema q.tables.table := by
          cases hexpr : node.expr with
          | field g => simp [f, hdone i (by simp [hexpr, Expr.leaf?])]
          | _ => simp [f, Expr.settled]
        rw [Tree.unfold_of_some n h, Tree.unfold_of_some n hlocate, ← Expr.treeWith_settled]
        dsimp only
        rw [hown]
        refine Expr.treeWith_congr i _ fun child hchild => ih child fun j hj => hdone j ?_
        have hchild : child ∈ node.expr.children := by
          cases hexpr : node.expr <;> simp_all [Expr.settled, Expr.children]
        exact List.mem_append_right _ (List.mem_flatMap.mpr ⟨child, hchild, hj⟩)
  have htree : (q.settledAt schema done joins).tree ref = Tree.unfold (q.mapExprs f).nodes (q.nodes.length + 1) ref := by
    rw [← length_mapExprs f q]
    rfl
  exact htree.trans (hunfold _ ref hdone)

mutual

theorem Tree.Alike.settled {nested : Nat → Nat → Prop} :
    {t t' : Tree} → t.Alike nested t' → (t.settled schema primary).Alike nested (t'.settled schema primary)
  | _, _, .field h => by
    rw [Tree.settled, Tree.settled]
    exact .field h.settled
  | _, _, .func name h => by
    rw [Tree.settled, Tree.settled]
    exact .func name (settledAll h)
  | _, _, .calc op hleft hright => by
    rw [Tree.settled, Tree.settled]
    exact .calc op (settled hleft) (settled hright)
  | _, _, .cmp op hleft hright => by
    rw [Tree.settled, Tree.settled]
    exact .cmp op (settled hleft) (settled hright)
  | _, _, .cond op h => by
    rw [Tree.settled, Tree.settled]
    exact .cond op (settledAll h)
  | _, _, .sort direction h => by
    rw [Tree.settled, Tree.settled]
    exact .sort direction (settled h)
  | _, _, .summarise h => by
    rw [Tree.settled, Tree.settled]
    exact .summarise (settledAll h)
  | _, _, .value v => by
    simp only [Tree.settled]
    exact .value v
  | _, _, .subquery embedding h => by
    simp only [Tree.settled]
    exact .subquery embedding h
  | _, _, .unknown .. => by
    simp only [Tree.settled]
    exact .unknown _ _
  | _, _, .broken .. => by
    simp only [Tree.settled]
    exact .broken _ _

theorem Tree.Alike.settledAll {nested : Nat → Nat → Prop} : {ts ts' : List (Unit → Tree)} →
    List.Forall₂ (fun t t' => (t ()).Alike nested (t' ())) ts ts' →
    List.Forall₂ (fun t t' => (t ()).Alike nested (t' ())) (Tree.settledAll schema primary ts)
      (Tree.settledAll schema primary ts')
  | _, _, .nil => by
    rw [Tree.settledAll]
    exact .nil
  | _, _, .cons h hrest => by
    rw [Tree.settledAll, Tree.settledAll]
    exact .cons (settled h) (settledAll hrest)

end

end Settled

/-! ## The relation -/

namespace Query

/-- The alias of the node that a reference leads to. -/
def aliasAt? (q : Query) (ref : NodeRef) : Option String :=
  (q.node? ref).bind (·.aliasName)

/-- The expressions that references lead to are alike, one by one. -/
def TreesAlike (nested : Nat → Nat → Prop) (q q' : Query) : List NodeRef → List NodeRef → Prop :=
  List.Forall₂ fun ref ref' => (q.tree ref).Alike nested (q'.tree ref')

/-- Queries that agree on all that their statements show, up to the positions of nodes. -/
structure Matches (nested : Nat → Nat → Prop) (q q' : Query) : Prop where
  tables : q.tables = q'.tables
  options : ∀ name, q.option? name = q'.option? name
  recordIndex : q.recordIndex = q'.recordIndex
  aliasName : q.aliasName = q'.aliasName
  subquery : q.subquery = q'.subquery
  existsQuery : q.existsQuery = q'.existsQuery
  subqueryExpression : q.subqueryExpression = q'.subqueryExpression
  select : TreesAlike nested q q' q.select q'.select
  names : q.select.map q.aliasAt? = q'.select.map q'.aliasAt?
  head : TreesAlike nested q q' q.head.toList q'.head.toList
  summarise : TreesAlike nested q q' q.summarise.toList q'.summarise.toList
  having : TreesAlike nested q q' (Scope.shownHaving q) (Scope.shownHaving q')
  order : TreesAlike nested q q' (Scope.shownOrder q) (Scope.shownOrder q')

end Query

/-! ## Clauses -/

namespace View

theorem havingClause_eq (view : View) (q : Query) :
    view.havingClause q = match Scope.shownHaving q with
      | [] => .ok none
      | root :: _ => do
        let sql ← view.render .bound (q.tree root)
        return some (Sql.plain "HAVING " ++ sql) := by
  rw [havingClause, Scope.shownHaving]
  cases q.summarise <;> cases q.having <;> rfl

theorem orderByClause_eq (view : View) (q : Query) (table : AliasTable) :
    view.orderByClause q table =
      if (Scope.shownOrder q).isEmpty then .ok none
      else do
        let items ← (Scope.shownOrder q).mapM fun ref => view.orderItem table (q.tree ref)
        return some (Sql.plain "ORDER BY " ++ Sql.joined ", " items) := by
  rw [orderByClause, Scope.shownOrder]
  cases q.simpleAggregate <;> cases q.ordered <;> simp

namespace Agrees

variable {nested : Nat → Nat → Prop} {view view' : View} {q q' : Query} {config : Config}

theorem selectItem (hview : View.Agrees nested view view') {ref ref' : NodeRef}
    (h : (q.tree ref).Alike nested (q'.tree ref')) (hname : q.aliasAt? ref = q'.aliasAt? ref') :
    Except.Forces (view.selectItem q ref) (view'.selectItem q' ref') := by
  have hfilter : ∀ (q : Query) ref, ((q.node? ref).bind fun node => node.aliasName.filter (!·.isEmpty)) =
      (q.aliasAt? ref).filter (!·.isEmpty) := by
    intro q ref
    rw [Query.aliasAt?]
    cases q.node? ref <;> rfl
  refine (h.render hview .bound).bind fun sql => ?_
  rw [hfilter, hfilter, hname]
  exact .refl _

theorem selectClause (hview : View.Agrees nested view view') (h : q.Matches nested q') :
    Except.Forces (view.selectClause q) (view'.selectClause q') := by
  have hnames : List.Forall₂ (fun ref ref' => q.aliasAt? ref = q'.aliasAt? ref') q.select q'.select := by
    have hsame : List.Forall₂ Eq (q.select.map q.aliasAt?) (q'.select.map q'.aliasAt?) := by
      rw [List.forall₂_eq_eq_eq]
      exact h.names
    rwa [List.forall₂_map_left_iff, List.forall₂_map_right_iff] at hsame
  have hitems : List.Forall₂ (fun ref ref' => Except.Forces (view.selectItem q ref) (view'.selectItem q' ref'))
      q.select q'.select :=
    List.Forall₂.mp (fun _ _ hname htree => hview.selectItem htree hname) hnames h.select
  rw [View.selectClause, View.selectClause]
  cases hselect : q.select with
  | nil =>
    rw [hselect, List.forall₂_nil_left_iff] at hitems
    rw [hitems]
    exact .refl _
  | cons ref rest =>
    rw [hselect] at hitems
    obtain ⟨ref', rest', -, -, hselect'⟩ := List.forall₂_cons_left_iff.mp hitems
    rw [hselect'] at hitems ⊢
    exact (Except.Forces.mapM hitems).bind fun _ => .refl _

theorem whereClause (hview : View.Agrees nested view view') (h : q.Matches nested q') :
    Except.Forces (view.whereClause q) (view'.whereClause q') := by
  have hhead := h.head
  rw [View.whereClause, View.whereClause]
  cases hroot : q.head <;> cases hroot' : q'.head <;> rw [hroot, hroot'] at hhead
  · exact .refl _
  · cases hhead
  · cases hhead
  · cases hhead with
    | cons htree _ => exact (htree.render hview .bound).bind fun _ => .refl _

theorem havingClause (hview : View.Agrees nested view view') (h : q.Matches nested q') :
    Except.Forces (view.havingClause q) (view'.havingClause q') := by
  have hhaving := h.having
  rw [havingClause_eq, havingClause_eq]
  generalize Scope.shownHaving q = refs at hhaving ⊢
  generalize Scope.shownHaving q' = refs' at hhaving ⊢
  cases hhaving with
  | nil => exact .refl _
  | cons htree _ => exact (htree.render hview .bound).bind fun _ => .refl _

theorem groupItems (hview : View.Agrees nested view view') {args args' : List NodeRef}
    (h : Query.TreesAlike nested q q' args args') (table : AliasTable) :
    Except.Forces (view.groupItems config q table args) (view'.groupItems config q' table args') := by
  induction h generalizing table with
  | nil => exact .refl _
  | cons htree _ ih => exact (hview.groupItem htree).bind fun item => (ih item.2).bind fun _ => .refl _

end Agrees

end View

/-- The tree of a grouping is made of its arguments. -/
theorem Query.tree_eq_summarise_iff {q : Query} {root : NodeRef} (hroot : q.summarise = some root)
    (hunbroken : (q.tree root).Unbroken) {ts : List (Unit → Tree)} :
    q.tree root = .summarise ts ↔ ∃ args, q.groupArgs = .ok args ∧ args.map (fun ref _ => q.tree ref) = ts := by
  obtain ⟨i, node, hlocate, htree, -⟩ := tree_eq_treeWith hunbroken
  rw [htree, groupArgs, hroot]
  dsimp only
  rw [expr?_of_locate? hlocate]
  cases node.expr <;> simp [Expr.treeWith]

theorem Query.Matches.groupArgs {nested : Nat → Nat → Prop} {q q' : Query} (h : q.Matches nested q')
    (hunbroken : ∀ root ∈ q.summarise, (q.tree root).Unbroken) {args : List NodeRef} (hargs : q.groupArgs = .ok args) :
    ∃ args', q'.groupArgs = .ok args' ∧ TreesAlike nested q q' args args' := by
  have hsummarise := h.summarise
  cases hroot : q.summarise <;> cases hroot' : q'.summarise <;> rw [hroot, hroot'] at hsummarise
  · rw [Query.groupArgs, hroot] at hargs
    cases hargs
    exact ⟨[], by rw [Query.groupArgs, hroot'], .nil⟩
  · cases hsummarise
  · cases hsummarise
  · rename_i root root'
    cases hsummarise with
    | cons halike _ =>
      have hunbroken := hunbroken root hroot
      have hunbroken' := halike.unbroken hunbroken
      rw [(tree_eq_summarise_iff hroot hunbroken).mpr ⟨args, hargs, rfl⟩] at halike
      generalize htree : q'.tree root' = t' at halike
      cases halike with
      | summarise hrefs =>
        obtain ⟨args', hargs', rfl⟩ := (tree_eq_summarise_iff hroot' hunbroken').mp htree
        rw [List.forall₂_map_left_iff, List.forall₂_map_right_iff] at hrefs
        exact ⟨args', hargs', hrefs⟩

namespace View.Agrees

variable {nested : Nat → Nat → Prop} {view view' : View} {q q' : Query} {config : Config}

theorem groupByClause (hview : View.Agrees nested view view') (h : q.Matches nested q')
    (hunbroken : ∀ root ∈ q.summarise, (q.tree root).Unbroken) :
    Except.Forces (view.groupByClause config q) (view'.groupByClause config q') := by
  intro found hfound
  rw [View.groupByClause] at hfound ⊢
  obtain ⟨args, hargs, hfound⟩ := Except.bind_eq_ok_iff.mp hfound
  obtain ⟨args', hargs', halike⟩ := h.groupArgs hunbroken hargs
  refine Except.bind_eq_ok_iff.mpr ⟨args', hargs', ?_⟩
  cases halike with
  | nil => exact hfound
  | cons hfirst hrest =>
    exact ((hview.groupItems (.cons hfirst hrest) {}).bind fun _ => .refl _) found hfound

theorem orderByClause (hview : View.Agrees nested view view') (h : q.Matches nested q') (table : AliasTable) :
    Except.Forces (view.orderByClause q table) (view'.orderByClause q' table) := by
  have hitems : List.Forall₂ (fun ref ref' => Except.Forces (view.orderItem table (q.tree ref))
      (view'.orderItem table (q'.tree ref'))) (Scope.shownOrder q) (Scope.shownOrder q') :=
    h.order.imp fun _ _ htree => hview.orderItem htree
  have hall := Except.Forces.mapM (f := fun ref => view.orderItem table (q.tree ref))
    (g := fun ref => view'.orderItem table (q'.tree ref)) hitems
  rw [orderByClause_eq, orderByClause_eq]
  generalize Scope.shownOrder q = refs at hitems hall ⊢
  generalize Scope.shownOrder q' = refs' at hitems hall ⊢
  cases hitems with
  | nil => exact .refl _
  | cons => exact hall.bind fun _ => .refl _

/-- Matching queries have the same clauses and the same aliases. -/
theorem clauses (hview : View.Agrees nested view view') (h : q.Matches nested q')
    (hunbroken : ∀ root ∈ q.summarise, (q.tree root).Unbroken) :
    Except.Forces (view.clauses config q) (view'.clauses config q') := by
  have hlimit : q.limit? config.countOption = q'.limit? config.countOption := by
    simp only [Query.limit?, Query.count?, h.options, h.recordIndex]
  rw [View.clauses, View.clauses]
  refine (hview.selectClause h).bind fun selecting => (hview.whereClause h).bind fun filter =>
    (hview.groupByClause h hunbroken).bind fun found => (hview.havingClause h).bind fun having =>
    (hview.orderByClause h found.2).bind fun ordering => ?_
  rw [hlimit, h.tables]
  exact .refl _

end View.Agrees

/-! ## Resolution -/

namespace Query

/-- No expression that the query shows has a broken place. -/
def Intact (q : Query) : Prop :=
  ∀ ref ∈ q.roots, (q.tree ref).Unbroken

theorem isNull_of_unbroken {q : Query} {ref : NodeRef} (h : (q.tree ref).Unbroken) : ref.isNull = false := by
  cases hnull : ref.isNull with
  | false => rfl
  | true =>
    rw [tree, Tree.unfold_of_none _ (locate?_of_isNull hnull)] at h
    exact absurd h (Tree.not_unbroken_broken _)

theorem Intact.liveRoots_eq {q : Query} (h : q.Intact) : q.liveRoots = q.roots := by
  rw [Query.liveRoots_eq, ← roots, List.filter_eq_self]
  intro ref href
  rw [isNull_of_unbroken (h ref href)]
  rfl

theorem Intact.unbroken_leaves {q : Query} (h : q.Intact) (fault : ArenaFault) : .broken fault ∉ q.leaves q.roots := by
  intro hfault
  obtain ⟨ref, href, hfault⟩ := List.mem_flatMap.mp hfault
  exact h ref href fault hfault

theorem Intact.liveFields_eq {q : Query} (h : q.Intact) :
    q.liveFields = q.roots.flatMap fun ref => (q.tree ref).fieldList := by
  simp only [liveFields, h.liveRoots_eq, leaves, fieldsOf, List.filterMap_flatMap, ← fieldsOf_leaves_tree]

theorem subset_roots (q : Query) :
    q.select ⊆ q.roots ∧ q.head.toList ⊆ q.roots ∧ q.summarise.toList ⊆ q.roots ∧ Scope.shownHaving q ⊆ q.roots ∧
      Scope.shownOrder q ⊆ q.roots := by
  refine ⟨?_, ?_, ?_, ?_, ?_⟩ <;> exact fun ref href => by simp_all [roots]

theorem aliasAt?_settledAt {q : Query} {schema : Schema} (done : Nat → Bool) (joins : List Join) (ref : NodeRef) :
    (q.settledAt schema done joins).aliasAt? ref = q.aliasAt? ref := by
  have hname := q.node?_mapExprs_aliasName (fun i expr => if done i then expr.settled schema q.tables.table else expr) ref
  have hjoin : ∀ node? : Option Node, node?.bind (·.aliasName) = (node?.map (·.aliasName)).join := by
    intro node?
    cases node? <;> rfl
  rw [aliasAt?, aliasAt?, hjoin, hjoin]
  exact congrArg Option.join hname

/-- Resolution settles the trees of all expressions that the query shows. -/
theorem Intact.tree_resolveLeaves {q q' : Query} {schema : Schema} {type : JoinType} (hintact : q.Intact)
    (h : q.resolveLeaves schema type (q.leaves q.liveRoots) = (q', none)) {ref : NodeRef} (href : ref ∈ q.roots) :
    q'.tree ref = (q.tree ref).settled schema q.tables.table := by
  obtain ⟨done, joins, heq, hdone⟩ := q.resolveLeaves_eq schema type (q.leaves q.liveRoots)
  rw [h, Prod.mk.injEq] at heq
  rw [heq.1]
  refine tree_settledAt joins fun i hi => hdone heq.2.symm i ?_
  rw [hintact.liveRoots_eq]
  exact List.mem_flatMap.mpr ⟨ref, href, hi⟩

namespace Matches

variable {nested : Nat → Nat → Prop} {q q' : Query} {schema : Schema} {type : JoinType}

theorem roots (h : q.Matches nested q') : TreesAlike nested q q' q.roots q'.roots :=
  List.rel_append h.select (List.rel_append h.head (List.rel_append h.summarise (List.rel_append h.having h.order)))

theorem derived (h : q.Matches nested q') (sql : Sql) : q.derived sql = q'.derived sql := by
  simp only [Query.derived, Query.derivedName, h.subquery, h.existsQuery, h.subqueryExpression, h.aliasName]

theorem intact (h : q.Matches nested q') (hintact : q.Intact) : q'.Intact := by
  intro ref' href'
  obtain ⟨ref, href, halike⟩ := exists_mem_of_forall₂ h.roots href'
  exact halike.unbroken (hintact ref href)

theorem leaves (h : q.Matches nested q') : List.Forall₂ (Leaf.Alike nested) (q.leaves q.roots) (q'.leaves q'.roots) :=
  List.rel_flatMap h.roots fun _ _ halike => halike.leaves

theorem liveFields (h : q.Matches nested q') (hintact : q.Intact) :
    List.Forall₂ Field.Alike q.liveFields q'.liveFields := by
  rw [hintact.liveFields_eq, (h.intact hintact).liveFields_eq]
  exact List.rel_flatMap h.roots fun _ _ halike => halike.fieldList

/-- Matching queries need the same lookups, in the same order. -/
theorem needs (h : q.Matches nested q') (hintact : q.Intact) (primary : String) :
    q.liveFields.filterMap (Field.needed? schema primary) = q'.liveFields.filterMap (Field.needed? schema primary) := by
  have hfields := h.liveFields hintact
  generalize q.liveFields = fields at hfields ⊢
  generalize q'.liveFields = fields' at hfields ⊢
  induction hfields with
  | nil => rfl
  | cons hfield _ ih => rw [List.filterMap_cons, List.filterMap_cons, hfield.needed?, ih]

theorem fault? (h : q.Matches nested q') (hintact : q.Intact)
    (hfault : q.fault? schema (q.leaves q.liveRoots) = none) : q'.fault? schema (q'.leaves q'.liveRoots) = none := by
  have hintact' := h.intact hintact
  have hplaced := (fault?_eq_none_iff.mp hfault).2
  refine fault?_eq_none_iff.mpr ⟨by rw [hintact'.liveRoots_eq]; exact hintact'.unbroken_leaves, fun i hi => ?_⟩
  rw [Query.unplaced?]
  cases hfield : q'.fieldAt? i with
  | none => rfl
  | some f' =>
    obtain ⟨f, hf, halike⟩ := exists_mem_of_forall₂ (h.liveFields hintact) (mem_fieldsOf.mpr ⟨i, hi, hfield⟩)
    obtain ⟨j, hj, hfield⟩ := mem_fieldsOf.mp hf
    have hplaced := hplaced j hj
    rw [Query.unplaced?, hfield, h.tables] at hplaced
    rw [Option.bind_some, ← halike.unplaced?]
    exact hplaced

/-- Matching queries are resolved alike, and match then. -/
theorem resolveLeaves (h : q.Matches nested q') (hintact : q.Intact) {r : Query}
    (hresolved : q.resolveLeaves schema type (q.leaves q.liveRoots) = (r, none)) :
    ∃ r', q'.resolveLeaves schema type (q'.leaves q'.liveRoots) = (r', none) ∧ r.Matches nested r' := by
  have hintact' := h.intact hintact
  obtain ⟨done, joins, heq, -⟩ := q.resolveLeaves_eq schema type (q.leaves q.liveRoots)
  obtain ⟨done', joins', heq', -⟩ := q'.resolveLeaves_eq schema type (q'.leaves q'.liveRoots)
  have hsettled := hresolved.symm.trans heq
  rw [Prod.mk.injEq] at hsettled
  obtain ⟨rfl, hnone⟩ := hsettled
  rw [h.fault? hintact hnone.symm] at heq'
  have htables : (q.settledAt schema done joins).tables = (q'.settledAt schema done' joins').tables := by
    rw [tables_resolveLeaves hresolved, tables_resolveLeaves heq', h.tables]
    exact congrArg _ (h.needs hintact _)
  have htrees : ∀ {refs refs'}, refs ⊆ q.roots → refs' ⊆ q'.roots → TreesAlike nested q q' refs refs' →
      TreesAlike nested (q.settledAt schema done joins) (q'.settledAt schema done' joins') refs refs' := by
    intro refs refs' hrefs hrefs' halike
    refine forall₂_imp_of_mem halike fun ref href ref' href' htree => ?_
    rw [hintact.tree_resolveLeaves hresolved (hrefs href), hintact'.tree_resolveLeaves heq' (hrefs' href'), h.tables]
    exact htree.settled
  have hnames : q.select.map (q.settledAt schema done joins).aliasAt? =
      q'.select.map (q'.settledAt schema done' joins').aliasAt? := by
    rw [funext (aliasAt?_settledAt done joins), funext (aliasAt?_settledAt done' joins')]
    exact h.names
  obtain ⟨hselect, hhead, hsummarise, hhaving, horder⟩ := q.subset_roots
  obtain ⟨hselect', hhead', hsummarise', hhaving', horder'⟩ := q'.subset_roots
  exact ⟨_, heq', { h with
    tables := htables
    names := hnames
    select := htrees hselect hselect' h.select
    head := htrees hhead hhead' h.head
    summarise := htrees hsummarise hsummarise' h.summarise
    having := htrees hhaving hhaving' h.having
    order := htrees horder horder' h.order }⟩

end Matches

end Query

end ArenaSql
