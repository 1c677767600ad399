import ArenaSql.Query.Edit
import ArenaSql.Session.Basic

/-!
# Steps of a session

A step edits a query of the session, asks about it, or compiles it. The answer is a document.
-/

namespace ArenaSql

/-- The clauses that can be asked for. -/
inductive ClauseName where
  | select
  | sources
  | filter
  | groupBy
  | having
  | orderBy
  | limit
  | countLimit
  deriving DecidableEq

/-- What can be asked of a query. -/
inductive Step where
  | add (node : Value)
  | addBare (aliasName : Value)
  | set (part : String) (value : Value)
  /-- Sets a part of a node. A negative position counts from the end of the arena. -/
  | setNode (ref : NodeRef) (part : String) (value : Value)
  | setAlias (given : Value)
  | node (ref : NodeRef)
  | children (ref : NodeRef)
  | reverse (ref : NodeRef)
  | option (name : Value)
  | qualifier
  | hasJoin (lookup : Value)
  | fields (ref : NodeRef)
  | settleIndex
  | joinFilter
  /-- Resolves a field of the arena. A negative position counts from the end. -/
  | resolveAt (ref : NodeRef)
  | resolveField (field : Value)
  | state
  | render (ref : NodeRef)
  | canonicalText (ref : NodeRef)
  | isSimple (ref : NodeRef)
  | hasValues (ref : NodeRef)
  | values (ref : NodeRef)
  | fieldNames (ref : NodeRef)
  | statementAt (ref : NodeRef)
  | aliased (ref : NodeRef)
  | aliasOf (ref : NodeRef)
  | freshAlias (ref : NodeRef)
  | hasAlias (text : Value)
  | aliases
  | clause (name : ClauseName)
  | compile (compiler : String)
  | newCompiler (compiler : String) (config inner : Option Value)
  | compileAlone (config : Option Value) (dialect : Option String)

/-! ## Documents of answers -/

def Statement.toValue (s : Statement) : Value :=
  .object [("text", .str s.text), ("values", .list s.values), ("dialect", .str s.dialect)]

def AliasTable.toValue (t : AliasTable) : Value :=
  .object [("len", .int t.entries.length),
    ("items", .ofList (fun (text, name) => .list [.str text, .str name]) t.entries)]

/-- A field, and the joins it may rely on. -/
def resolution (field : Node) (q : Query) : Value :=
  .object [("field", field.toValue), ("joins", q.joinsValue)]

/-! ## Carrying out steps -/

open SessionM

def ClauseName.run (scope : Scope) : ClauseName → DraftM Value
  | .select => return .str (← scope.selectClause).text
  | .sources => return .str (← Scope.fromClause).text
  | .filter => return .ofOption (.str ∘ Sql.text) (← scope.whereClause)
  | .groupBy => return .ofOption (.str ∘ Sql.text) (← scope.groupByClause)
  | .having => return .ofOption (.str ∘ Sql.text) (← scope.havingClause)
  | .orderBy => return .ofOption (.str ∘ Sql.text) (← scope.orderByClause)
  | .limit => return .ofOption (.str ∘ Sql.text) (← scope.limitClause)
  | .countLimit => return .ofOption .int ((← get).query.count? scope.config.countOption)

/-- Carries out a step on the query with the given name. -/
def Step.run (name : String) : Step → SessionM Value
  | .add document => do
    let added ← lift (Node.ofValue document).orFail
    let size := (← query name).nodes.length
    onQuery name (·.add added)
    return .int size
  | .addBare aliasName => do
    let aliasName ← lift ((Decode.nullable Decode.text aliasName).under (.field "alias")).orFail
    let size := (← query name).nodes.length
    onQuery name (·.add { aliasName, expr := .bare })
    return .int size
  | .set part value => do
    match (← query name).assign? part value with
    | some changed =>
      onQuery name fun _ => changed
      return .null
    | none => throw (.unknownPart "QueryAST" part)
  | .setNode ref part value => do
    let (index, found) ← locateFromEnd name ref
    match found.assign? part value with
    | some changed =>
      onQuery name (·.setNode index changed)
      return changed.toValue
    | none => throw (.unknownPart found.expr.className part)
  | .setAlias given => do
    onQuery name fun q => { q with tables := q.tables.setAlias given }
    return (← query name).tables.qualifierValue
  | .node ref => return (← locate name ref).2.toValue
  | .children ref => return .ofList NodeRef.toValue (← locate name ref).2.expr.children
  | .reverse ref => do
    let (index, _) ← locate name ref
    onQuery name (·.reverseAt index)
    match (← locate name ref).2.expr with
    | .sort _ direction => return direction.toValue
    | _ => return .null
  | .option (.str key) => return (← query name).optionValue key
  | .option _ => return .null
  | .qualifier => return (← query name).tables.qualifierValue
  | .hasJoin (.str lookup) => return .bool ((← query name).tables.hasJoin lookup)
  | .hasJoin _ => return .bool false
  | .fields ref => return .ofList Node.toValue (← fieldNodes name ref)
  | .settleIndex => do
    onDraft name fun _ => DraftM.onQuery Query.settleIndex
    return (← query name).recordIndexValue
  | .joinFilter => do
    onDraft name fun scope => do
      let roots := (← get).query.head.toList
      DraftM.onQuery (Query.resolveTrees scope.schema scope.config.joinType roots)
    return .ofList (.str ·.lookup) (← query name).tables.joins
  | .resolveAt ref => do
    let (index, _) ← locateFromEnd name ref
    onDraft name fun scope => do
      match (← get).query.resolveAt scope.schema scope.config.joinType index with
      | .ok query => modify ({ · with query := query })
      | .error e => throw e
    return resolution (← locate name (.index index)).2 (← query name)
  | .resolveField field => do
    let (aliasName, field) ← lift (Field.ofValue field).orFail
    let context := (← get).context
    let tables := (← query name).tables
    let (field, tables) ← liftCompile (field.resolve context.schema context.config.joinType tables)
    onQuery name fun q => { q with tables := tables }
    return resolution { aliasName, expr := .field field } (← query name)
  | .state => return (← query name).toValue
  | .render ref => onDraft name fun scope => do
    return .str (← scope.render .bound (← DraftM.tree ref)).text
  | .canonicalText ref => onDraft name fun scope => do
    return .str (← scope.canonicalText (← DraftM.tree ref))
  | .isSimple ref => onDraft name fun _ => do
    return .bool (← Scope.isSimple (← DraftM.tree ref))
  | .hasValues ref => onDraft name fun scope => do
    return .bool (← scope.hasValues (← DraftM.tree ref))
  | .values ref => onDraft name fun scope => do
    return .list (← scope.valuesOf (← DraftM.tree ref))
  | .fieldNames ref => do
    let nodes ← fieldNodes name ref
    return .list (nodes.filterMap fun node => match node.expr with
      | .field f => some f.name.toValue
      | _ => none)
  | .statementAt ref => onDraft name fun scope => do
    return (← scope.statementAt ref).toValue
  | .aliased ref => onDraft name fun scope => do
    return .str (← scope.renderAliased (← DraftM.tree ref)).text
  | .aliasOf ref => onDraft name fun scope => do
    return .ofOption .str (← scope.aliasOf? (← DraftM.tree ref))
  | .freshAlias ref => onDraft name fun scope => do
    return .str (← scope.freshAlias (← DraftM.tree ref))
  | .hasAlias (.str text) => onDraft name fun _ => do
    return .bool ((← get).aliases.find? text).isSome
  | .hasAlias _ => return .bool false
  | .aliases => onDraft name fun _ => do
    return (← get).aliases.toValue
  | .clause which => onDraft name which.run
  | .compile compilerName => do
    let (result, compiler) ← compileWith name (← compiler compilerName)
    putCompiler compilerName compiler
    return (← liftCompile result).toValue
  | .newCompiler compilerName outer inner => do
    let base := (← get).context.config
    let given ← match inner with
      | some v => do pure (some (← contextFor (← lift (Config.load base v))))
      | none => pure none
    let context ← contextFor (← lift (Config.load base outer))
    putCompiler compilerName ⟨context, given.getD context, none⟩
    return .null
  | .compileAlone v dialect => do
    let settings ← lift (Config.load {} v)
    let context ← contextFor (settings.withDialect dialect)
    let (result, _) ← compileWith name (Compiler.new context)
    return (← liftCompile result).toValue

/-- Carries out a step, and gives the session as it is afterwards. -/
def Session.step (s : Session) (name : String) (step : Step) : Except Failure Value × Session :=
  (step.run name).run s

end ArenaSql
