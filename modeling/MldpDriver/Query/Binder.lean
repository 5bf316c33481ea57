/-
# Binding FROM, JOIN and WHERE

`bindSelect` resolves the columns of a SELECT and gives every WHERE conjunct its place.  A null
test on the right table of a LEFT JOIN and a comparison of two columns become CONDITIONS, which
the plan evaluates on the join output; every other conjunct becomes a predicate of the table that
owns its column, whichever side of a join that table is on.  OR/NOT trees are refused on the right
table of a LEFT JOIN, except an OR of equalities on one column, which is rewritten to IN.

The catalog lookup and the column types stay outside: a table arrives with its schema, and the
checks that only refuse statements on types or on missing required predicates are not modelled.
Time-series windows need a single table, so over a join their conjuncts are refused.
-/
import MldpDriver.Query.Filter

namespace MldpDriver.Query.Binder

/-! ## 1. Statements -/

structure QualifiedColumn where
  qualifier : Option String
  name : String

inductive PredicateBinaryOp where
  | NEQ | LT | LTE | GT | GTE | LIKE | CONTAINS | PREFIX

/-- The right side of a comparison: an expression that is a column, or a constant. -/
inductive Operand where
  | constant (value : Literal)
  | column (column : QualifiedColumn)

/-- `WherePredicate`; `Q` stands for the child SELECT of `IN (SELECT ...)`. -/
inductive WherePredicate (Q : Type) where
  | eq (column : QualifiedColumn) (operand : Operand)
  | inList (column : QualifiedColumn) (values : List Literal)
  | inSubquery (column : QualifiedColumn) (subquery : Q)
  | range (column : QualifiedColumn) (lower upper : Literal)
  | op (column : QualifiedColumn) (op : PredicateBinaryOp) (operand : Operand)
  | isNull (column : QualifiedColumn)
  | isNotNull (column : QualifiedColumn)

inductive WherePredicateTree (Q : Type) where
  | leaf (predicate : WherePredicate Q)
  | not (child : WherePredicateTree Q)
  | and (children : List (WherePredicateTree Q))
  | or (children : List (WherePredicateTree Q))

inductive JoinType where
  | INNER | LEFT_OUTER
  deriving DecidableEq

/-- What the planner reads of a `ColumnSchema`. -/
structure ColumnSchema where
  name : String
  pushableOps : List PredicateOp
  filterableOps : List PredicateOp

/-- A table of FROM or JOIN, found in the catalog. -/
structure TableRef where
  tableName : String
  tableAlias : String
  schema : List ColumnSchema

/-! ## 2. Bound statements -/

structure PlannerPredicate where
  column : String
  tableAlias : String
  op : PredicateOp
  values : List Literal
  pushableOps : List PredicateOp
  filterableOps : List PredicateOp

/-- `toExecutablePredicate`. -/
def PlannerPredicate.toExecutable (p : PlannerPredicate) : Predicate := ⟨p.column, p.op, p.values⟩

inductive PlannerPredicateGroup where
  | leaf (leaf : PlannerPredicate)
  | not (child : PlannerPredicateGroup)
  | and (children : List PlannerPredicateGroup)
  | or (children : List PlannerPredicateGroup)

structure BoundInSubquery (Q : Type) where
  predicate : PlannerPredicate
  child : Q

structure BoundTable (Q : Type) where
  tableName : String
  tableAlias : String
  schema : List ColumnSchema
  predicates : List PlannerPredicate
  predicateGroups : List PlannerPredicateGroup
  inSubqueries : List (BoundInSubquery Q)

/-- No predicate yet. -/
def makeBoundTable {Q : Type} (ref : TableRef) : BoundTable Q :=
  ⟨ref.tableName, ref.tableAlias, ref.schema, [], [], []⟩

structure ResolvedColumn where
  tableAlias : String
  columnName : String

/-- The boolean expressions that WHERE leaves on the join output. -/
inductive Condition where
  | isNull (column : ResolvedColumn)
  | isNotNull (column : ResolvedColumn)
  | compare (op : PredicateOp) (left right : ResolvedColumn)

structure BoundJoinClause (Q : Type) where
  type : JoinType
  table : BoundTable Q
  left : ResolvedColumn
  right : ResolvedColumn

structure BoundSelect (Q : Type) where
  from_ : BoundTable Q
  joins : List (BoundJoinClause Q)
  conditions : List Condition

structure JoinClause where
  type : JoinType
  table : TableRef
  left : QualifiedColumn
  right : QualifiedColumn

structure SelectStatement (Q : Type) where
  from_ : TableRef
  joins : List JoinClause
  predicates : List (WherePredicate Q)
  predicateGroups : List (WherePredicateTree Q)

variable {Q : Type}

/-! ## 3. Columns -/

def qualify (tableAlias name : String) : String := tableAlias ++ "." ++ name

def findColumnSchema (schema : List ColumnSchema) (name : String) : Option ColumnSchema :=
  schema.find? (·.name == name)

/-- `attributes.<key>` and `provenance.<key>` are columns of a table that has the map. -/
def isDynamicMetadata (table : BoundTable Q) (name : String) : Bool :=
  (name.startsWith "attributes." && (findColumnSchema table.schema "attributes").isSome) ||
    (name.startsWith "provenance." && (findColumnSchema table.schema "provenance").isSome)

def resolveColumnOnTable (column : QualifiedColumn) (table : BoundTable Q) : Bool :=
  column.qualifier.all (fun q => q == table.tableAlias || q == table.tableName) &&
    ((findColumnSchema table.schema column.name).isSome || isDynamicMetadata table column.name) &&
    column.name != ""

def listAliases (tables : List (BoundTable Q)) : String :=
  ", ".intercalate (tables.map fun t => "'" ++ t.tableAlias ++ "'")

def resolveColumnReference (column : QualifiedColumn) (tables : List (BoundTable Q)) :
    Except String ResolvedColumn :=
  match tables.filter (resolveColumnOnTable column) with
  | [] =>
    .error (match column.qualifier with
      | some q => "Unknown column '" ++ q ++ "." ++ column.name ++ "'"
      | none => "Unknown column '" ++ column.name ++ "'")
  | [table] => .ok ⟨table.tableAlias, column.name⟩
  | _ =>
    .error ("Ambiguous column '" ++ column.name ++ "'. Qualify it with one of: " ++
      listAliases tables)

theorem resolveColumnReference_mem {column : QualifiedColumn} {tables : List (BoundTable Q)}
    {r : ResolvedColumn} (h : resolveColumnReference column tables = .ok r) :
    r.tableAlias ∈ tables.map (·.tableAlias) := by
  unfold resolveColumnReference at h
  split at h
  · simp at h
  · rename_i table hfilter
    obtain rfl := Except.ok.inj h
    have hmem : table ∈ tables.filter (resolveColumnOnTable column) := by rw [hfilter]; simp
    exact List.mem_map_of_mem (List.mem_filter.mp hmem).1
  · simp at h

/-! ## 4. Conjuncts -/

def mapBinaryOp : PredicateBinaryOp → PredicateOp
  | .NEQ => .NEQ
  | .LT => .LT
  | .LTE => .LTE
  | .GT => .GT
  | .GTE => .GTE
  | .LIKE => .LIKE
  | .CONTAINS => .CONTAINS
  | .PREFIX => .PREFIX

def WherePredicate.column : WherePredicate Q → QualifiedColumn
  | .eq c _ | .inList c _ | .inSubquery c _ | .range c _ _ | .op c _ _ | .isNull c
  | .isNotNull c => c

/-- `constantExpression`. -/
def constantExpression : Operand → Except String Literal
  | .constant value => .ok value
  | .column _ => .error "WHERE expression must be constant"

/-- The operator and the literals of a bound predicate. -/
def WherePredicate.comparison : WherePredicate Q → Except String (PredicateOp × List Literal)
  | .eq _ operand => (constantExpression operand).map fun v => (.EQ, [v])
  | .inList _ values => .ok (.IN, values)
  | .inSubquery _ _ => .ok (.IN, [])
  | .range _ lower upper => .ok (.BETWEEN, [lower, upper])
  | .op _ binary operand => (constantExpression operand).map fun v => (mapBinaryOp binary, [v])
  | .isNull _ => .ok (.IS_NULL, [])
  | .isNotNull _ => .ok (.IS_NOT_NULL, [])

def defaultTextOps : List PredicateOp := [.EQ, .NEQ, .IN, .PREFIX, .CONTAINS, .LIKE]

/-- The operators a column supports, pushed down and locally. -/
def columnOps (table : BoundTable Q) (name : String) : Option (List PredicateOp × List PredicateOp) :=
  match findColumnSchema table.schema name with
  | some column => some (column.pushableOps, column.filterableOps)
  | none =>
    if isDynamicMetadata table name then
      some (if table.tableName = "mldp.time_series" ∨ table.tableName = "mldp.time_series_table" then
          [.EQ, .IN, .PREFIX, .CONTAINS, .LIKE] else [.EQ, .IN], defaultTextOps)
    else none

/-- A null test runs in the local filter on every column. -/
def addNullTest (op : PredicateOp) (filterableOps : List PredicateOp) : List PredicateOp :=
  if isNullTest op then op :: filterableOps else filterableOps

def buildPredicate (predicate : WherePredicate Q) (tables : List (BoundTable Q)) :
    Except String PlannerPredicate := do
  let resolved ← resolveColumnReference predicate.column tables
  match tables.find? (·.tableAlias == resolved.tableAlias) with
  | none => .error ("Unknown table alias '" ++ resolved.tableAlias ++ "' for predicate binding")
  | some table =>
    match columnOps table resolved.columnName with
    | none =>
      .error ("Unknown column '" ++ qualify resolved.tableAlias resolved.columnName ++ "'")
    | some (pushableOps, filterableOps) => do
      let (op, values) ← predicate.comparison
      if pushableOps.contains op || (addNullTest op filterableOps).contains op then
        .ok ⟨resolved.columnName, resolved.tableAlias, op, values, pushableOps,
          addNullTest op filterableOps⟩
      else
        .error ("Operator not supported for column '" ++
          qualify resolved.tableAlias resolved.columnName ++ "'")

/-- `columnComparisonCondition`: the operator and the two columns of `col <op> other_col`. -/
def columnComparison : WherePredicate Q → Option (PredicateOp × QualifiedColumn × QualifiedColumn)
  | .eq column (.column other) => some (.EQ, column, other)
  | .op column binary (.column other) =>
    match binary with
    | .NEQ | .LT | .LTE | .GT | .GTE => some (mapBinaryOp binary, column, other)
    | _ => none
  | _ => none

/-- `nullTestCondition`: a null test on a NULL-extended table. -/
def nullTestCondition (predicate : WherePredicate Q) (tables : List (BoundTable Q))
    (nullableAliases : List String) : Except String (Option Condition) :=
  let test (make : ResolvedColumn → Condition) (column : QualifiedColumn) :=
    if nullableAliases.isEmpty then .ok none
    else do
      let resolved ← resolveColumnReference column tables
      .ok (if nullableAliases.contains resolved.tableAlias then some (make resolved) else none)
  match predicate with
  | .isNull column => test .isNull column
  | .isNotNull column => test .isNotNull column
  | _ => .ok none

/-- A conjunct with its place: on the join output, or on the table that owns its column. -/
inductive BoundConjunct (Q : Type) where
  | condition (condition : Condition)
  | predicate (predicate : PlannerPredicate)
  | membership (predicate : PlannerPredicate) (child : Q)

/-- One turn of the WHERE loop, over several tables. -/
def bindConjunct (tables : List (BoundTable Q)) (nullableAliases : List String)
    (predicate : WherePredicate Q) : Except String (BoundConjunct Q) := do
  match ← nullTestCondition predicate tables nullableAliases with
  | some condition => .ok (.condition condition)
  | none =>
    match columnComparison predicate with
    | some (op, column, other) => do
      let left ← resolveColumnReference column tables
      let right ← resolveColumnReference other tables
      .ok (.condition (.compare op left right))
    | none =>
      match predicate with
      | .inSubquery column child =>
        if column.name = "window" then
          .error ("IN (SELECT ...) window input is supported only for mldp.time_series or " ++
            "mldp.time_series_table")
        else do
          let bound ← buildPredicate predicate tables
          .ok (.membership bound child)
      | .inList column _ =>
        if column.name = "window" then
          .error ("Literal window IN (...) is supported only for mldp.time_series or " ++
            "mldp.time_series_table")
        else do
          let bound ← buildPredicate predicate tables
          .ok (.predicate bound)
      | _ => do
        let bound ← buildPredicate predicate tables
        .ok (.predicate bound)

/-! ## 5. OR/NOT trees -/

def isSubqueryOrWindow : WherePredicate Q → Bool
  | .inSubquery _ _ => true
  | .inList column _ => column.name == "window"
  | _ => false

/-- A leaf of an OR/NOT tree. -/
def bindLeaf (predicate : WherePredicate Q) (tables : List (BoundTable Q)) :
    Except String PlannerPredicate :=
  if isSubqueryOrWindow predicate then
    .error ("IN (SELECT ...) and window IN (...) are not supported inside OR/NOT; use them as " ++
      "top-level AND conditions")
  else if (columnComparison predicate).isSome then
    .error "Column-to-column comparisons are not supported inside OR/NOT"
  else buildPredicate predicate tables

mutual
def bindPredicateGroup (tables : List (BoundTable Q)) :
    WherePredicateTree Q → Except String PlannerPredicateGroup
  | .leaf predicate => (bindLeaf predicate tables).map .leaf
  | .not child => (bindPredicateGroup tables child).map .not
  | .and children => (bindPredicateGroups tables children).map .and
  | .or children => (bindPredicateGroups tables children).map .or

def bindPredicateGroups (tables : List (BoundTable Q)) :
    List (WherePredicateTree Q) → Except String (List PlannerPredicateGroup)
  | [] => .ok []
  | tree :: rest => do
    let group ← bindPredicateGroup tables tree
    let groups ← bindPredicateGroups tables rest
    .ok (group :: groups)
end

mutual
/-- `forEachGroupLeaf`. -/
def PlannerPredicateGroup.leaves : PlannerPredicateGroup → List PlannerPredicate
  | .leaf p => [p]
  | .not child => child.leaves
  | .and children => leavesOf children
  | .or children => leavesOf children

def leavesOf : List PlannerPredicateGroup → List PlannerPredicate
  | [] => []
  | group :: rest => group.leaves ++ leavesOf rest
end

/-- One child of an OR that may become an IN on one column. -/
def mergeMember (merged : Option PlannerPredicate) (child : PlannerPredicateGroup) :
    Option (Option PlannerPredicate) :=
  match child with
  | .leaf leaf =>
    if leaf.op = .EQ ∨ leaf.op = .IN then
      match merged with
      | none => some (some { leaf with op := .IN })
      | some m =>
        if leaf.column = m.column ∧ leaf.tableAlias = m.tableAlias then
          some (some { m with values := m.values ++ leaf.values })
        else none
    else none
  | _ => none

def sameColumnMembership : PlannerPredicateGroup → Option PlannerPredicate
  | .or children => do
    let merged ← children.foldlM mergeMember none
    let m ← merged
    if m.pushableOps.contains .IN || m.filterableOps.contains .IN then some m else none
  | _ => none

/-- A tree with its place: an IN predicate, or a local filter of its one table. -/
inductive BoundGroup where
  | membership (predicate : PlannerPredicate)
  | local (tableAlias : String) (group : PlannerPredicateGroup)

/-- The checks that an OR/NOT tree passes before it becomes a local filter. -/
def placeGroup (nullableAliases : List String) (group : PlannerPredicateGroup) :
    Except String BoundGroup :=
  match sameColumnMembership group with
  | some membership => .ok (.membership membership)
  | none =>
    match group.leaves.find? fun leaf => !leaf.filterableOps.contains leaf.op with
    | some leaf =>
      .error ("Operator on column '" ++ qualify leaf.tableAlias leaf.column ++
        "' is evaluated only by the backend and cannot be used inside OR/NOT")
    | none =>
      match (group.leaves.map (·.tableAlias)).dedup with
      | [tableAlias] =>
        if nullableAliases.contains tableAlias then
          .error "OR/NOT conditions on the right side of a LEFT JOIN are not supported"
        else .ok (.local tableAlias group)
      | _ => .error "OR/NOT conditions must reference columns of a single table"

/-! ## 6. The SELECT -/

/-- The condition of one JOIN: one side in the tables joined so far, one in the new table. -/
def bindJoin (scope : List (BoundTable Q)) (clause : JoinClause) :
    Except String (BoundJoinClause Q) := do
  let aliases := scope.map (·.tableAlias)
  let table := makeBoundTable clause.table
  let right := table.tableAlias
  if aliases.contains right then .error ("Duplicate table alias '" ++ right ++ "'")
  else do
    let l ← resolveColumnReference clause.left (scope ++ [table])
    let r ← resolveColumnReference clause.right (scope ++ [table])
    if aliases.contains l.tableAlias && r.tableAlias == right then
      .ok ⟨clause.type, table, l, r⟩
    else if aliases.contains r.tableAlias && l.tableAlias == right then
      .ok ⟨clause.type, table, r, l⟩
    else
      .error ("JOIN ON must compare one column from already-joined tables to one column from " ++
        "table alias '" ++ right ++ "'")

def bindJoins (scope : List (BoundTable Q)) :
    List JoinClause → Except String (List (BoundJoinClause Q))
  | [] => .ok []
  | clause :: rest => do
    let join ← bindJoin scope clause
    let joins ← bindJoins (scope ++ [join.table]) rest
    .ok (join :: joins)

/-- The tables on the right of a LEFT JOIN. -/
def nullableAliases (joins : List (BoundJoinClause Q)) : List String :=
  (joins.filter (·.type == .LEFT_OUTER)).map (·.table.tableAlias)

/-- `all_tables[table_index.at(alias)]`, updated. -/
def updateTable (tableAlias : String) (update : BoundTable Q → BoundTable Q)
    (table : BoundTable Q) : BoundTable Q :=
  if table.tableAlias = tableAlias then update table else table

def BoundSelect.update (bound : BoundSelect Q) (tableAlias : String)
    (update : BoundTable Q → BoundTable Q) : BoundSelect Q :=
  { bound with
    from_ := updateTable tableAlias update bound.from_
    joins := bound.joins.map fun j => { j with table := updateTable tableAlias update j.table } }

def BoundTable.addPredicate (p : PlannerPredicate) (table : BoundTable Q) : BoundTable Q :=
  { table with predicates := table.predicates ++ [p] }

def BoundTable.addInSubquery (p : PlannerPredicate) (child : Q) (table : BoundTable Q) :
    BoundTable Q :=
  { table with inSubqueries := table.inSubqueries ++ [⟨p, child⟩] }

def BoundTable.addGroup (group : PlannerPredicateGroup) (table : BoundTable Q) : BoundTable Q :=
  { table with predicateGroups := table.predicateGroups ++ [group] }

def BoundSelect.place (bound : BoundSelect Q) : BoundConjunct Q → BoundSelect Q
  | .condition c => { bound with conditions := bound.conditions ++ [c] }
  | .predicate p => bound.update p.tableAlias (·.addPredicate p)
  | .membership p child => bound.update p.tableAlias (·.addInSubquery p child)

def BoundSelect.placeGroup (bound : BoundSelect Q) : BoundGroup → BoundSelect Q
  | .membership p => bound.update p.tableAlias (·.addPredicate p)
  | .local tableAlias group => bound.update tableAlias (·.addGroup group)

/-- The tables of a bound SELECT, in FROM and JOIN order. -/
def BoundSelect.tables (bound : BoundSelect Q) : List (BoundTable Q) :=
  bound.from_ :: bound.joins.map (·.table)

/-- FROM and JOIN, before WHERE is bound. -/
def bindFrom (statement : SelectStatement Q) : Except String (BoundSelect Q) := do
  let table := makeBoundTable statement.from_
  let joins ← bindJoins [table] statement.joins
  .ok ⟨table, joins, []⟩

/-- One turn of the loop over the OR/NOT trees: the bound tree and its place. -/
def bindGroup (scope : BoundSelect Q) (tree : WherePredicateTree Q) :
    Except String (PlannerPredicateGroup × BoundGroup) := do
  let group ← bindPredicateGroup scope.tables tree
  let place ← placeGroup (nullableAliases scope.joins) group
  .ok (group, place)

/-- The bound conjuncts and OR/NOT trees of WHERE. -/
def bindWhere (statement : SelectStatement Q) (scope : BoundSelect Q) :
    Except String (List (BoundConjunct Q) × List (PlannerPredicateGroup × BoundGroup)) := do
  let conjuncts ← statement.predicates.mapM
    (bindConjunct scope.tables (nullableAliases scope.joins))
  let groups ← statement.predicateGroups.mapM (bindGroup scope)
  .ok (conjuncts, groups)

def bindSelect (statement : SelectStatement Q) : Except String (BoundSelect Q) := do
  let scope ← bindFrom statement
  let (conjuncts, groups) ← bindWhere statement scope
  .ok ((groups.map (·.2)).foldl BoundSelect.placeGroup (conjuncts.foldl BoundSelect.place scope))

end MldpDriver.Query.Binder
