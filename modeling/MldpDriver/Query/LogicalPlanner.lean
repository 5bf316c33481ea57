/-
# WHERE on the right side of a LEFT JOIN

`buildLogicalPlan` puts the predicates of a table in a filter over its scan, below every join, and
`applyPredicatePushdown` moves what the backend can do from the filter into the scan.  This module
has the plan nodes twice: what they mean as relations (`LogicalNode.eval`), and the batch that the
executor makes of them (`LogicalNode.run`).

A conjunct on the right table of a LEFT JOIN filters the right rows BEFORE they are matched: a
left row whose matches all fail the conjunct, or that has no match, is null extended and kept,
where WHERE would remove it.  And a join that has rows on one side only may hand over a batch
without columns.

Aggregates, windows, sorting and limits stand above these nodes and read their rows; of the
projection there is what it asks of a batch.
-/
import MldpDriver.Lib.NestedLoop
import MldpDriver.Query.Binder

namespace MldpDriver.Query.LogicalPlanner

open List
open Lib.NestedLoop (Stage Guarded Every innerJoin leftOuterJoin)
open Binder

/-! ## 1. Rows and their truth -/

/-- A row of a scan: a cell for every column it is asked for. -/
abbrev Row := String → Cell

/-- A row of a join: for every table alias its row, or nothing where it is null extended. -/
abbrev JoinedRow := List (String × Option Row)

def nullRow : Row := fun _ => .scalar .null

/-- The row of one table, all NULL where it is null extended. -/
def tableRow (row : JoinedRow) (tableAlias : String) : Row :=
  ((row.lookup tableAlias).join).getD nullRow

def columnCell (row : JoinedRow) (column : ResolvedColumn) : Cell :=
  tableRow row column.tableAlias column.columnName

/-- `predicateTruth` on a row that has the column. -/
def rowTruth (row : Row) (predicate : Predicate) : Truth :=
  if predicate.column = "tag" then .ofBool (listContainsPredicateValue (row "tags") predicate)
  else if !isNullTest predicate.op && !(row predicate.column).isValid then .unknown
  else .ofBool (scalarMatchesPredicate (row predicate.column) predicate)

/-- The loop of AND and OR: the decisive value wins, then UNKNOWN, then the identity. -/
def connect (decisive identity : Truth) (values : List Truth) : Truth :=
  if values.contains decisive then decisive
  else if values.contains .unknown then .unknown
  else identity

mutual
def groupTruth (leafTruth : PlannerPredicate → Truth) : PlannerPredicateGroup → Truth
  | .leaf p => leafTruth p
  | .not child =>
    match groupTruth leafTruth child with
    | .unknown => .unknown
    | .trueValue => .falseValue
    | .falseValue => .trueValue
  | .and children => connect .falseValue .trueValue (groupTruths leafTruth children)
  | .or children => connect .trueValue .falseValue (groupTruths leafTruth children)

def groupTruths (leafTruth : PlannerPredicate → Truth) : List PlannerPredicateGroup → List Truth
  | [] => []
  | group :: rest => groupTruth leafTruth group :: groupTruths leafTruth rest
end

/-- What the plan reads: the rows behind every table alias, whether the scan of an alias hands over
a batch when it has no row to hand over, the values of every child SELECT, and the comparison of
two columns, which Arrow's kernels make. -/
structure Database (Q : Type) where
  rows : String → List Row
  emptyBatch : String → Bool
  subquery : Q → List Literal
  compareColumns : PredicateOp → Cell → Cell → Bool

variable {Q : Type} (db : Database Q)

def predicateHolds (row : JoinedRow) (p : PlannerPredicate) : Bool :=
  rowTruth (tableRow row p.tableAlias) p.toExecutable == .trueValue

/-- A membership predicate with the values of its child SELECT. -/
def membershipPredicate (p : PlannerPredicate) (child : Q) : PlannerPredicate :=
  { p with values := db.subquery child }

def groupHolds (row : JoinedRow) (group : PlannerPredicateGroup) : Bool :=
  groupTruth (fun p => rowTruth (tableRow row p.tableAlias) p.toExecutable) group == .trueValue

/-- `applyConditions`, one row. -/
def conditionHolds (row : JoinedRow) : Condition → Bool
  | .isNull column => !(columnCell row column).isValid
  | .isNotNull column => (columnCell row column).isValid
  | .compare op left right => db.compareColumns op (columnCell row left) (columnCell row right)

/-! ## 2. The logical plan -/

structure LogicalScan (Q : Type) where
  tableName : String
  tableAlias : String
  pushablePredicates : List PlannerPredicate
  inSubqueries : List (BoundInSubquery Q)

inductive LogicalNode (Q : Type) where
  | scan (scan : LogicalScan Q)
  | filter (input : LogicalNode Q) (predicates : List PlannerPredicate)
      (predicateGroups : List PlannerPredicateGroup) (conditions : List Condition)
  | join (type : JoinType) (left right : ResolvedColumn) (leftInput rightInput : LogicalNode Q)

def buildTableSubtree (table : BoundTable Q) : LogicalNode Q :=
  let scan := .scan ⟨table.tableName, table.tableAlias, [], table.inSubqueries⟩
  if table.predicates.isEmpty && table.predicateGroups.isEmpty then scan
  else .filter scan table.predicates table.predicateGroups []

/-- The left-deep chain of joins over `root`, given the right input of every join. -/
def joinNodes (subtree : BoundTable Q → LogicalNode Q) (root : LogicalNode Q)
    (joins : List (BoundJoinClause Q)) : LogicalNode Q :=
  joins.foldl (fun root j => .join j.type j.left j.right root (subtree j.table)) root

/-- `buildLogicalPlan`, the nodes of FROM, JOIN and WHERE. -/
def buildLogicalPlan (bound : BoundSelect Q) : LogicalNode Q :=
  let root := joinNodes buildTableSubtree (buildTableSubtree bound.from_) bound.joins
  if bound.conditions.isEmpty then root else .filter root [] [] bound.conditions

/-! ## 3. Predicate pushdown -/

/-- A pushed metadata criterion is kept as a local filter as well. -/
def isRetained (scan : LogicalScan Q) (p : PlannerPredicate) : Bool :=
  scan.tableName != "mldp.time_series_table" &&
    (p.column == "tag" || p.column.startsWith "attributes." ||
      p.column.startsWith "provenance." ||
      (scan.tableName == "mldp.configuration_activation" &&
        (p.column == "start_time" || p.column == "end_time")))

def isPushable (p : PlannerPredicate) : Bool := p.pushableOps.contains p.op

/-- A filter directly over a scan. -/
def pushFilter (scan : LogicalScan Q) (predicates : List PlannerPredicate)
    (groups : List PlannerPredicateGroup) (conditions : List Condition) : LogicalNode Q :=
  let scan' := { scan with
    pushablePredicates := scan.pushablePredicates ++ predicates.filter isPushable }
  let postFilter := predicates.filter fun p => !isPushable p || isRetained scan p
  if postFilter.isEmpty && groups.isEmpty && conditions.isEmpty then .scan scan'
  else .filter (.scan scan') postFilter groups conditions

def applyPredicatePushdown : LogicalNode Q → LogicalNode Q
  | .scan s => .scan s
  | .filter input predicates groups conditions =>
    match applyPredicatePushdown input with
    | .scan s => pushFilter s predicates groups conditions
    | input' => .filter input' predicates groups conditions
  | .join type left right leftInput rightInput =>
    .join type left right (applyPredicatePushdown leftInput) (applyPredicatePushdown rightInput)

/-! ## 4. What the nodes mean -/

def scanHolds (scan : LogicalScan Q) (row : JoinedRow) : Bool :=
  scan.pushablePredicates.all (predicateHolds row) &&
    scan.inSubqueries.all fun s => predicateHolds row (membershipPredicate db s.predicate s.child)

def filterHolds (predicates : List PlannerPredicate) (groups : List PlannerPredicateGroup)
    (conditions : List Condition) (row : JoinedRow) : Bool :=
  predicates.all (predicateHolds row) && groups.all (groupHolds row) &&
    conditions.all (conditionHolds db row)

/-- Two keys join when they are equal and not NULL. -/
def keysMatch (left right : ResolvedColumn) (l r : JoinedRow) : Bool :=
  (columnCell l left).isValid && columnCell l left == columnCell r right

def LogicalNode.aliases : LogicalNode Q → List String
  | .scan s => [s.tableAlias]
  | .filter input _ _ _ => input.aliases
  | .join _ _ _ leftInput rightInput => leftInput.aliases ++ rightInput.aliases

def LogicalNode.eval : LogicalNode Q → List JoinedRow
  | .scan s => ((db.rows s.tableAlias).map fun r => [(s.tableAlias, some r)]).filter (scanHolds db s)
  | .filter input predicates groups conditions =>
    input.eval.filter (filterHolds db predicates groups conditions)
  | .join .INNER left right leftInput rightInput =>
    innerJoin (keysMatch left right) (· ++ ·) leftInput.eval rightInput.eval
  | .join .LEFT_OUTER left right leftInput rightInput =>
    leftOuterJoin (keysMatch left right) (· ++ ·) (· ++ rightInput.aliases.map (·, none))
      leftInput.eval rightInput.eval

/-- The rows the planned query means. -/
def plannedRows (bound : BoundSelect Q) : List JoinedRow :=
  (applyPredicatePushdown (buildLogicalPlan bound)).eval db

/-! ## 5. What the executor makes of the nodes

The meaning of a join does not ask whether a side has rows.  The operator does, before anything
else, and what it then returns has the columns of both sides, of the left side, or of none. -/

/-- What `combineBatches` makes of the batches of a node: the tables whose columns are there, and
the rows. -/
structure Batch where
  aliases : List String
  rows : List JoinedRow

/-- `left == nullptr || left->num_rows() == 0`. -/
def isEmptySide : Option Batch → Bool
  | none => true
  | some batch => batch.rows.isEmpty

/-- `joinBatches`; a null pointer is `none`. -/
def joinBatches (type : JoinType) (leftKey rightKey : ResolvedColumn) (left right : Option Batch) :
    Option Batch :=
  if isEmptySide left && (type == .LEFT_OUTER || isEmptySide right) then
    left.map fun l => ⟨l.aliases ++ (right.map (·.aliases)).getD [], []⟩
  else
    match left, right with
    | some l, some r =>
      if l.rows.isEmpty || r.rows.isEmpty then some ⟨[], []⟩
      else
        some ⟨l.aliases ++ r.aliases,
          match type with
          | .INNER => innerJoin (keysMatch leftKey rightKey) (· ++ ·) l.rows r.rows
          | .LEFT_OUTER =>
            leftOuterJoin (keysMatch leftKey rightKey) (· ++ ·) (· ++ r.aliases.map (·, none))
              l.rows r.rows⟩
    | _, _ => some ⟨[], []⟩

/-- The execution states of the nodes. -/
def LogicalNode.run : LogicalNode Q → Option Batch
  | .scan s =>
    let rows := ((db.rows s.tableAlias).map fun r => [(s.tableAlias, some r)]).filter (scanHolds db s)
    if rows.isEmpty && !db.emptyBatch s.tableAlias then none else some ⟨[s.tableAlias], rows⟩
  | .filter input predicates groups conditions =>
    input.run.map fun batch =>
      { batch with rows := batch.rows.filter (filterHolds db predicates groups conditions) }
  | .join type left right leftInput rightInput =>
    joinBatches type left right leftInput.run rightInput.run

/-- `applyProjection`: every column that is asked for has to be in the batch. -/
def applyProjection (columns : List ResolvedColumn) : Option Batch → Except String (List JoinedRow)
  | none => .ok []
  | some batch =>
    match columns.find? fun c => !batch.aliases.contains c.tableAlias with
    | some c =>
      .error ("Projection references unknown column: " ++ c.tableAlias ++ "." ++ c.columnName)
    | none => .ok batch.rows

/-- **The planned query**, up to the columns its select list asks for: the joined rows it takes
them from, or the error of a column that the joins have lost. -/
def execute (bound : BoundSelect Q) (columns : List ResolvedColumn) :
    Except String (List JoinedRow) :=
  applyProjection columns ((applyPredicatePushdown (buildLogicalPlan bound)).run db)

/-! ## 6. WHERE on the joined rows -/

/-- The scan of a table without its predicates. -/
def bareScan (table : BoundTable Q) : LogicalNode Q :=
  .scan ⟨table.tableName, table.tableAlias, [], []⟩

/-- FROM and JOIN over the unfiltered tables. -/
def joinedRows (scope : BoundSelect Q) : List JoinedRow :=
  (joinNodes bareScan (bareScan scope.from_) scope.joins).eval db

def BoundConjunct.holds (row : JoinedRow) : BoundConjunct Q → Bool
  | .condition c => conditionHolds db row c
  | .predicate p => predicateHolds row p
  | .membership p child => predicateHolds row (membershipPredicate db p child)

/-- **The meaning of FROM, JOIN and WHERE**: the joined rows on which every conjunct is TRUE. -/
def whereRows (statement : SelectStatement Q) : Except String (List JoinedRow) := do
  let scope ← bindFrom statement
  let (conjuncts, groups) ← bindWhere statement scope
  .ok ((joinedRows db scope).filter fun row =>
    conjuncts.all (BoundConjunct.holds db row) && groups.all fun g => groupHolds row g.1)

/-! ## 7. Pushdown preserves the meaning of a plan -/

variable {db}

attribute [local simp] LogicalNode.eval applyPredicatePushdown

/-- Splitting the predicates of a filter between the scan and the filter loses none, and a retained
criterion is only checked twice. -/
theorem eval_pushFilter (scan : LogicalScan Q) (predicates : List PlannerPredicate)
    (groups : List PlannerPredicateGroup) (conditions : List Condition) :
    (pushFilter scan predicates groups conditions).eval db =
      (LogicalNode.filter (.scan scan) predicates groups conditions).eval db := by
  have hsplit : ∀ row : JoinedRow,
      (predicates.filter isPushable).all (predicateHolds row) = true ∧
        (predicates.filter fun p => !isPushable p || isRetained scan p).all
          (predicateHolds row) = true ↔ predicates.all (predicateHolds row) = true := by
    intro row
    simp only [all_eq_true, mem_filter, and_imp]
    constructor
    · rintro ⟨hpush, hpost⟩ p hp
      cases hpp : isPushable p with
      | true => exact hpush p hp hpp
      | false => exact hpost p hp (by simp [hpp])
    · exact fun h => ⟨fun p hp _ => h p hp, fun p hp _ => h p hp⟩
  have hrow : ∀ row : JoinedRow,
      (filterHolds db (predicates.filter fun p => !isPushable p || isRetained scan p) groups
          conditions row &&
        scanHolds db { scan with
          pushablePredicates := scan.pushablePredicates ++ predicates.filter isPushable } row) =
        (filterHolds db predicates groups conditions row && scanHolds db scan row) := by
    intro row
    rw [Bool.eq_iff_iff]
    simp only [filterHolds, scanHolds, all_append, Bool.and_eq_true, ← hsplit row]
    tauto
  have hfiltered : (LogicalNode.filter (.scan { scan with
        pushablePredicates := scan.pushablePredicates ++ predicates.filter isPushable })
        (predicates.filter fun p => !isPushable p || isRetained scan p) groups conditions).eval db =
      (LogicalNode.filter (.scan scan) predicates groups conditions).eval db := by
    simp only [LogicalNode.eval, filter_filter]
    exact filter_congr fun row _ => hrow row
  rw [← hfiltered, pushFilter]
  split
  · rename_i hnil
    simp only [Bool.and_eq_true, List.isEmpty_iff] at hnil
    obtain ⟨⟨hpost, rfl⟩, rfl⟩ := hnil
    rw [hpost]
    simp [filterHolds]
  · rfl

@[simp] theorem aliases_pushFilter (scan : LogicalScan Q) (predicates : List PlannerPredicate)
    (groups : List PlannerPredicateGroup) (conditions : List Condition) :
    (pushFilter scan predicates groups conditions).aliases = [scan.tableAlias] := by
  simp only [pushFilter]
  split <;> rfl

theorem applyPredicatePushdown_aliases (node : LogicalNode Q) :
    (applyPredicatePushdown node).aliases = node.aliases := by
  induction node with
  | scan s => rfl
  | filter input predicates groups conditions ih =>
    simp only [applyPredicatePushdown]
    split
    · rename_i s hs
      rw [hs] at ih
      rw [aliases_pushFilter]
      exact ih
    · exact ih
  | join type left right l r ihl ihr =>
    simp only [applyPredicatePushdown, LogicalNode.aliases, ihl, ihr]

/-- **Predicate pushdown preserves the rows of every plan.** -/
theorem applyPredicatePushdown_eval (node : LogicalNode Q) :
    (applyPredicatePushdown node).eval db = node.eval db := by
  induction node with
  | scan s => rfl
  | filter input predicates groups conditions ih =>
    simp only [applyPredicatePushdown]
    split
    · rename_i s hs
      rw [hs] at ih
      rw [eval_pushFilter]
      simp only [LogicalNode.eval] at ih ⊢
      rw [ih]
    · simp only [LogicalNode.eval, ih]
  | join type left right l r ihl ihr =>
    cases type <;>
      simp only [applyPredicatePushdown, LogicalNode.eval, ihl, ihr, applyPredicatePushdown_aliases]

/-! ## 8. The joins of a plan as a chain -/

/-- A join of the chain, over the rows of its right input. -/
def stage (j : BoundJoinClause Q) (rows : List JoinedRow) : Stage JoinedRow JoinedRow where
  outer := j.type == .LEFT_OUTER
  rows := rows
  on := keysMatch j.left j.right
  extend x o := x ++ o.getD [(j.table.tableAlias, none)]

theorem eval_join (j : BoundJoinClause Q) (root right : LogicalNode Q)
    (hright : right.aliases = [j.table.tableAlias]) :
    (LogicalNode.join j.type j.left j.right root right).eval db =
      (root.eval db).flatMap (stage j (right.eval db)).step := by
  cases htype : j.type with
  | INNER =>
    simp only [LogicalNode.eval, innerJoin, stage, htype]
    rfl
  | LEFT_OUTER =>
    simp only [LogicalNode.eval, leftOuterJoin, stage, htype, hright]
    rfl

theorem eval_joinNodes {subtree : BoundTable Q → LogicalNode Q}
    (hsub : ∀ t, (subtree t).aliases = [t.tableAlias]) (joins : List (BoundJoinClause Q))
    (root : LogicalNode Q) :
    (joinNodes subtree root joins).eval db =
      (root.eval db).flatMap
        (Lib.NestedLoop.chain (joins.map fun j => stage j ((subtree j.table).eval db))) := by
  induction joins generalizing root with
  | nil => simp [joinNodes, Lib.NestedLoop.chain]
  | cons j joins ih =>
    rw [joinNodes, foldl_cons, ← joinNodes, ih, eval_join j _ _ (hsub j.table),
      flatMap_assoc]
    rfl

@[simp] theorem aliases_buildTableSubtree (table : BoundTable Q) :
    (buildTableSubtree table).aliases = [table.tableAlias] := by
  unfold buildTableSubtree
  split <;> rfl

/-- Every conjunct that is placed on a table. -/
def tableHolds (db : Database Q) (table : BoundTable Q) (row : JoinedRow) : Bool :=
  table.predicates.all (predicateHolds row) && table.predicateGroups.all (groupHolds row) &&
    table.inSubqueries.all fun s => predicateHolds row (membershipPredicate db s.predicate s.child)

theorem eval_bareScan (table : BoundTable Q) :
    (bareScan table).eval db =
      (db.rows table.tableAlias).map fun r => [(table.tableAlias, some r)] := by
  simp [bareScan, scanHolds]

theorem eval_buildTableSubtree (table : BoundTable Q) :
    (buildTableSubtree table).eval db =
      ((bareScan table).eval db).filter (tableHolds db table) := by
  rw [eval_bareScan]
  unfold buildTableSubtree
  split
  · rename_i hnil
    simp only [Bool.and_eq_true, List.isEmpty_iff] at hnil
    simp only [LogicalNode.eval]
    refine filter_congr fun row _ => ?_
    simp [scanHolds, tableHolds, hnil.1, hnil.2]
  · simp only [LogicalNode.eval, filter_filter]
    refine filter_congr fun row _ => ?_
    simp [scanHolds, tableHolds, filterHolds]

/-- The planned rows: the chain over the filtered tables, then the conditions. -/
theorem plannedRows_eq (bound : BoundSelect Q) :
    plannedRows db bound =
      (((buildTableSubtree bound.from_).eval db).flatMap (Lib.NestedLoop.chain
        (bound.joins.map fun j => stage j ((buildTableSubtree j.table).eval db)))).filter
          fun row => bound.conditions.all (conditionHolds db row) := by
  rw [plannedRows, applyPredicatePushdown_eval,
    ← eval_joinNodes aliases_buildTableSubtree]
  simp only [buildLogicalPlan]
  split
  · rename_i hnil
    rw [List.isEmpty_iff.mp hnil]
    simp
  · simp only [LogicalNode.eval]
    exact filter_congr fun row _ => by simp [filterHolds]

theorem joinedRows_eq (scope : BoundSelect Q) :
    joinedRows db scope =
      ((bareScan scope.from_).eval db).flatMap (Lib.NestedLoop.chain
        (scope.joins.map fun j => stage j ((bareScan j.table).eval db))) :=
  eval_joinNodes (fun _ => rfl) scope.joins (bareScan scope.from_)

end MldpDriver.Query.LogicalPlanner
