/-
# Joins that have rows on one side only

`joinBatches` answers an empty side before it looks at a key.  Where the left side has rows and the
right side has none, a LEFT JOIN should null extend every left row; the batch it hands over has no
row and no column.  The same batch comes from an INNER JOIN with one empty side, where the rows are
right and the columns are lost, and a select list that asks for one of them is an error.

Two questions are answered here for a whole chain of joins, each on the rows of the tables: which
columns the last batch has (`reads_joined`), and which rows (`rowsOf_joined`).  `Balanced` says
that a join keeps the columns of both sides.
-/
import MldpDriver.Query.LeftJoinWhere

namespace MldpDriver.Query.LogicalPlanner

open List
open Lib.NestedLoop (Stage Every chain)
open Binder

variable {Q : Type} {db : Database Q} {bound : BoundSelect Q} {table : BoundTable Q}
  {j : BoundJoinClause Q} {batch : Option Batch} {tableAlias : String}

/-! ## 1. The batch of one table

A table's part of the plan is a scan, or a filter directly over it, so its batch is there exactly
when the scan's is: the filter only takes rows away. -/

/-- What the plan asks the scan of a table for. -/
def tableScan (table : BoundTable Q) : LogicalScan Q :=
  ⟨table.tableName, table.tableAlias, table.predicates.filter isPushable, table.inSubqueries⟩

/-- The scan of a table hands over a batch: it does so without rows as well, or a row of the table
passes what the scan checks. -/
def HandsOver (db : Database Q) (table : BoundTable Q) : Prop :=
  db.emptyBatch table.tableAlias = true ∨
    ∃ r ∈ db.rows table.tableAlias,
      scanHolds db (tableScan table) [(table.tableAlias, some r)] = true

/-- The batch of a table, as a join finds it. -/
def side (db : Database Q) (table : BoundTable Q) : Option Batch :=
  (applyPredicatePushdown (buildTableSubtree table)).run db

def rowsOf (batch : Option Batch) : List JoinedRow := (batch.map (·.rows)).getD []

@[simp] theorem rowsOf_some (b : Batch) : rowsOf (some b) = b.rows := rfl

@[simp] theorem rowsOf_none : rowsOf none = [] := rfl

/-- Asking for a column of the table is no error: there is no batch, or the batch has it. -/
def Reads (batch : Option Batch) (tableAlias : String) : Prop :=
  ∀ b, batch = some b → tableAlias ∈ b.aliases

@[simp] theorem reads_some (b : Batch) : Reads (some b) tableAlias ↔ tableAlias ∈ b.aliases :=
  ⟨fun h => h b rfl, fun h _ hb => Option.some.inj hb ▸ h⟩

@[simp] theorem reads_none : Reads none tableAlias := fun _ hb => nomatch hb

/-- `applyFilter` and `applyConditions`, on a batch. -/
def keepRows (f : JoinedRow → Bool) (batch : Option Batch) : Option Batch :=
  batch.map fun b => { b with rows := b.rows.filter f }

@[simp] theorem rowsOf_keepRows (f : JoinedRow → Bool) (batch : Option Batch) :
    rowsOf (keepRows f batch) = (rowsOf batch).filter f := by
  cases batch <;> rfl

@[simp] theorem keepRows_true (batch : Option Batch) :
    keepRows (fun _ => true) batch = batch := by
  cases batch <;> simp [keepRows]

@[simp] theorem reads_keepRows (f : JoinedRow → Bool) (batch : Option Batch) :
    Reads (keepRows f batch) tableAlias ↔ Reads batch tableAlias := by
  cases batch <;> simp [keepRows]

theorem pushed_subtree (table : BoundTable Q) :
    applyPredicatePushdown (buildTableSubtree table) = .scan (tableScan table) ∨
      ∃ predicates groups,
        applyPredicatePushdown (buildTableSubtree table) =
          .filter (.scan (tableScan table)) predicates groups [] := by
  unfold buildTableSubtree
  split
  · rename_i hnil
    simp only [Bool.and_eq_true, List.isEmpty_iff] at hnil
    left
    simp [applyPredicatePushdown, tableScan, hnil.1]
  · simp only [applyPredicatePushdown, pushFilter, nil_append]
    split
    · exact .inl rfl
    · exact .inr ⟨_, _, rfl⟩

theorem rowsOf_run_scan (s : LogicalScan Q) :
    rowsOf ((LogicalNode.scan s).run db) = (LogicalNode.scan s).eval db := by
  simp only [LogicalNode.run, LogicalNode.eval]
  split
  · rename_i hnone
    rw [Bool.and_eq_true, List.isEmpty_iff] at hnone
    rw [hnone.1, rowsOf_none]
  · rfl

/-- **The rows of a table's batch are those that pass its conjuncts.** -/
theorem rowsOf_side (db : Database Q) (table : BoundTable Q) :
    rowsOf (side db table) = passingRows db table := by
  rw [passingRows_eq, ← applyPredicatePushdown_eval]
  rcases pushed_subtree table with hscan | ⟨predicates, groups, hfilter⟩
  · rw [side, hscan, rowsOf_run_scan]
  · rw [side, hfilter, LogicalNode.eval, ← rowsOf_run_scan, ← rowsOf_keepRows]
    rfl

theorem run_tableScan (db : Database Q) (table : BoundTable Q) :
    (LogicalNode.scan (tableScan table)).run db = none ∧ ¬ HandsOver db table ∨
      HandsOver db table ∧
        ∃ rows, (LogicalNode.scan (tableScan table)).run db = some ⟨[table.tableAlias], rows⟩ := by
  have hrow : (LogicalNode.scan (tableScan table)).eval db = [] ↔
      ¬ ∃ r ∈ db.rows table.tableAlias,
        scanHolds db (tableScan table) [(table.tableAlias, some r)] = true := by
    simp [LogicalNode.eval, tableScan, filter_eq_nil_iff]
  rw [LogicalNode.run]
  split
  · rename_i hnone
    rw [Bool.and_eq_true, List.isEmpty_iff, Bool.not_eq_true'] at hnone
    exact .inl ⟨rfl, not_or.mpr ⟨Bool.eq_false_iff.mp hnone.2, hrow.mp hnone.1⟩⟩
  · rename_i hsome
    rw [Bool.and_eq_true, List.isEmpty_iff, Bool.not_eq_true', not_and_or,
      Bool.not_eq_false] at hsome
    refine .inr ⟨?_, _, rfl⟩
    rcases hsome with hsome | hempty
    · exact .inr (not_not.mp fun hno => hsome (hrow.mpr hno))
    · exact .inl hempty

/-- **The batch of a table has the table's columns**, if there is one. -/
theorem side_cases (db : Database Q) (table : BoundTable Q) :
    side db table = none ∧ ¬ HandsOver db table ∨
      HandsOver db table ∧
        side db table = some ⟨[table.tableAlias], passingRows db table⟩ := by
  have hside : side db table = (LogicalNode.scan (tableScan table)).run db ∨
      ∃ f, side db table = keepRows f ((LogicalNode.scan (tableScan table)).run db) := by
    rcases pushed_subtree table with hpushed | ⟨predicates, groups, hpushed⟩
    · exact .inl (by rw [side, hpushed])
    · exact .inr ⟨filterHolds db predicates groups [], by rw [side, hpushed]; rfl⟩
  rw [← rowsOf_side]
  rcases run_tableScan db table with ⟨hrun, hno⟩ | ⟨hyes, rows, hrun⟩ <;> rw [hrun] at hside
  · refine .inl ⟨?_, hno⟩
    rcases hside with hside | ⟨f, hside⟩ <;> exact hside
  · refine .inr ⟨hyes, ?_⟩
    rcases hside with hside | ⟨f, hside⟩ <;> rw [hside] <;> rfl

theorem reads_side (db : Database Q) (table : BoundTable Q) :
    Reads (side db table) tableAlias ↔ (HandsOver db table → tableAlias = table.tableAlias) := by
  rcases side_cases db table with ⟨hside, hno⟩ | ⟨hyes, hside⟩
  · simp [hside, hno]
  · simp [hside, hyes]

/-! ## 2. One join

The operator has three branches.  The first keeps the columns of a left side without rows, the
second loses every column, and only the third is the join. -/

/-- Both sides of a join have rows, or the left side has none and the join is a LEFT JOIN or has
none on the right side either. -/
def Balanced (db : Database Q) (left : List JoinedRow) (j : BoundJoinClause Q) : Prop :=
  left ≠ [] ∧ passingRows db j.table ≠ [] ∨
    left = [] ∧ (j.type = .LEFT_OUTER ∨ passingRows db j.table = [])

/-- The rows that a join leaves: none at all where its right side has none. -/
def leave (db : Database Q) (left : List JoinedRow) (j : BoundJoinClause Q) : List JoinedRow :=
  if (passingRows db j.table).isEmpty then []
  else left.flatMap (stage j (passingRows db j.table)).step

/-- A join of the plan, over the batch of what is joined before. -/
def joinSide (db : Database Q) (left : Option Batch) (j : BoundJoinClause Q) : Option Batch :=
  joinBatches j.type j.left j.right left (side db j.table)

theorem isEmptySide_eq (batch : Option Batch) : isEmptySide batch = (rowsOf batch).isEmpty := by
  cases batch <;> rfl

/-- Which branch is taken: whether the left side is empty, and the right side or the type. -/
theorem firstBranch_iff :
    (isEmptySide batch && (j.type == .LEFT_OUTER || isEmptySide (side db j.table))) = true ↔
      rowsOf batch = [] ∧ (j.type = .LEFT_OUTER ∨ passingRows db j.table = []) := by
  simp [isEmptySide_eq, rowsOf_side]

theorem joinSide_of_empty (h : rowsOf batch = [])
    (hj : j.type = .LEFT_OUTER ∨ passingRows db j.table = []) :
    joinSide db batch j =
      batch.map fun l => ⟨l.aliases ++ ((side db j.table).map (·.aliases)).getD [], []⟩ := by
  unfold joinSide joinBatches
  rw [if_pos (firstBranch_iff.mpr ⟨h, hj⟩)]

theorem joinSide_of_not_balanced (h : ¬ Balanced db (rowsOf batch) j) :
    joinSide db batch j = some ⟨[], []⟩ := by
  have hfirst : ¬ (rowsOf batch = [] ∧ (j.type = .LEFT_OUTER ∨ passingRows db j.table = [])) :=
    fun hempty => h (.inr hempty)
  unfold joinSide joinBatches
  rw [if_neg (firstBranch_iff.not.mpr hfirst)]
  rcases side_cases db j.table with ⟨hside, _⟩ | ⟨_, hside⟩ <;> rw [hside]
  · cases batch <;> rfl
  · cases batch with
    | none => rfl
    | some l =>
      have hsome : l.rows = [] ∨ passingRows db j.table = [] := by
        by_contra hrows
        rw [not_or] at hrows
        exact h (.inl hrows)
      simp [hsome]

theorem joinSide_of_rows (l : Batch) (h : l.rows ≠ []) (hj : passingRows db j.table ≠ []) :
    joinSide db (some l) j =
      some ⟨l.aliases ++ [j.table.tableAlias],
        l.rows.flatMap (stage j (passingRows db j.table)).step⟩ := by
  have hfirst : ¬ (rowsOf (some l) = [] ∧
      (j.type = .LEFT_OUTER ∨ passingRows db j.table = [])) := fun hempty => h hempty.1
  unfold joinSide joinBatches
  rw [if_neg (firstBranch_iff.not.mpr hfirst)]
  rcases side_cases db j.table with ⟨hside, _⟩ | ⟨_, hside⟩
  · have hrows := rowsOf_side db j.table
    rw [hside] at hrows
    exact absurd hrows.symm hj
  · rw [hside]
    have hsides : (l.rows.isEmpty || (passingRows db j.table).isEmpty) = false := by
      simp [h, hj]
    simp only [hsides, Bool.false_eq_true, if_false]
    cases htype : j.type <;> simp only [stage, htype] <;> rfl

/-- **The rows of one join.** -/
theorem rowsOf_joinSide (batch : Option Batch) (j : BoundJoinClause Q) :
    rowsOf (joinSide db batch j) = leave db (rowsOf batch) j := by
  by_cases hj : passingRows db j.table = []
  · rw [leave, hj, isEmpty_nil, if_pos rfl]
    by_cases h : rowsOf batch = []
    · rw [joinSide_of_empty h (.inr hj)]
      cases batch <;> rfl
    · rw [joinSide_of_not_balanced (by simp [Balanced, h, hj])]
      rfl
  · rw [leave, if_neg (by simpa using hj)]
    by_cases h : rowsOf batch = []
    · rw [h, flatMap_nil]
      by_cases hleft : j.type = .LEFT_OUTER
      · rw [joinSide_of_empty h (.inl hleft)]
        cases batch <;> rfl
      · rw [joinSide_of_not_balanced (by simp [Balanced, h, hj, hleft])]
        rfl
    · cases batch with
      | none => exact absurd rfl h
      | some l => rw [joinSide_of_rows l h hj, rowsOf_some, rowsOf_some]

/-- **The columns of one join**: a balanced join adds those of its table, any other loses all. -/
theorem reads_joinSide (batch : Option Batch) (j : BoundJoinClause Q) :
    Reads (joinSide db batch j) tableAlias ↔
      Balanced db (rowsOf batch) j ∧
        (Reads batch tableAlias ∨ tableAlias = j.table.tableAlias ∧ HandsOver db j.table) := by
  by_cases hbal : Balanced db (rowsOf batch) j
  · rw [and_iff_right hbal]
    cases batch with
    | none =>
      rcases hbal with ⟨h, _⟩ | ⟨h, hj⟩
      · exact absurd rfl h
      · rw [joinSide_of_empty h hj]
        simp
    | some l =>
      rcases hbal with ⟨h, hj⟩ | ⟨h, hj⟩
      · have hover : HandsOver db j.table := by
          rcases side_cases db j.table with ⟨hside, _⟩ | ⟨hyes, _⟩
          · have hrows := rowsOf_side db j.table
            rw [hside] at hrows
            exact absurd hrows.symm hj
          · exact hyes
        rw [joinSide_of_rows l h hj]
        simp [hover]
      · rw [joinSide_of_empty h hj]
        rcases side_cases db j.table with ⟨hside, hno⟩ | ⟨hyes, hside⟩
        · simp [hside, hno]
        · simp [hside, hyes]
  · rw [joinSide_of_not_balanced hbal]
    simp [hbal]

/-! ## 3. A chain of joins

A column outlives the chain if the join of its table and all later joins are balanced.  What came
before does not matter: a batch that has lost its columns takes up those of the next table. -/

/-- The joins of a chain, each with the rows it finds on its left. -/
def lefts (db : Database Q) : List JoinedRow → List (BoundJoinClause Q) →
    List (List JoinedRow × BoundJoinClause Q)
  | _, [] => []
  | left, j :: joins => (left, j) :: lefts db (leave db left j) joins

def AllBalanced (db : Database Q) (joins : List (List JoinedRow × BoundJoinClause Q)) : Prop :=
  ∀ join ∈ joins, Balanced db join.1 join.2

/-- The table is joined, its scan hands over a batch, and its join and all later ones are
balanced. -/
def JoinedLate (db : Database Q) (joins : List (List JoinedRow × BoundJoinClause Q))
    (tableAlias : String) : Prop :=
  ∃ join later, join :: later <:+ joins ∧ AllBalanced db (join :: later) ∧
    tableAlias = join.2.table.tableAlias ∧ HandsOver db join.2.table

theorem joinedLate_cons {join : List JoinedRow × BoundJoinClause Q}
    {joins : List (List JoinedRow × BoundJoinClause Q)} :
    JoinedLate db (join :: joins) tableAlias ↔
      AllBalanced db (join :: joins) ∧ tableAlias = join.2.table.tableAlias ∧
        HandsOver db join.2.table ∨ JoinedLate db joins tableAlias := by
  simp only [JoinedLate, suffix_cons_iff]
  constructor
  · rintro ⟨j, later, heq | hsuf, hbal, halias, hover⟩
    · obtain ⟨rfl, rfl⟩ := List.cons.inj heq
      exact .inl ⟨hbal, halias, hover⟩
    · exact .inr ⟨j, later, hsuf, hbal, halias, hover⟩
  · rintro (⟨hbal, halias, hover⟩ | ⟨j, later, hsuf, hbal, halias, hover⟩)
    · exact ⟨join, joins, .inl rfl, hbal, halias, hover⟩
    · exact ⟨j, later, .inr hsuf, hbal, halias, hover⟩

/-- **The columns of a chain of joins.** -/
theorem reads_joined (joins : List (BoundJoinClause Q)) (batch : Option Batch) :
    Reads (joins.foldl (joinSide db) batch) tableAlias ↔
      AllBalanced db (lefts db (rowsOf batch) joins) ∧ Reads batch tableAlias ∨
        JoinedLate db (lefts db (rowsOf batch) joins) tableAlias := by
  induction joins generalizing batch with
  | nil => simp [lefts, AllBalanced, JoinedLate]
  | cons j joins ih =>
    rw [foldl_cons, ih, lefts, joinedLate_cons, rowsOf_joinSide, reads_joinSide]
    simp only [AllBalanced, forall_mem_cons]
    tauto

/-- **The rows of a chain of joins**: those of the joins, and none if a joined table has none. -/
theorem rowsOf_joined (joins : List (BoundJoinClause Q)) (batch : Option Batch) :
    rowsOf (joins.foldl (joinSide db) batch) =
      if ∃ j ∈ joins, passingRows db j.table = [] then []
      else (rowsOf batch).flatMap (chain (joins.map fun j => stage j (passingRows db j.table))) := by
  induction joins generalizing batch with
  | nil => simp [chain]
  | cons j joins ih =>
    rw [foldl_cons, ih, rowsOf_joinSide, leave]
    by_cases hj : passingRows db j.table = []
    · simp [hj]
    · simp only [List.isEmpty_iff, hj, if_false, exists_mem_cons_iff, false_or,
        map_cons, flatMap_assoc]
      rfl

/-! ## 4. The planned query -/

theorem run_joinNodes (root : LogicalNode Q) (joins : List (BoundJoinClause Q)) :
    (applyPredicatePushdown (joinNodes buildTableSubtree root joins)).run db =
      joins.foldl (joinSide db) ((applyPredicatePushdown root).run db) := by
  induction joins generalizing root with
  | nil => rfl
  | cons j joins ih =>
    rw [joinNodes, foldl_cons, ← joinNodes, ih]
    rfl

theorem filterHolds_conditions (conditions : List Condition) :
    filterHolds db [] [] conditions = fun row => conditions.all (conditionHolds db row) := by
  funext row
  simp [filterHolds]

theorem run_conditions (input : LogicalNode Q) (conditions : List Condition) :
    (applyPredicatePushdown (.filter input [] [] conditions)).run db =
      keepRows (fun row => conditions.all (conditionHolds db row))
        ((applyPredicatePushdown input).run db) := by
  rw [applyPredicatePushdown, ← filterHolds_conditions]
  split
  · rename_i s hs
    rw [hs]
    cases conditions with
    | nil => simp [pushFilter, filterHolds_conditions]
    | cons c conditions => simp [pushFilter, LogicalNode.run, keepRows]
  · rfl

theorem run_buildLogicalPlan (bound : BoundSelect Q) :
    (applyPredicatePushdown (buildLogicalPlan bound)).run db =
      keepRows (fun row => bound.conditions.all (conditionHolds db row))
        (bound.joins.foldl (joinSide db) (side db bound.from_)) := by
  rw [side, ← run_joinNodes, ← run_conditions, buildLogicalPlan]
  split
  · rename_i hnil
    rw [run_conditions, List.isEmpty_iff.mp hnil]
    simp
  · rfl

theorem applyProjection_ok_iff {columns : List ResolvedColumn} {out : List JoinedRow} :
    applyProjection columns batch = .ok out ↔
      (∀ c ∈ columns, Reads batch c.tableAlias) ∧ out = rowsOf batch := by
  cases batch with
  | none => simp [applyProjection, eq_comm]
  | some b =>
    simp only [applyProjection, reads_some, rowsOf_some]
    split
    · rename_i c hc
      have hmem := List.mem_of_find?_eq_some hc
      have hlost := List.find?_some hc
      simp only [Bool.not_eq_true', contains_eq_mem, decide_eq_false_iff_not] at hlost
      simp only [reduceCtorEq, false_iff, not_and]
      exact fun hall => absurd (hall c hmem) hlost
    · rename_i hnone
      have hall : ∀ c ∈ columns, c.tableAlias ∈ b.aliases := by simpa using hnone
      rw [and_iff_right hall, Except.ok.injEq, eq_comm]

/-- **The columns of a table are there when the joins are done**, or there is no batch to miss them
in.  Either all joins are balanced, and the table is that of FROM or FROM hands over no batch; or
the table is joined, and neither its join nor a later one loses its columns. -/
def Readable (db : Database Q) (bound : BoundSelect Q) (tableAlias : String) : Prop :=
  AllBalanced db (lefts db (passingRows db bound.from_) bound.joins) ∧
      (HandsOver db bound.from_ → tableAlias = bound.from_.tableAlias) ∨
    JoinedLate db (lefts db (passingRows db bound.from_) bound.joins) tableAlias

/-- **What the planned query returns.**  It fails exactly when a column is asked for that the joins
have lost.  Else it returns the planned rows, but none where a joined table has no row that
passes: a LEFT JOIN does not null extend its left rows then. -/
theorem execute_ok_iff {columns : List ResolvedColumn} {out : List JoinedRow} :
    execute db bound columns = .ok out ↔
      (∀ c ∈ columns, Readable db bound c.tableAlias) ∧
        out = if ∃ j ∈ bound.joins, passingRows db j.table = [] then []
          else plannedRows db bound := by
  have hrows : rowsOf (keepRows (fun row => bound.conditions.all (conditionHolds db row))
      (bound.joins.foldl (joinSide db) (side db bound.from_))) =
        if ∃ j ∈ bound.joins, passingRows db j.table = [] then []
        else plannedRows db bound := by
    rw [rowsOf_keepRows, rowsOf_joined, rowsOf_side]
    split
    · rfl
    · simp only [plannedRows_eq, passingRows_eq]
  rw [execute, run_buildLogicalPlan, applyProjection_ok_iff, hrows]
  simp only [reads_keepRows, reads_joined, reads_side, rowsOf_side, Readable]

/-- What WHERE keeps where a joined table has no row that passes: nothing, because every row that
passes the conditions is null extended at a table that WHERE has a conjunct on. -/
def AllNullExtended (db : Database Q) (bound : BoundSelect Q) : Prop :=
  ∀ x ∈ passingRows db bound.from_,
    Every
      (fun row => bound.conditions.all (conditionHolds db row) = true →
        ∃ t ∈ bound.tables, hasConjunct t = true ∧ (t.tableAlias, none) ∈ row)
      (bound.joins.map fun j => stage j (passingRows db j.table)) x

theorem allNullExtended_iff (hb : WellBound bound) :
    AllNullExtended db bound ↔ (plannedRows db bound).filter (partsHold db bound.tables) = [] := by
  have hrefused : ∀ x ∈ passingRows db bound.from_, ∀ y ∈ chain
      (bound.joins.map fun j => stage j (passingRows db j.table)) x,
        partsHold db bound.tables y = false ↔
          ∃ t ∈ bound.tables, hasConjunct t = true ∧ (t.tableAlias, none) ∈ y := by
    simp only [passingRows_eq]
    intro x hx y hy
    rw [← Bool.not_eq_true, partsHold_iff hb hx hy]
    simp
  simp only [AllNullExtended, ← Lib.NestedLoop.forall_chain, plannedRows_eq, ← passingRows_eq,
    filter_eq_nil_iff, mem_filter, mem_flatMap, Bool.not_eq_true]
  constructor
  · rintro h y ⟨⟨x, hx, hy⟩, hcond⟩
    exact (hrefused x hx y hy).mpr (h x hx y hy hcond)
  · intro h x hx y hy hcond
    exact (hrefused x hx y hy).mp (h y ⟨⟨x, hx, hy⟩, hcond⟩)

/-- **The rows that WHERE keeps are the rows that the joins hand over.**  Where every joined table
has a row that passes, no null-extended row may be one that WHERE drops; where one has none, the
joins have lost every row, and WHERE has to drop them all. -/
def RowsKept (db : Database Q) (bound : BoundSelect Q) : Prop :=
  if ∃ j ∈ bound.joins, passingRows db j.table = [] then AllNullExtended db bound
  else NullExtensionsDropped db bound

/-- **The planned query against WHERE.** -/
theorem WellBound.execute_perm_iff (hb : WellBound bound) (columns : List ResolvedColumn) :
    (∃ out, execute db bound columns = .ok out ∧
        out.Perm ((joinedRows db bound).filter (boundHolds db bound))) ↔
      (∀ c ∈ columns, Readable db bound c.tableAlias) ∧ RowsKept db bound := by
  simp only [execute_ok_iff, and_assoc, exists_eq_left, exists_and_left, RowsKept]
  refine and_congr_right fun _ => ?_
  split
  · rw [nil_perm, where_of_planned hb, ← allNullExtended_iff hb]
  · exact hb.planned_perm_iff

end MldpDriver.Query.LogicalPlanner
