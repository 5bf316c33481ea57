/-
# When the plan computes WHERE over a LEFT JOIN

The plan of a bound SELECT filters every table by the conjuncts that are placed on it and then
joins.  Its rows are the rows WHERE keeps, and the rows that are null extended at a table with
conjuncts of its own (`where_of_planned`): such a row has a left part without a right row that
matches AND passes.  The plan therefore computes WHERE exactly when every such row is dropped
later, by an inner join or by a condition on the join output (`WellBound.planned_perm_iff`).
-/
import MldpDriver.Query.LogicalPlanner

namespace MldpDriver.Query.LogicalPlanner

open List
open Lib.NestedLoop (Stage Guarded Every)
open Binder

variable {Q : Type} {db : Database Q}

/-! ## 1. Conjuncts read one table -/

theorem all_congr_of_mem {α : Type} {l : List α} {f g : α → Bool} (h : ∀ x ∈ l, f x = g x) :
    l.all f = l.all g := by
  rw [Bool.eq_iff_iff, all_eq_true, all_eq_true]
  exact forall₂_congr fun x hx => by rw [h x hx]

variable {row row' : JoinedRow}

theorem predicateHolds_congr {p : PlannerPredicate}
    (h : tableRow row p.tableAlias = tableRow row' p.tableAlias) :
    predicateHolds row p = predicateHolds row' p := by
  rw [predicateHolds, predicateHolds, h]

mutual
theorem groupTruth_congr {f g : PlannerPredicate → Truth} :
    ∀ group : PlannerPredicateGroup, (∀ p ∈ group.leaves, f p = g p) →
      groupTruth f group = groupTruth g group
  | .leaf p, h => h p (by simp [PlannerPredicateGroup.leaves])
  | .not child, h => by
    simp only [groupTruth, groupTruth_congr child h]
  | .and children, h => by
    simp only [groupTruth, groupTruths_congr children h]
  | .or children, h => by
    simp only [groupTruth, groupTruths_congr children h]

theorem groupTruths_congr {f g : PlannerPredicate → Truth} :
    ∀ groups : List PlannerPredicateGroup, (∀ p ∈ leavesOf groups, f p = g p) →
      groupTruths f groups = groupTruths g groups
  | [], _ => rfl
  | group :: rest, h => by
    simp only [groupTruths]
    rw [groupTruth_congr group fun p hp => h p (mem_append_left _ hp),
      groupTruths_congr rest fun p hp => h p (mem_append_right _ hp)]
end

theorem groupHolds_congr {group : PlannerPredicateGroup} {tableAlias : String}
    (ha : ∀ p ∈ group.leaves, p.tableAlias = tableAlias)
    (h : tableRow row tableAlias = tableRow row' tableAlias) :
    groupHolds row group = groupHolds row' group := by
  rw [groupHolds, groupHolds, groupTruth_congr group fun p hp => ?_]
  rw [ha p hp, h]

/-- **A comparison with NULL is not TRUE.** -/
theorem rowTruth_nullRow {p : Predicate} (h : isNullTest p.op = false) :
    (rowTruth nullRow p == .trueValue) = false := by
  unfold rowTruth
  split
  · rfl
  · simp [h, nullRow, Cell.isValid]

/-- What binding makes sure of about a table: its conjuncts read the table itself, and on a table
that may be null extended none of them accepts NULL. -/
structure TableOk (nullable : Prop) (table : BoundTable Q) : Prop where
  predicates : ∀ p ∈ table.predicates,
    p.tableAlias = table.tableAlias ∧ (nullable → isNullTest p.op = false)
  groups : ∀ g ∈ table.predicateGroups,
    ¬ nullable ∧ ∀ p ∈ g.leaves, p.tableAlias = table.tableAlias
  inSubqueries : ∀ s ∈ table.inSubqueries,
    s.predicate.tableAlias = table.tableAlias ∧ s.predicate.op = .IN

theorem TableOk.bare {nullable : Prop} (ref : TableRef) :
    TableOk nullable (makeBoundTable (Q := Q) ref) := by
  constructor <;> intro x hx <;> simp [makeBoundTable] at hx

variable {table : BoundTable Q}

theorem TableOk.tableHolds_congr {nullable : Prop} (ht : TableOk nullable table)
    (h : tableRow row table.tableAlias = tableRow row' table.tableAlias) :
    tableHolds db table row = tableHolds db table row' := by
  have hp : table.predicates.all (predicateHolds row) = table.predicates.all (predicateHolds row') :=
    all_congr_of_mem fun p hp => predicateHolds_congr (by rw [(ht.predicates p hp).1, h])
  have hg : table.predicateGroups.all (groupHolds row) =
      table.predicateGroups.all (groupHolds row') :=
    all_congr_of_mem fun g hg => groupHolds_congr (ht.groups g hg).2 h
  have hs : (table.inSubqueries.all fun s =>
      predicateHolds row (membershipPredicate db s.predicate s.child)) =
      table.inSubqueries.all fun s =>
        predicateHolds row' (membershipPredicate db s.predicate s.child) :=
    all_congr_of_mem fun s hs => predicateHolds_congr (by
      change tableRow row s.predicate.tableAlias = tableRow row' s.predicate.tableAlias
      rw [(ht.inSubqueries s hs).1, h])
  rw [tableHolds, tableHolds, hp, hg, hs]

/-- WHERE has a conjunct that is placed on the table. -/
def hasConjunct (table : BoundTable Q) : Bool :=
  !(table.predicates.isEmpty && table.predicateGroups.isEmpty && table.inSubqueries.isEmpty)

theorem tableHolds_of_no_conjunct (h : hasConjunct table = false) (row : JoinedRow) :
    tableHolds db table row = true := by
  simp only [hasConjunct, Bool.not_eq_false', Bool.and_eq_true, List.isEmpty_iff] at h
  simp [tableHolds, h.1.1, h.1.2, h.2]

variable {row : JoinedRow}

/-- **On a null-extended table only the absence of conjuncts passes.** -/
theorem TableOk.tableHolds_padded {nullable : Prop} (ht : TableOk nullable table) (hn : nullable)
    (hrow : tableRow row table.tableAlias = nullRow) :
    tableHolds db table row = true ↔ hasConjunct table = false := by
  refine ⟨fun h => ?_, fun h => tableHolds_of_no_conjunct h row⟩
  simp only [tableHolds, Bool.and_eq_true, all_eq_true] at h
  obtain ⟨⟨hp, _⟩, hs⟩ := h
  have hnp : table.predicates = [] := eq_nil_iff_forall_not_mem.mpr fun p hmem => by
    have hfalse := rowTruth_nullRow (p := p.toExecutable) ((ht.predicates p hmem).2 hn)
    have htrue := hp p hmem
    rw [predicateHolds, (ht.predicates p hmem).1, hrow, hfalse] at htrue
    exact Bool.false_ne_true htrue
  have hng : table.predicateGroups = [] :=
    eq_nil_iff_forall_not_mem.mpr fun g hmem => (ht.groups g hmem).1 hn
  have hns : table.inSubqueries = [] := eq_nil_iff_forall_not_mem.mpr fun s hmem => by
    have hop : (membershipPredicate db s.predicate s.child).toExecutable.op = .IN :=
      (ht.inSubqueries s hmem).2
    have hfalse := rowTruth_nullRow
      (p := (membershipPredicate db s.predicate s.child).toExecutable) (by rw [hop]; rfl)
    have htrue := hs s hmem
    have halias : (membershipPredicate db s.predicate s.child).tableAlias = table.tableAlias :=
      (ht.inSubqueries s hmem).1
    rw [predicateHolds, halias, hrow, hfalse] at htrue
    exact Bool.false_ne_true htrue
  simp [hasConjunct, hnp, hng, hns]

/-! ## 2. Rows that no conjunct refuses -/

/-- What binding makes sure of about a SELECT. -/
structure WellBound (bound : BoundSelect Q) : Prop where
  nodup : (bound.tables.map (·.tableAlias)).Nodup
  from_ : TableOk False bound.from_
  joins : ∀ j ∈ bound.joins, TableOk (j.type = .LEFT_OUTER) j.table

/-- No conjunct of a table refuses the table's part of a row. -/
def partHolds (db : Database Q) (tables : List (BoundTable Q)) (part : String × Option Row) : Bool :=
  tables.all fun t => !(t.tableAlias == part.1) || tableHolds db t [part]

def partsHold (db : Database Q) (tables : List (BoundTable Q)) (row : JoinedRow) : Bool :=
  row.all (partHolds db tables)

@[simp] theorem partsHold_append (tables : List (BoundTable Q)) (row row' : JoinedRow) :
    partsHold db tables (row ++ row') = (partsHold db tables row && partsHold db tables row') :=
  all_append

theorem partHolds_eq {tables : List (BoundTable Q)} (hn : (tables.map (·.tableAlias)).Nodup)
    (ht : table ∈ tables) (o : Option Row) :
    partHolds db tables (table.tableAlias, o) = tableHolds db table [(table.tableAlias, o)] := by
  have hinj : ∀ t ∈ tables, t.tableAlias = table.tableAlias → t = table :=
    fun t ht' h => inj_on_of_nodup_map hn ht' ht h
  rw [Bool.eq_iff_iff, partHolds, all_eq_true]
  constructor
  · intro h
    simpa using h table ht
  · intro h t ht'
    by_cases ha : t.tableAlias = table.tableAlias
    · rw [hinj t ht' ha]
      simp [h]
    · simp [ha]

theorem tableRow_of_mem (hn : (row.map Prod.fst).Nodup) {tableAlias : String} {o : Option Row}
    (h : (tableAlias, o) ∈ row) : tableRow row tableAlias = o.getD nullRow := by
  have hlook : row.lookup tableAlias = some o := by
    induction row with
    | nil => simp at h
    | cons c row ih =>
      rw [map_cons, nodup_cons] at hn
      rcases mem_cons.mp h with rfl | hmem
      · simp
      · have hne : tableAlias ≠ c.1 := by
          rintro rfl
          exact hn.1 (mem_map.mpr ⟨_, hmem, rfl⟩)
        rw [lookup_cons, beq_eq_false_iff_ne.mpr hne]
        exact ih hn.2 hmem
  rw [tableRow, hlook]
  rfl

@[simp] theorem tableRow_singleton (tableAlias : String) (o : Option Row) :
    tableRow [(tableAlias, o)] tableAlias = o.getD nullRow := by
  simp [tableRow]

theorem tablesHold_eq {tables : List (BoundTable Q)} (hn : (tables.map (·.tableAlias)).Nodup)
    (hok : ∀ t ∈ tables, ∃ nullable, TableOk nullable t)
    (hrow : row.map Prod.fst = tables.map (·.tableAlias)) :
    (tables.all fun t => tableHolds db t row) = partsHold db tables row := by
  have hpart : ∀ t ∈ tables, ∀ o, (t.tableAlias, o) ∈ row →
      tableHolds db t row = partHolds db tables (t.tableAlias, o) := by
    intro t ht o ho
    obtain ⟨_, htok⟩ := hok t ht
    rw [partHolds_eq hn ht, htok.tableHolds_congr]
    rw [tableRow_of_mem (hrow ▸ hn) ho, tableRow_singleton]
  rw [Bool.eq_iff_iff, partsHold, all_eq_true, all_eq_true]
  constructor
  · intro h part hp
    have hmem : part.1 ∈ tables.map (·.tableAlias) := hrow ▸ mem_map_of_mem hp
    obtain ⟨t, ht, hta⟩ := mem_map.mp hmem
    have := hpart t ht part.2 (by rw [hta]; exact hp)
    rw [h t ht, hta] at this
    exact this.symm
  · intro h t ht
    have hmem : t.tableAlias ∈ row.map Prod.fst := hrow ▸ mem_map_of_mem ht
    obtain ⟨part, hp, hpa⟩ := mem_map.mp hmem
    rw [hpart t ht part.2 (by rw [← hpa]; exact hp), ← hpa]
    exact h part hp

/-! ## 3. The chain of a bound SELECT -/

/-- A join over the scan of its table, guarded by the conjuncts of WHERE. -/
def guarded (db : Database Q) (bound : BoundSelect Q) (j : BoundJoinClause Q) :
    Guarded JoinedRow JoinedRow where
  toStage := stage j ((bareScan j.table).eval db)
  keep := partsHold db bound.tables

variable {bound : BoundSelect Q}
variable {j : BoundJoinClause Q}

theorem mem_tables (hj : j ∈ bound.joins) :
    j.table ∈ bound.tables :=
  mem_cons_of_mem _ (mem_map_of_mem hj)

theorem filter_bareScan (hb : WellBound bound) (ht : table ∈ bound.tables) :
    ((bareScan table).eval db).filter (partsHold db bound.tables) =
      (buildTableSubtree table).eval db := by
  rw [eval_buildTableSubtree]
  refine filter_congr fun row hrow => ?_
  rw [eval_bareScan, mem_map] at hrow
  obtain ⟨r, _, rfl⟩ := hrow
  rw [partsHold, all_cons, all_nil, Bool.and_true, partHolds_eq hb.nodup ht]

theorem guarded_below (hb : WellBound bound) (hj : j ∈ bound.joins) :
    (guarded db bound j).below = stage j ((buildTableSubtree j.table).eval db) := by
  rw [← filter_bareScan hb (mem_tables hj)]
  rfl

theorem partHolds_padded (db : Database Q) (hb : WellBound bound) (hj : j ∈ bound.joins)
    (hleft : j.type = .LEFT_OUTER) :
    partHolds db bound.tables (j.table.tableAlias, none) = true ↔ hasConjunct j.table = false := by
  rw [partHolds_eq hb.nodup (mem_tables hj)]
  exact (hb.joins j hj).tableHolds_padded hleft (by simp)

theorem guarded_describes (hb : WellBound bound) :
    ∀ g ∈ bound.joins.map (guarded db bound), g.Describes (partsHold db bound.tables) := by
  intro g hg
  obtain ⟨j, hj, rfl⟩ := mem_map.mp hg
  constructor
  · exact fun x y => partsHold_append bound.tables x y
  · intro hout x h
    have hleft : j.type = .LEFT_OUTER := by simpa [guarded, stage] using hout
    have happ : partsHold db bound.tables (x ++ [(j.table.tableAlias, none)]) = true := h
    rw [partsHold_append, Bool.and_eq_true] at happ
    refine ⟨happ.1, fun y hy => ?_⟩
    have hnone : hasConjunct j.table = false := by
      rw [← partHolds_padded db hb hj hleft]
      simpa [partsHold] using happ.2
    have hy' : y ∈ (bareScan j.table).eval db := hy
    rw [eval_bareScan, mem_map] at hy'
    obtain ⟨r, _, rfl⟩ := hy'
    simp only [guarded, partsHold, all_cons, all_nil, Bool.and_true]
    rw [partHolds_eq hb.nodup (mem_tables hj)]
    exact tableHolds_of_no_conjunct hnone _

theorem chain_aliases {joins : List (BoundJoinClause Q)} {x : JoinedRow} {y : JoinedRow}
    (hy : y ∈ Lib.NestedLoop.chain (joins.map fun j => stage j ((bareScan j.table).eval db)) x) :
    y.map Prod.fst = x.map Prod.fst ++ joins.map (·.table.tableAlias) := by
  induction joins generalizing x with
  | nil =>
    rw [mem_singleton.mp hy]
    simp
  | cons j joins ih =>
    obtain ⟨x', hx', hy⟩ := mem_flatMap.mp hy
    have hx'' : x'.map Prod.fst = x.map Prod.fst ++ [j.table.tableAlias] := by
      rcases Stage.mem_step hx' with ⟨r, hr, _, rfl⟩ | ⟨_, _, rfl⟩
      · have hr' : r ∈ (bareScan j.table).eval db := hr
        rw [eval_bareScan, mem_map] at hr'
        obtain ⟨r, _, rfl⟩ := hr'
        simp [stage]
      · simp [stage]
    rw [ih hy, hx'', append_assoc]
    rfl

/-! ## 4. The plan against WHERE, for a bound SELECT -/

/-- Every conjunct of a bound SELECT, wherever it is placed. -/
def boundHolds (db : Database Q) (bound : BoundSelect Q) (row : JoinedRow) : Bool :=
  (bound.tables.all fun t => tableHolds db t row) && bound.conditions.all (conditionHolds db row)

theorem WellBound.tables_ok (hb : WellBound bound) :
    ∀ t ∈ bound.tables, ∃ nullable, TableOk nullable t := by
  intro t ht
  rcases mem_cons.mp ht with rfl | ht
  · exact ⟨_, hb.from_⟩
  · obtain ⟨j, hj, rfl⟩ := mem_map.mp ht
    exact ⟨_, hb.joins j hj⟩

/-- **WHERE on the joined rows keeps the planned rows that no conjunct refuses.** -/
theorem where_of_planned (hb : WellBound bound) :
    (joinedRows db bound).filter (boundHolds db bound) =
      (plannedRows db bound).filter (partsHold db bound.tables) := by
  have hstages : (bound.joins.map (guarded db bound)).map (·.toStage) =
      bound.joins.map fun j => stage j ((bareScan j.table).eval db) := by
    rw [map_map]
    rfl
  have hbelow : (bound.joins.map (guarded db bound)).map (·.below) =
      bound.joins.map fun j => stage j ((buildTableSubtree j.table).eval db) := by
    rw [map_map]
    exact map_congr_left fun j hj => guarded_below hb hj
  have hwhere : (joinedRows db bound).filter (boundHolds db bound) =
      ((joinedRows db bound).filter (partsHold db bound.tables)).filter
        fun row => bound.conditions.all (conditionHolds db row) := by
    rw [filter_filter]
    refine filter_congr fun row hrow => ?_
    rw [joinedRows_eq, mem_flatMap] at hrow
    obtain ⟨x, hx, hrow⟩ := hrow
    rw [eval_bareScan, mem_map] at hx
    obtain ⟨r, _, rfl⟩ := hx
    have hkeys : row.map Prod.fst = bound.tables.map (·.tableAlias) := by
      rw [chain_aliases hrow]
      simp [BoundSelect.tables, Function.comp_def]
    rw [boundHolds, tablesHold_eq hb.nodup hb.tables_ok hkeys, Bool.and_comm]
  rw [hwhere, joinedRows_eq, ← hstages, Lib.NestedLoop.flatMap_chain_filter (guarded_describes hb),
    hbelow, filter_bareScan hb mem_cons_self, plannedRows_eq, filter_filter,
    filter_filter]
  exact filter_congr fun row _ => Bool.and_comm _ _

/-- The rows of a table that pass the conjuncts placed on it. -/
def passingRows (db : Database Q) (table : BoundTable Q) : List JoinedRow :=
  ((db.rows table.tableAlias).map fun r => [(table.tableAlias, some r)]).filter
    (tableHolds db table)

theorem passingRows_eq (table : BoundTable Q) :
    passingRows db table = (buildTableSubtree table).eval db := by
  rw [eval_buildTableSubtree, eval_bareScan, passingRows]

/-- **Every row that is null extended at a table with conjuncts is dropped**: when the rows that
pass the conjuncts of their own table are joined, no row that passes the conditions is null
extended at a table that WHERE has a conjunct on. -/
def NullExtensionsDropped (db : Database Q) (bound : BoundSelect Q) : Prop :=
  ∀ x ∈ passingRows db bound.from_,
    Every
      (fun row => bound.conditions.all (conditionHolds db row) = true →
        ∀ t ∈ bound.tables, hasConjunct t = true → (t.tableAlias, none) ∉ row)
      (bound.joins.map fun j => stage j (passingRows db j.table)) x

/-- A part that is a row its table's conjuncts accept, or that a LEFT JOIN null extends. -/
def PartOk (db : Database Q) (bound : BoundSelect Q) (part : String × Option Row) : Prop :=
  (part.2 ≠ none ∧ partHolds db bound.tables part = true) ∨
    ∃ j ∈ bound.joins, j.type = .LEFT_OUTER ∧ part = (j.table.tableAlias, none)

theorem scan_parts (hb : WellBound bound) (ht : table ∈ bound.tables)
    (hrow : row ∈ (buildTableSubtree table).eval db) :
    ∀ part ∈ row, PartOk db bound part := by
  rw [← filter_bareScan hb ht, mem_filter, eval_bareScan, mem_map, partsHold,
    all_eq_true] at hrow
  obtain ⟨⟨r, _, rfl⟩, hall⟩ := hrow
  intro part hp
  refine .inl ⟨?_, hall part hp⟩
  rw [mem_singleton.mp hp]
  exact Option.some_ne_none r

theorem chain_parts (hb : WellBound bound) {x : JoinedRow}
    (hx : x ∈ (buildTableSubtree bound.from_).eval db) {y : JoinedRow}
    (hy : y ∈ Lib.NestedLoop.chain
      (bound.joins.map fun j => stage j ((buildTableSubtree j.table).eval db)) x) :
    ∀ part ∈ y, PartOk db bound part := by
  refine Lib.NestedLoop.chain_invariant (I := fun row => ∀ part ∈ row, PartOk db bound part) ?_
    (scan_parts hb mem_cons_self hx) y hy
  intro s hs x hx
  obtain ⟨j, hj, rfl⟩ := mem_map.mp hs
  constructor
  · intro r hr part hp
    rcases mem_append.mp hp with hp | hp
    · exact hx part hp
    · exact scan_parts hb (mem_tables hj) hr part hp
  · intro hout part hp
    rcases mem_append.mp hp with hp | hp
    · exact hx part hp
    · exact .inr ⟨j, hj, by simpa [stage] using hout, mem_singleton.mp hp⟩

/-- A row of the plan that a conjunct refuses is null extended at the conjunct's table. -/
theorem partsHold_iff (hb : WellBound bound) {x : JoinedRow}
    (hx : x ∈ (buildTableSubtree bound.from_).eval db) {y : JoinedRow}
    (hy : y ∈ Lib.NestedLoop.chain
      (bound.joins.map fun j => stage j ((buildTableSubtree j.table).eval db)) x) :
    partsHold db bound.tables y = true ↔
      ∀ t ∈ bound.tables, hasConjunct t = true → (t.tableAlias, none) ∉ y := by
  have hparts := chain_parts hb hx hy
  rw [partsHold, all_eq_true]
  constructor
  · intro hgood t ht hc hmem
    rcases hparts _ hmem with ⟨hne, _⟩ | ⟨j, hj, hleft, hpart⟩
    · exact hne rfl
    · have halias : t.tableAlias = j.table.tableAlias := (Prod.mk.inj hpart).1
      have hta : t = j.table := inj_on_of_nodup_map hb.nodup ht (mem_tables hj) halias
      have htrue := hgood _ hmem
      rw [hta, partHolds_padded db hb hj hleft] at htrue
      rw [hta, htrue] at hc
      exact Bool.false_ne_true hc
  · intro h part hp
    rcases hparts part hp with ⟨_, hgood⟩ | ⟨j, hj, hleft, rfl⟩
    · exact hgood
    · rw [partHolds_padded db hb hj hleft]
      by_contra hc
      exact h _ (mem_tables hj) (by simpa using hc) hp

theorem nullExtensionsDropped_iff (hb : WellBound bound) :
    NullExtensionsDropped db bound ↔
      ∀ y ∈ plannedRows db bound, partsHold db bound.tables y = true := by
  simp only [NullExtensionsDropped, passingRows_eq, ← Lib.NestedLoop.forall_chain, plannedRows_eq,
    mem_filter, mem_flatMap]
  constructor
  · rintro h y ⟨⟨x, hx, hy⟩, hcond⟩
    exact (partsHold_iff hb hx hy).mpr (h x hx y hy hcond)
  · intro h x hx y hy hcond
    exact (partsHold_iff hb hx hy).mp (h y ⟨⟨x, hx, hy⟩, hcond⟩)

theorem perm_filter_iff {α : Type} {l : List α} {f : α → Bool} :
    l.Perm (l.filter f) ↔ ∀ x ∈ l, f x = true := by
  refine ⟨fun h => ?_, fun h => by rw [filter_eq_self.mpr h]⟩
  exact length_filter_eq_length_iff.mp h.length_eq.symm

theorem WellBound.planned_perm_iff (hb : WellBound bound) :
    (plannedRows db bound).Perm ((joinedRows db bound).filter (boundHolds db bound)) ↔
      NullExtensionsDropped db bound := by
  rw [where_of_planned hb, perm_filter_iff, nullExtensionsDropped_iff hb]

end MldpDriver.Query.LogicalPlanner
