/-
# The join operator

`joinBatches` hashes the key column of one side by the texts of its values and probes it with the
other.  An INNER join builds on the smaller side; the build side may go through a spill file.  A
side without rows is handled before any of this.
-/
import MldpDriver.Arrow.RecordBatch
import MldpDriver.Lib.NestedLoop

namespace MldpDriver.Query.Join

open MldpDriver.Arrow List
open MldpDriver.Arrow.RecordBatch (numRows_eq_zero_iff wellTyped_of_rows)
open Lib.NestedLoop

/-! ## 1. The operator -/

/-- `plan::JoinType`. -/
inductive JoinType where
  | INNER
  | LEFT_OUTER
  deriving DecidableEq

/-- What the join reads of the `ExecutionContext`. -/
structure ExecutionContext where
  memoryLimitBytes : Nat
  /-- A spill manager is there. -/
  spill : Bool

variable {T V : Type} (text : V → String)

/-- `build_index`: the rows of a key text, in order; no rows is a key the map does not hold. -/
abbrev BuildIndex := String → List Nat

/-- `build_index[key].push_back(row)`. -/
def BuildIndex.push (index : BuildIndex) (key : String) (row : Nat) : BuildIndex :=
  fun k => if k = key then index k ++ [row] else index k

/-- One iteration of the build loop; `scalarKey` of a valid scalar is its text. -/
def buildRow (build : RecordBatch T V) (keyIndex : Nat) (index : BuildIndex) (row : Nat) :
    BuildIndex :=
  match build.cell keyIndex row with
  | none => index
  | some value => index.push (text value) row

def buildIndex (build : RecordBatch T V) (keyIndex : Nat) : BuildIndex :=
  (List.range build.numRows).foldl (buildRow text build keyIndex) fun _ => []

/-- One iteration of the probe loop: the entries of `left_indices` and `right_indices` for a row of
the probe side. -/
def probeRow (type : JoinType) (outputSwap : Bool) (index : BuildIndex) (probe : RecordBatch T V)
    (keyIndex : Nat) (row : Nat) : List (Option Nat × Option Nat) :=
  let unmatched := if type = .LEFT_OUTER ∧ ¬ outputSwap then [(some row, none)] else []
  match probe.cell keyIndex row with
  | none => unmatched
  | some value =>
    match index (text value) with
    | [] => unmatched
    | found =>
      found.map fun matchRow =>
        if outputSwap then (some matchRow, some row) else (some row, some matchRow)

/-- The output columns: those of both sides gathered by the two index lists. -/
def gatherJoined (left right : RecordBatch T V) (rightFields : List (Arrow.Field T))
    (hfields : rightFields.length = right.schema.length)
    (pairs : List (Option Nat × Option Nat)) : RecordBatch T V where
  schema := left.schema ++ rightFields
  numRows := pairs.length
  columns := left.columns.map (gather · (pairs.map Prod.fst)) ++
    right.columns.map (gather · (pairs.map Prod.snd))
  columns_length := by simp [left.columns_length, right.columns_length, hfields]
  column_length := by
    intro c hc
    simp only [mem_append, mem_map] at hc
    rcases hc with ⟨c, -, rfl⟩ | ⟨c, -, rfl⟩ <;> simp

/-- `field->WithNullable(true)` on the fields of the right side of a LEFT OUTER join. -/
def rightFields (type : JoinType) (schema : List (Arrow.Field T)) : List (Arrow.Field T) :=
  if type = .LEFT_OUTER then schema.map Field.withNullable else schema

@[simp] theorem length_rightFields (type : JoinType) (schema : List (Arrow.Field T)) :
    (rightFields type schema).length = schema.length := by
  unfold rightFields
  split <;> simp

/-- `RecordBatch::Make` of an empty schema. -/
def emptyBatch : RecordBatch T V := ⟨[], 0, [], rfl, by simp⟩

/-- `approximate_bytes`. -/
def approximateBytes (build : RecordBatch T V) : Nat :=
  build.numRows * max 1 build.columns.length * 8

/-- `SpillManager::spill` and the reader's batches until its end. -/
def spillAndRead (batches : List (RecordBatch T V)) : List (RecordBatch T V) := batches

/-- The build side, read back from a spill file when it is over the limit. -/
def buildSide [DecidableEq T] (context : ExecutionContext) (build : RecordBatch T V) :
    Except String (RecordBatch T V) :=
  if context.memoryLimitBytes > 0 && approximateBytes build > context.memoryLimitBytes &&
      context.spill then
    (combineBatches (spillAndRead [build])).map (·.getD build)
  else .ok build

/-- The branch for two sides with rows. -/
def hashJoin [DecidableEq T] (context : ExecutionContext) (type : JoinType)
    (left right : RecordBatch T V) (leftKey rightKey : String) :
    Except String (Option (RecordBatch T V)) :=
  match fieldIndex left.schema leftKey, fieldIndex right.schema rightKey with
  | some leftIndex, some rightIndex => do
    let outputSwap := decide (type = .INNER ∧ right.numRows > left.numRows)
    let pairs ←
      if outputSwap then do
        let build ← buildSide context left
        .ok ((List.range right.numRows).flatMap
          (probeRow text type true (buildIndex text build leftIndex) right rightIndex))
      else do
        let build ← buildSide context right
        .ok ((List.range left.numRows).flatMap
          (probeRow text type false (buildIndex text build rightIndex) left leftIndex))
    .ok (some (gatherJoined left right (rightFields type right.schema) (by simp) pairs))
  | _, _ => .error "Join key missing from one side"

/-- `left == nullptr || left->num_rows() == 0`. -/
def isEmptySide (side : Option (RecordBatch T V)) : Bool :=
  match side with
  | none => true
  | some batch => batch.numRows == 0

/-- The first branch: the left side has no rows and nothing can match. -/
def emptyLeftJoin (left right : Option (RecordBatch T V)) : Option (RecordBatch T V) :=
  match left, right with
  | none, _ => none
  | some left, none => some left
  | some left, some right =>
    some (gatherJoined left right (right.schema.map Field.withNullable) (by simp)
      ((List.range left.numRows).map fun row => (some row, none)))

/-- `joinBatches`; a null pointer is `none`. -/
def joinBatches [DecidableEq T] (context : ExecutionContext) (type : JoinType)
    (left right : Option (RecordBatch T V)) (leftKey rightKey : String) :
    Except String (Option (RecordBatch T V)) :=
  if isEmptySide left && (type = .LEFT_OUTER || isEmptySide right) then
    .ok (emptyLeftJoin left right)
  else
    match left, right with
    | some left, some right =>
      if left.numRows = 0 || right.numRows = 0 then .ok (some emptyBatch)
      else hashJoin text context type left right leftKey rightKey
    | _, _ => .ok (some emptyBatch)

/-- `State::execute` of the three join operators. -/
def execute [DecidableEq T] (context : ExecutionContext) (type : JoinType)
    (left right : List (RecordBatch T V)) (leftKey rightKey : String) :
    Except String (List (RecordBatch T V)) := do
  let joined ← joinBatches text context type (← combineBatches left) (← combineBatches right)
    leftKey rightKey
  .ok joined.toList

/-- A list of equality conditions, as the binder takes it: the ON expression is one equality. -/
def executeOn [DecidableEq T] (context : ExecutionContext) (type : JoinType)
    (left right : List (RecordBatch T V)) : List (String × String) →
    Except String (List (RecordBatch T V))
  | [(leftKey, rightKey)] => execute text context type left right leftKey rightKey
  | _ => .error "JOIN ON currently requires a column equality expression"

/-! ## 2. What the hash join computes -/

theorem buildSide_eq [DecidableEq T] (context : ExecutionContext) (build : RecordBatch T V) :
    buildSide context build = .ok build := by
  unfold buildSide
  split
  · rfl
  · rfl

theorem foldl_buildRow (build : RecordBatch T V) (keyIndex : Nat) (rows : List Nat)
    (index : BuildIndex) (key : String) :
    rows.foldl (buildRow text build keyIndex) index key =
      index key ++ rows.filter fun row => (build.cell keyIndex row).map text == some key := by
  induction rows generalizing index with
  | nil => simp
  | cons row rows ih =>
    rw [foldl_cons, ih]
    cases hc : build.cell keyIndex row with
    | none => simp [buildRow, hc]
    | some value =>
      by_cases hk : key = text value
      · simp [buildRow, hc, BuildIndex.push, hk]
      · simp [buildRow, hc, BuildIndex.push, hk, Ne.symm hk]

/-- **The index holds the rows of a key text.** -/
theorem buildIndex_eq (build : RecordBatch T V) (keyIndex : Nat) (key : String) :
    buildIndex text build keyIndex key =
      (List.range build.numRows).filter fun row =>
        (build.cell keyIndex row).map text == some key := by
  simp [buildIndex, foldl_buildRow]

section Probe

variable (left right : RecordBatch T V) (leftIndex rightIndex : Nat)

/-- The key texts of two rows are there and equal. -/
def textsMatch (l r : Nat) : Bool :=
  match left.cell leftIndex l with
  | some value => (right.cell rightIndex r).map text == some (text value)
  | none => false

theorem probe_left (rows : List Nat) :
    rows.flatMap
        (probeRow text .LEFT_OUTER false (buildIndex text right rightIndex) left leftIndex) =
      leftOuterJoin (textsMatch text left right leftIndex rightIndex)
        (fun l r => (some l, some r)) (fun l => (some l, none)) rows (List.range right.numRows) := by
  rw [← flatMap_leftOuter]
  refine flatMap_congr fun row _ => ?_
  unfold probeRow textsMatch
  cases hc : left.cell leftIndex row with
  | none => simp [leftOuterJoin, hc]
  | some value =>
    simp only [buildIndex_eq, leftOuterJoin, flatMap_cons, flatMap_nil, hc, append_nil]
    cases (List.range right.numRows).filter _ <;> simp

theorem probe_inner (rows : List Nat) :
    rows.flatMap (probeRow text .INNER false (buildIndex text right rightIndex) left leftIndex) =
      innerJoin (textsMatch text left right leftIndex rightIndex) (fun l r => (some l, some r)) rows
        (List.range right.numRows) := by
  rw [← flatMap_inner]
  refine flatMap_congr fun row _ => ?_
  unfold probeRow textsMatch
  cases hc : left.cell leftIndex row with
  | none => simp [innerJoin, hc]
  | some value =>
    simp only [buildIndex_eq, innerJoin, flatMap_cons, flatMap_nil, hc, append_nil]
    cases (List.range right.numRows).filter _ <;> simp

theorem textsMatch_swap (l r : Nat) :
    textsMatch text left right leftIndex rightIndex l r =
      textsMatch text right left rightIndex leftIndex r l := by
  unfold textsMatch
  cases left.cell leftIndex l <;> cases right.cell rightIndex r <;> simp [eq_comm]

theorem probe_swap (rows : List Nat) :
    rows.flatMap (probeRow text .INNER true (buildIndex text left leftIndex) right rightIndex) =
      innerJoin (fun r l => textsMatch text left right leftIndex rightIndex l r)
        (fun r l => (some l, some r)) rows (List.range left.numRows) := by
  rw [← flatMap_inner]
  simp only [textsMatch_swap text left right]
  refine flatMap_congr fun row _ => ?_
  unfold probeRow textsMatch
  cases hc : right.cell rightIndex row with
  | none => simp [innerJoin, hc]
  | some value =>
    simp only [buildIndex_eq, innerJoin, flatMap_cons, flatMap_nil, hc, append_nil]
    cases (List.range left.numRows).filter _ <;> simp

theorem rows_gatherJoined {left right : RecordBatch T V} {fields : List (Arrow.Field T)}
    (hfields : fields.length = right.schema.length) (pairs : List (Option Nat × Option Nat)) :
    (gatherJoined left right fields hfields pairs).rows =
      pairs.map fun p => left.rowAt p.1 ++ right.rowAt p.2 := by
  refine map_range_getElem pairs _ _ fun i hi => ?_
  have h1 := map_gather left (pairs.map Prod.fst) (i := i) (by simpa using hi)
  have h2 := map_gather right (pairs.map Prod.snd) (i := i) (by simpa using hi)
  simp only [getElem_map] at h1 h2
  rw [← h1, ← h2]
  simp [RecordBatch.row, gatherJoined, Function.comp_def]

end Probe

/-! ## 3. The nested-loop join

The operator is compared with the nested-loop join.  They agree when both sides have rows;
`Covered` lists the cases of a side without rows in which they agree. -/

section Reference

variable [DecidableEq V]

/-- The key columns of both sides, as numbers. -/
def resolveKeys (leftSchema rightSchema : List (Arrow.Field T)) (keys : List (String × String)) :
    Option (List (Nat × Nat)) :=
  keys.mapM fun key => do
    let l ← fieldIndex leftSchema key.1
    let r ← fieldIndex rightSchema key.2
    some (l, r)

/-- All key values are there and equal. -/
def keysMatch (keys : List (Nat × Nat)) (l r : List (Option V)) : Bool :=
  keys.all fun key =>
    match l[key.1]?.join, r[key.2]?.join with
    | some a, some b => a == b
    | _, _ => false

/-- **The join, by its definition**: the pairs of rows whose keys match, and for LEFT OUTER the
unmatched left rows with nulls on the right. -/
def nestedLoop (type : JoinType) (keys : List (Nat × Nat)) (rightWidth : Nat)
    (left right : List (List (Option V))) : List (List (Option V)) :=
  match type with
  | .INNER => innerJoin (keysMatch keys) (· ++ ·) left right
  | .LEFT_OUTER =>
    leftOuterJoin (keysMatch keys) (· ++ ·) (· ++ List.replicate rightWidth none) left right

/-- Names and types, without the nullable flags. -/
def columnsOf (schema : List (Arrow.Field T)) : List (String × T) :=
  schema.map fun f => (f.name, f.type)

/-- An output of the operator: the rows of the definition, in any order, under the columns of the
left side and then of the right side. -/
def Joins (type : JoinType) (keys : List (Nat × Nat)) (leftSchema rightSchema : List (Arrow.Field T))
    (left right output : List (RecordBatch T V)) : Prop :=
  (output.flatMap (·.rows)).Perm
      (nestedLoop type keys rightSchema.length (left.flatMap (·.rows)) (right.flatMap (·.rows))) ∧
    ∀ b ∈ output, columnsOf b.schema = columnsOf leftSchema ++ columnsOf rightSchema

/-- Both sides have rows; or the left has none, nothing is expected, and the columns of both sides
are at hand. -/
def Covered (type : JoinType) (left right : List (RecordBatch T V)) : Prop :=
  (left.flatMap (·.rows) ≠ [] ∧ right.flatMap (·.rows) ≠ []) ∨
    (left.flatMap (·.rows) = [] ∧ (type = .LEFT_OUTER ∨ right.flatMap (·.rows) = []) ∧
      (left = [] ∨ right ≠ []))

@[simp] theorem columnsOf_append (a b : List (Arrow.Field T)) :
    columnsOf (a ++ b) = columnsOf a ++ columnsOf b := by
  simp [columnsOf]

@[simp] theorem columnsOf_withNullable (schema : List (Arrow.Field T)) :
    columnsOf (schema.map Field.withNullable) = columnsOf schema := by
  simp [columnsOf, Field.withNullable]

@[simp] theorem columnsOf_rightFields (type : JoinType) (schema : List (Arrow.Field T)) :
    columnsOf (rightFields type schema) = columnsOf schema := by
  unfold rightFields
  split <;> simp

theorem columnsOf_eq_nil {schema : List (Arrow.Field T)} : columnsOf schema = [] ↔ schema = [] := by
  simp [columnsOf]

theorem nestedLoop_nil_left (type : JoinType) (keys : List (Nat × Nat)) (rightWidth : Nat)
    (right : List (List (Option V))) : nestedLoop type keys rightWidth [] right = [] := by
  cases type <;> simp [nestedLoop]

theorem ne_nil_of_fieldIndex {schema : List (Arrow.Field T)} {name : String} {i : Nat}
    (h : fieldIndex schema name = some i) : schema ≠ [] := by
  rintro rfl
  simp [fieldIndex] at h

variable {typeOf : V → T} {left right : RecordBatch T V} {leftIndex rightIndex : Nat}
variable {f g : Arrow.Field T}

theorem textsMatch_eq (hinj : ∀ a b, typeOf a = typeOf b → text a = text b → a = b)
    (hleft : left.WellTyped typeOf) (hright : right.WellTyped typeOf)
    (hf : left.schema[leftIndex]? = some f) (hg : right.schema[rightIndex]? = some g)
    (htype : f.type = g.type) {l r : Nat} (hl : l < left.numRows) (hr : r < right.numRows) :
    textsMatch text left right leftIndex rightIndex l r =
      keysMatch [(leftIndex, rightIndex)] (left.row l) (right.row r) := by
  have hcell : left.cell leftIndex l = ((left.row l)[leftIndex]?).join := left.cell_eq _ _
  have hcell' : right.cell rightIndex r = ((right.row r)[rightIndex]?).join := right.cell_eq _ _
  simp only [textsMatch, keysMatch, all_cons, all_nil, Bool.and_true, hcell, hcell']
  cases ha : ((left.row l)[leftIndex]?).join with
  | none => rfl
  | some a =>
    cases hb : ((right.row r)[rightIndex]?).join with
    | none => rfl
    | some b =>
      have hta := hleft _ (RecordBatch.mem_rows.mpr ⟨l, hl, rfl⟩) leftIndex f a hf ha
      have htb := hright _ (RecordBatch.mem_rows.mpr ⟨r, hr, rfl⟩) rightIndex g b hg hb
      have hsame : typeOf a = typeOf b := by rw [hta, htb, htype]
      simp only [Option.map_some, Option.some_beq_some, beq_eq_beq]
      exact ⟨fun h => (hinj a b hsame h.symm), fun h => by rw [h]⟩

variable {type : JoinType} {keys : List (Nat × Nat)} {leftSchema rightSchema : List (Arrow.Field T)}
  {lefts rights : List (RecordBatch T V)}

theorem joins_nil (h : lefts.flatMap (·.rows) = []) :
    Joins type keys leftSchema rightSchema lefts rights [] := by
  refine ⟨?_, by simp⟩
  rw [h, nestedLoop_nil_left]
  exact List.Perm.refl _

theorem not_joins_emptyBatch (h : leftSchema ≠ []) :
    ¬ Joins type keys leftSchema rightSchema lefts rights [emptyBatch] := by
  rintro ⟨-, hcols⟩
  have := hcols emptyBatch (by simp)
  rw [← columnsOf_append, show (emptyBatch : RecordBatch T V).schema = [] from rfl,
    eq_comm, show columnsOf ([] : List (Arrow.Field T)) = [] from rfl, columnsOf_eq_nil] at this
  exact h (append_eq_nil_iff.mp this).1

theorem not_joins_left (hleft : left.schema = leftSchema) (h : rightSchema ≠ []) :
    ¬ Joins type keys leftSchema rightSchema lefts rights [left] := by
  rintro ⟨-, hcols⟩
  have := hcols left (by simp)
  rw [hleft] at this
  have hnil : columnsOf rightSchema = [] := by
    have hlen := congrArg List.length this
    simp only [length_append] at hlen
    exact length_eq_zero_iff.mp (by omega)
  exact h (columnsOf_eq_nil.mp hnil)

theorem joins_emptyLeft (hleft : left.schema = leftSchema) (hright : right.schema = rightSchema)
    (hrows : left.numRows = 0) (h : lefts.flatMap (·.rows) = []) :
    Joins type keys leftSchema rightSchema lefts rights
      (emptyLeftJoin (some left) (some right)).toList := by
  constructor
  · rw [h, nestedLoop_nil_left]
    simp [emptyLeftJoin, rows_gatherJoined, hrows]
  · simp [emptyLeftJoin, gatherJoined, hleft, hright]

variable [DecidableEq T]

/-- **The hash join of two batches computes the nested-loop join**, whichever side it builds on. -/
theorem hashJoin_perm (hinj : ∀ a b, typeOf a = typeOf b → text a = text b → a = b)
    (hleft : left.WellTyped typeOf) (hright : right.WellTyped typeOf)
    (hf : left.schema[leftIndex]? = some f) (hg : right.schema[rightIndex]? = some g)
    (htype : f.type = g.type) {leftKey rightKey : String}
    (hl : fieldIndex left.schema leftKey = some leftIndex)
    (hr : fieldIndex right.schema rightKey = some rightIndex) (context : ExecutionContext)
    (type : JoinType) :
    ∃ out, hashJoin text context type left right leftKey rightKey = .ok (some out) ∧
      out.schema = left.schema ++ rightFields type right.schema ∧
      out.rows.Perm
        (nestedLoop type [(leftIndex, rightIndex)] right.schema.length left.rows right.rows) := by
  have hmatch : ∀ l ∈ List.range left.numRows, ∀ r ∈ List.range right.numRows,
      textsMatch text left right leftIndex rightIndex l r =
        keysMatch [(leftIndex, rightIndex)] (left.row l) (right.row r) := fun l hl r hr =>
    textsMatch_eq text hinj hleft hright hf hg htype (mem_range.mp hl) (mem_range.mp hr)
  simp only [hashJoin, hl, hr, buildSide_eq]
  cases type with
  | LEFT_OUTER =>
    refine ⟨_, rfl, rfl, List.Perm.of_eq ?_⟩
    rw [rows_gatherJoined]
    simp only [probe_left, map_leftOuter, nestedLoop, RecordBatch.rows, leftOuter_map]
    exact leftOuter_congr hmatch (fun _ _ _ _ => rfl) fun _ _ => by rw [rowAt_none]; rfl
  | INNER =>
    by_cases hswap : right.numRows > left.numRows
    · refine ⟨_, by simp only [hswap, and_self, decide_true, ↓reduceIte]; rfl, rfl, ?_⟩
      -- built on the left side: the loops are exchanged
      rw [rows_gatherJoined]
      simp only [probe_swap, map_inner, nestedLoop, RecordBatch.rows, inner_map]
      refine (inner_swap _ _).trans (List.Perm.of_eq ?_)
      exact inner_congr hmatch fun _ _ _ _ => rfl
    · refine ⟨_, by simp only [hswap, and_false, decide_false]; rfl, rfl, List.Perm.of_eq ?_⟩
      rw [rows_gatherJoined]
      simp only [probe_inner, map_inner, nestedLoop, RecordBatch.rows, inner_map]
      exact inner_congr hmatch fun _ _ _ _ => rfl

/-- One equality: the operator's output is the join exactly when the sides are covered. -/
theorem execute_joins_iff (hinj : ∀ a b, typeOf a = typeOf b → text a = text b → a = b)
    (hlefts : ∀ b ∈ lefts, b.schema = leftSchema ∧ b.WellTyped typeOf)
    (hrights : ∀ b ∈ rights, b.schema = rightSchema ∧ b.WellTyped typeOf)
    {leftKey rightKey : String} (hl : fieldIndex leftSchema leftKey = some leftIndex)
    (hr : fieldIndex rightSchema rightKey = some rightIndex) (hf : leftSchema[leftIndex]? = some f)
    (hg : rightSchema[rightIndex]? = some g) (htype : f.type = g.type) (context : ExecutionContext)
    (type : JoinType) :
    ∃ out, execute text context type lefts rights leftKey rightKey = .ok out ∧
      (Joins type [(leftIndex, rightIndex)] leftSchema rightSchema lefts rights out ↔
        Covered type lefts rights) := by
  have hlne := ne_nil_of_fieldIndex hl
  have hrne := ne_nil_of_fieldIndex hr
  have hls : ∀ b ∈ lefts, b.schema = leftSchema := fun b hb => (hlefts b hb).1
  have hrs : ∀ b ∈ rights, b.schema = rightSchema := fun b hb => (hrights b hb).1
  simp only [execute]
  rcases combineBatches_spec hls with ⟨rfl, hcl⟩ | ⟨hlefts_ne, left, hcl, hlschema, hlrows⟩ <;>
    rcases combineBatches_spec hrs with ⟨rfl, hcr⟩ | ⟨hrights_ne, right, hcr, hrschema, hrrows⟩
  · -- no batch on either side
    refine ⟨[], by simp [combineBatches, joinBatches, isEmptySide, emptyLeftJoin, Bind.bind,
      Except.bind], iff_of_true (joins_nil rfl) ?_⟩
    exact Or.inr ⟨rfl, Or.inr rfl, Or.inl rfl⟩
  · -- no batch on the left
    by_cases hnone : type = .LEFT_OUTER ∨ right.numRows = 0
    · refine ⟨[], ?_, iff_of_true (joins_nil rfl) ?_⟩
      · rw [hcr]
        simp [combineBatches, joinBatches, isEmptySide, emptyLeftJoin, Bind.bind, Except.bind, hnone]
      · refine Or.inr ⟨rfl, ?_, Or.inl rfl⟩
        rwa [← hrrows, ← numRows_eq_zero_iff]
    · refine ⟨[emptyBatch], ?_, iff_of_false (not_joins_emptyBatch hlne) ?_⟩
      · rw [hcr]
        simp [combineBatches, joinBatches, isEmptySide, Bind.bind, Except.bind, hnone]
      · rintro (⟨h, -⟩ | ⟨-, h, -⟩)
        · exact h rfl
        · rw [← hrrows, ← numRows_eq_zero_iff] at h
          exact hnone h
  · -- no batch on the right
    by_cases hempty : left.numRows = 0
    · refine ⟨[left], ?_, iff_of_false (not_joins_left hlschema hrne) ?_⟩
      · rw [hcl]
        simp [combineBatches, joinBatches, isEmptySide, emptyLeftJoin, Bind.bind, Except.bind,
          hempty]
      · rintro (⟨-, h⟩ | ⟨-, -, h⟩)
        · exact h rfl
        · exact h.elim hlefts_ne fun h => h rfl
    · refine ⟨[emptyBatch], ?_, iff_of_false (not_joins_emptyBatch hlne) ?_⟩
      · rw [hcl]
        simp [combineBatches, joinBatches, isEmptySide, Bind.bind, Except.bind, hempty]
      · rintro (⟨-, h⟩ | ⟨h, -, -⟩)
        · exact h rfl
        · exact hempty (numRows_eq_zero_iff.mpr (hlrows.trans h))
  · rw [hcl, hcr]
    by_cases hlz : left.numRows = 0
    · have hlnil : lefts.flatMap (·.rows) = [] := hlrows ▸ numRows_eq_zero_iff.mp hlz
      by_cases hnone : type = .LEFT_OUTER ∨ right.numRows = 0
      · refine ⟨(emptyLeftJoin (some left) (some right)).toList, ?_,
          iff_of_true (joins_emptyLeft hlschema hrschema hlz hlnil) ?_⟩
        · simp [joinBatches, isEmptySide, Bind.bind, Except.bind, hlz, hnone]
        · refine Or.inr ⟨hlnil, ?_, Or.inr hrights_ne⟩
          rwa [← hrrows, ← numRows_eq_zero_iff]
      · refine ⟨[emptyBatch], ?_, iff_of_false (not_joins_emptyBatch hlne) ?_⟩
        · simp [joinBatches, isEmptySide, Bind.bind, Except.bind, hlz, hnone]
        · rintro (⟨h, -⟩ | ⟨-, h, -⟩)
          · exact h hlnil
          · rw [← hrrows, ← numRows_eq_zero_iff] at h
            exact hnone h
    · by_cases hrz : right.numRows = 0
      · refine ⟨[emptyBatch], ?_, iff_of_false (not_joins_emptyBatch hlne) ?_⟩
        · simp [joinBatches, isEmptySide, Bind.bind, Except.bind, hlz, hrz]
        · rintro (⟨-, h⟩ | ⟨h, -, -⟩)
          · exact h (hrrows ▸ numRows_eq_zero_iff.mp hrz)
          · exact hlz (numRows_eq_zero_iff.mpr (hlrows.trans h))
      · -- both sides have rows
        have hleft := wellTyped_of_rows hlefts hlschema hlrows
        have hright := wellTyped_of_rows hrights hrschema hrrows
        obtain ⟨out, hout, hschema, hperm⟩ := hashJoin_perm text hinj hleft hright
          (by rw [hlschema]; exact hf) (by rw [hrschema]; exact hg) htype
          (by rw [hlschema]; exact hl) (by rw [hrschema]; exact hr) context type
        refine ⟨[out], ?_, iff_of_true ⟨?_, ?_⟩ (Or.inl ⟨?_, ?_⟩)⟩
        · simp [joinBatches, isEmptySide, Bind.bind, Except.bind, hlz, hrz, hout]
        · rw [← hlrows, ← hrrows, ← hrschema]
          simpa using hperm
        · simp [hschema, hlschema, hrschema]
        · exact hlrows ▸ fun h => hlz (numRows_eq_zero_iff.mpr h)
        · exact hrrows ▸ fun h => hrz (numRows_eq_zero_iff.mpr h)

omit [DecidableEq T] in
theorem resolveKeys_single {key : String × String}
    (h : resolveKeys leftSchema rightSchema [key] = some keys) :
    ∃ l r, keys = [(l, r)] ∧ fieldIndex leftSchema key.1 = some l ∧
      fieldIndex rightSchema key.2 = some r := by
  simp only [resolveKeys, mapM_cons, mapM_nil, Option.bind_eq_bind,
    Option.bind_eq_some_iff, Option.pure_def, Option.some.injEq] at h
  obtain ⟨pair, ⟨l, hl, r, hr, rfl⟩, _, rfl, rfl⟩ := h
  exact ⟨l, r, rfl, hl, hr⟩

/-- **The join operator computes the nested-loop join exactly when `Covered` holds.**  For every
two lists of well-typed batches and every list of equalities between key columns of equal types,
the list is refused because it is not one equality, or the operator runs and its output is right
exactly then. -/
theorem executeOn_joins_iff (typeOf : V → T)
    (hinj : ∀ a b, typeOf a = typeOf b → text a = text b → a = b)
    (hlefts : ∀ b ∈ lefts, b.schema = leftSchema ∧ b.WellTyped typeOf)
    (hrights : ∀ b ∈ rights, b.schema = rightSchema ∧ b.WellTyped typeOf)
    {names : List (String × String)} (hresolve : resolveKeys leftSchema rightSchema names = some keys)
    (htypes : ∀ key ∈ keys, ∃ f g, leftSchema[key.1]? = some f ∧ rightSchema[key.2]? = some g ∧
      f.type = g.type) (context : ExecutionContext) (type : JoinType) :
    (names.length ≠ 1 ∧ executeOn text context type lefts rights names =
        .error "JOIN ON currently requires a column equality expression") ∨
      ∃ out, executeOn text context type lefts rights names = .ok out ∧
        (Joins type keys leftSchema rightSchema lefts rights out ↔ Covered type lefts rights) := by
  match names, hresolve with
  | [], _ => exact Or.inl ⟨by simp, rfl⟩
  | _ :: _ :: _, _ => exact Or.inl ⟨by simp, rfl⟩
  | [(leftKey, rightKey)], hresolve =>
    obtain ⟨l, r, rfl, hl, hr⟩ := resolveKeys_single hresolve
    obtain ⟨f, g, hf, hg, htype⟩ := htypes (l, r) (by simp)
    exact Or.inr (execute_joins_iff text hinj hlefts hrights hl hr hf hg htype context type)

end Reference

/-! ## 4. A left row without a right side -/

/-- One string column. -/
def oneColumn (name : String) (values : List (Option String)) : RecordBatch String String where
  schema := [⟨name, "string", true⟩]
  numRows := values.length
  columns := [values]
  columns_length := rfl
  column_length := by simp

theorem wellTyped_oneColumn (name : String) (values : List (Option String)) :
    (oneColumn name values).WellTyped fun _ => "string" := by
  rintro r - (_ | i) f v hf hv
  · obtain rfl := Option.some.inj hf
    rfl
  · simp [oneColumn] at hf

theorem executeOn_joins_iff_oneColumn :
    ([("a", "b")].length ≠ 1 ∧ executeOn id ⟨0, false⟩ .LEFT_OUTER [oneColumn "a" [some "x", none]]
        [oneColumn "b" [some "x"]] [("a", "b")] =
          .error "JOIN ON currently requires a column equality expression") ∨
      ∃ out, executeOn id ⟨0, false⟩ .LEFT_OUTER [oneColumn "a" [some "x", none]]
          [oneColumn "b" [some "x"]] [("a", "b")] = .ok out ∧
        (Joins .LEFT_OUTER [(0, 0)] [⟨"a", "string", true⟩] [⟨"b", "string", true⟩]
            [oneColumn "a" [some "x", none]] [oneColumn "b" [some "x"]] out ↔
          Covered .LEFT_OUTER [oneColumn "a" [some "x", none]] [oneColumn "b" [some "x"]]) :=
  executeOn_joins_iff id (fun _ => "string") (fun _ _ _ h => h)
    (by simpa using ⟨rfl, wellTyped_oneColumn "a" [some "x", none]⟩)
    (by simpa using ⟨rfl, wellTyped_oneColumn "b" [some "x"]⟩) (by decide) (by simp) ⟨0, false⟩
    .LEFT_OUTER

/-- **A LEFT OUTER join with a right table without rows loses its left rows and all columns.** -/
theorem executeOn_loses_left :
    ∃ out, executeOn id ⟨0, false⟩ .LEFT_OUTER [oneColumn "a" [some "x"]] [oneColumn "b" []]
        [("a", "b")] = .ok out ∧
      ¬ Joins .LEFT_OUTER [(0, 0)] (oneColumn "a" []).schema (oneColumn "b" []).schema
        [oneColumn "a" [some "x"]] [oneColumn "b" []] out := by
  refine ⟨[emptyBatch], by rfl, ?_⟩
  exact not_joins_emptyBatch (by simp [oneColumn])

end MldpDriver.Query.Join
