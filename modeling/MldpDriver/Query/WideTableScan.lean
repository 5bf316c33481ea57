/-
# The wide pivot

`pivotLongStreamWithSpill` turns rows (time, pv, value) into one row a time with one column a PV.
It checks every row while it writes the batches to a spill file, sorts every batch by time into a
run of its own, and merges the runs: the rows at the least time under any cursor become the cells
of one output row.

Section 3 states what a pivot is for.  Sections 4 to 6 show that the pivot fails exactly on the
input that has none, and otherwise computes it.
-/
import Mathlib.Algebra.Group.Int.Defs
import Mathlib.Data.List.Nodup
import MldpDriver.Lib.Loop
import MldpDriver.Lib.StableSort

namespace MldpDriver.Query.Pivot

open Lib.StableSort List
open Lib.Loop

variable {T V : Type} [DecidableEq T] (typeOf : V → T)

/-! ## 1. Rows and ingestion -/

/-- A row of the long stream; the value is the active value of a union cell. -/
structure LongRow (V : Type) where
  time : Option Int
  pv : Option String
  value : Option V

/-- A batch of the long stream with the type of its value column. -/
structure LongBatch (T V : Type) where
  valueType : T
  rows : List (LongRow V)

/-- A row whose keys have been checked. -/
structure KeyedRow (V : Type) where
  time : Int
  pv : String
  value : Option V

/-- The row with its keys, when it has both. -/
def LongRow.keyed (r : LongRow V) : Option (KeyedRow V) :=
  match r.time, r.pv with
  | some time, some pv => some ⟨time, pv, r.value⟩
  | _, _ => none

/-- `output_labels` and `value_types`. -/
structure Ingest (T : Type) where
  labels : List String
  valueTypes : List (String × T)

/-- The label list after a pivot key: a requested list stays as it is, else new keys join it. -/
def addLabel (requested labels : List String) (pv : String) : Except String (List String) :=
  if requested.isEmpty then .ok (if labels.contains pv then labels else labels ++ [pv])
  else if labels.contains pv then .ok labels
  else .error ("Physical pivot received an unexpected output-column label '" ++ pv ++ "'")

/-- `value_types` after a value; a null value leaves it as it is. -/
def addType (types : List (String × T)) (pv : String) : Option V → Except String (List (String × T))
  | none => .ok types
  | some value =>
    match types.lookup pv with
    | none => .ok ((pv, typeOf value) :: types)
    | some type =>
      if type = typeOf value then .ok types
      else .error ("Physical pivot received mixed value types for output-column label '" ++ pv ++ "'")

/-- One iteration of the row loop. -/
def ingestRow (requested : List String) (s : Ingest T) (r : LongRow V) : Except String (Ingest T) :=
  match r.time, r.pv with
  | none, _ => .error "Physical pivot received a null row key"
  | some _, none => .error "Physical pivot received a null pivot key"
  | some _, some pv => do
    let labels ← addLabel requested s.labels pv
    let types ← addType typeOf s.valueTypes pv r.value
    .ok ⟨labels, types⟩

structure PivotState (T V : Type) where
  ingest : Ingest T
  /-- The value type of `canonical_schema`. -/
  canonical : Option T
  /-- The batches written to the spill file. -/
  spilled : List (List (KeyedRow V))

/-- `canonicalizeLongPivotBatch`, for the value column: all batches have the type of the first. -/
def canonicalize (canonical : Option T) (valueType : T) : Except String T :=
  match canonical with
  | none => .ok valueType
  | some type =>
    if type = valueType then .ok type
    else .error
      "Wide pivot canonicalization found incompatible pv, time, or value types between backend batches"

/-- One iteration of the ingestion loop; a batch without rows is skipped. -/
def ingestBatch (requested : List String) (s : PivotState T V) (batch : LongBatch T V) :
    Except String (PivotState T V) :=
  if batch.rows.isEmpty then .ok s
  else do
    let ingest ← batch.rows.foldlM (ingestRow typeOf requested) s.ingest
    let canonical ← canonicalize s.canonical batch.valueType
    .ok ⟨ingest, some canonical, s.spilled ++ [batch.rows.filterMap LongRow.keyed]⟩

/-! ## 2. Runs and the merge -/

/-- The `std::stable_sort` of a run. -/
def sortRun (rows : List (KeyedRow V)) : List (KeyedRow V) :=
  stableSort (fun l r => decide (l.time < r.time)) rows

/-- A row of the output. -/
structure WideRow (V : Type) where
  time : Int
  cells : List (Option V)

/-- `cells.emplace`. -/
def emplace (labels : List String) (cells : List (String × Option V)) (r : KeyedRow V) :
    Except String (List (String × Option V)) :=
  if !labels.contains r.pv then
    .error ("Physical pivot received an unexpected output-column label '" ++ r.pv ++ "'")
  else if (cells.lookup r.pv).isSome then
    .error ("Physical pivot received a duplicate cell at row key " ++ toString r.time)
  else .ok ((r.pv, r.value) :: cells)

/-- What one cursor gives to the row at `time`, and what is left under it. -/
def takeCells (labels : List String) (time : Int) (cells : List (String × Option V)) :
    List (KeyedRow V) → Except String (List (String × Option V) × List (KeyedRow V))
  | [] => .ok (cells, [])
  | r :: rest =>
    if r.time = time then do
      let cells ← emplace labels cells r
      takeCells labels time cells rest
    else .ok (cells, r :: rest)

/-- The loop over the cursors; a cursor with nothing left is erased. -/
def collect (labels : List String) (time : Int) (cells : List (String × Option V)) :
    List (List (KeyedRow V)) →
    Except String (List (String × Option V) × List (List (KeyedRow V)))
  | [] => .ok (cells, [])
  | cursor :: rest => do
    let (cells, left) ← takeCells labels time cells cursor
    let (cells, others) ← collect labels time cells rest
    .ok (cells, if left.isEmpty then others else left :: others)

/-- `minimum_row_key`; the largest `int64_t` when there is no cursor. -/
def minimumRowKey (cursors : List (List (KeyedRow V))) : Int :=
  cursors.foldl (fun least cursor => (cursor.head?.map (·.time)).elim least (min least))
    (2 ^ 63 - 1)

/-- The output row of a time. -/
def assemble (labels : List String) (time : Int) (cells : List (String × Option V)) : WideRow V :=
  ⟨time, labels.map fun label => (cells.lookup label).join⟩

/-- The merge loop; every iteration takes a row at least, so as many iterations as rows are
enough. -/
def mergeLoop (labels : List String) :
    Nat → List (List (KeyedRow V)) → Except String (List (WideRow V))
  | 0, _ => .ok []
  | fuel + 1, cursors =>
    if cursors.isEmpty then .ok []
    else do
      let time := minimumRowKey cursors
      let (cells, cursors) ← collect labels time [] cursors
      let rest ← mergeLoop labels fuel cursors
      .ok (assemble labels time cells :: rest)

/-- The builders and the finished batches; a batch is flushed at 4096 rows. -/
def appendRow (s : List (List (WideRow V)) × List (WideRow V)) (r : WideRow V) :
    List (List (WideRow V)) × List (WideRow V) :=
  if (s.2 ++ [r]).length = 4096 then (s.1 ++ [s.2 ++ [r]], []) else (s.1, s.2 ++ [r])

/-- The rows cut into output batches; the last `flush` skips an empty batch. -/
def outputBatches (rows : List (WideRow V)) : List (List (WideRow V)) :=
  let s := rows.foldl appendRow ([], [])
  if s.2.isEmpty then s.1 else s.1 ++ [s.2]

/-- An output batch: the columns after the time column with their types (`none` is the null type),
and the rows. -/
structure WideBatch (T V : Type) where
  columns : List (String × Option T)
  rows : List (WideRow V)

/-- `readSortedPivotRuns`. -/
def readSortedPivotRuns (ingest : Ingest T) (spilled : List (List (KeyedRow V))) :
    Except String (List (WideBatch T V)) := do
  let cursors := (spilled.map sortRun).filter fun run => !run.isEmpty
  let rows ← mergeLoop ingest.labels cursors.flatten.length cursors
  let columns := ingest.labels.map fun label => (label, ingest.valueTypes.lookup label)
  .ok ((outputBatches rows).map fun rows => ⟨columns, rows⟩)

/-- `pivotLongStreamWithSpill`. -/
def pivotLongStreamWithSpill (requested : List String) (stream : List (LongBatch T V)) :
    Except String (List (WideBatch T V)) := do
  let s ← stream.foldlM (ingestBatch typeOf requested) ⟨⟨requested, []⟩, none, []⟩
  if s.spilled.isEmpty then .ok [] else readSortedPivotRuns s.ingest s.spilled

/-! ## 3. What a pivot is for -/

/-- Two rows whose values have different types. -/
def TypesClash (r r' : LongRow V) : Prop :=
  ∃ v v', r.value = some v ∧ r'.value = some v' ∧ typeOf v ≠ typeOf v'

/-- The input has no pivot: a key is null, a PV was not requested, one PV has values of two types,
or two rows share time and PV. -/
inductive Rejected (requested : List String) (rows : List (LongRow V)) : Prop
  | nullTime (r : LongRow V) (h : r ∈ rows) (ht : r.time = none)
  | nullPv (r : LongRow V) (h : r ∈ rows) (hp : r.pv = none)
  | unrequested (r : LongRow V) (h : r ∈ rows) (pv : String) (hpv : r.pv = some pv)
      (hne : requested ≠ []) (hnot : pv ∉ requested)
  | mixed (r r' : LongRow V) (h : r ∈ rows) (h' : r' ∈ rows) (hpv : r.pv = r'.pv)
      (hclash : TypesClash typeOf r r')
  | duplicate (h : ¬ rows.Pairwise fun r r' => r.time = r'.time → r.pv ≠ r'.pv)

/-- The columns of a pivot: those requested, or the PVs in the order of their first rows. -/
def expectedLabels (requested : List String) (rows : List (LongRow V)) : List String :=
  if requested = [] then (rows.filterMap (·.pv)).eraseDups else requested

/-- **The purpose of the pivot.**  One row for every time of the input, times strictly ascending;
a cell holds the value of the input row of its time and PV, or null when there is none; a column
has the type of its values. -/
structure IsPivot (requested : List String) (rows : List (LongRow V))
    (output : List (WideBatch T V)) : Prop where
  labels : ∀ b ∈ output, b.columns.map Prod.fst = expectedLabels requested rows
  types : ∀ b ∈ output, ∀ c ∈ b.columns, ∀ r ∈ rows, r.pv = some c.1 →
    ∀ v, r.value = some v → c.2 = some (typeOf v)
  ascending : ((output.flatMap (·.rows)).map WideRow.time).Pairwise (· < ·)
  times : ∀ t, t ∈ (output.flatMap (·.rows)).map WideRow.time ↔ ∃ r ∈ rows, r.time = some t
  width : ∀ w ∈ output.flatMap (·.rows), w.cells.length = (expectedLabels requested rows).length
  cells : ∀ w ∈ output.flatMap (·.rows), ∀ (k : Nat) (label : String),
    (expectedLabels requested rows)[k]? = some label →
      (∀ r ∈ rows, r.time = some w.time → r.pv = some label → w.cells[k]? = some r.value) ∧
      ((∀ r ∈ rows, r.time = some w.time → r.pv ≠ some label) → w.cells[k]? = some none)

/-! ## 4. Ingestion -/

variable {typeOf} {requested : List String} {rows more : List (LongRow V)}

omit [DecidableEq T] in
theorem Rejected.append (h : Rejected typeOf requested rows) :
    Rejected typeOf requested (rows ++ more) := by
  have hmem : ∀ {r}, r ∈ rows → r ∈ rows ++ more := mem_append_left more
  cases h with
  | nullTime r h ht => exact .nullTime r (hmem h) ht
  | nullPv r h hp => exact .nullPv r (hmem h) hp
  | unrequested r h pv hpv hne hnot => exact .unrequested r (hmem h) pv hpv hne hnot
  | mixed r r' h h' hpv hclash => exact .mixed r r' (hmem h) (hmem h') hpv hclash
  | duplicate h => exact .duplicate fun hp => h (pairwise_append.mp hp).1

/-- What the row loop knows about the rows it has passed. -/
structure Checked (typeOf : V → T) (requested : List String) (done : List (LongRow V))
    (s : Ingest T) : Prop where
  labels : s.labels = expectedLabels requested done
  times : ∀ r ∈ done, r.time ≠ none
  pvs : ∀ r ∈ done, ∃ pv, r.pv = some pv ∧ pv ∈ s.labels
  types : ∀ pv type, s.valueTypes.lookup pv = some type ↔
    ∃ r ∈ done, r.pv = some pv ∧ r.value.map typeOf = some type

omit [DecidableEq T] in
theorem checked_nil : Checked typeOf requested [] ⟨requested, []⟩ where
  labels := by
    unfold expectedLabels
    split
    · rename_i h
      simp [h]
    · rfl
  times := by simp
  pvs := by simp
  types := by simp

theorem eraseDups_concat (xs : List String) (x : String) :
    (xs ++ [x]).eraseDups = if x ∈ xs then xs.eraseDups else xs.eraseDups ++ [x] := by
  rw [eraseDups_append]
  split
  · rename_i h
    simp [List.removeAll, h]
  · rename_i h
    simp [List.removeAll, h, eraseDups_cons]

variable {pv : String}

theorem expectedLabels_append (requested : List String) (rows : List (LongRow V)) (r : LongRow V)
    (hpv : r.pv = some pv) :
    expectedLabels requested (rows ++ [r]) =
      if requested = [] ∧ pv ∉ expectedLabels requested rows then
        expectedLabels requested rows ++ [pv]
      else expectedLabels requested rows := by
  unfold expectedLabels
  by_cases hr : requested = []
  · have hone : [r].filterMap (·.pv) = [pv] := by simp [hpv]
    simp only [hr, ↓reduceIte, filterMap_append, hone, eraseDups_concat, mem_eraseDups,
      true_and, ite_not]
  · simp [hr]

variable {labels : List String}
variable {r : LongRow V}

omit [DecidableEq T] in
theorem addLabel_outcome (hpv : r.pv = some pv) (h : labels = expectedLabels requested rows) :
    Outcome (addLabel requested labels pv)
      (fun labels' => labels' = expectedLabels requested (rows ++ [r]) ∧ pv ∈ labels')
      (Rejected typeOf requested (rows ++ [r])) := by
  have happend := expectedLabels_append requested rows r hpv
  rw [← h] at happend
  rw [happend]
  unfold addLabel
  by_cases hr : requested = [] <;> by_cases hm : pv ∈ labels
  · simpa [hr, hm] using Outcome.ok (by simp [hm])
  · simpa [hr, hm] using Outcome.ok (by simp)
  · simpa [hr, hm] using Outcome.ok (by simp [hm])
  · simp only [hr, isEmpty_eq_false_iff.mpr hr, Bool.false_eq_true, ↓reduceIte,
      contains_eq_mem, hm, decide_false]
    refine Outcome.error (.unrequested r (by simp) pv hpv hr fun hmem => hm ?_)
    rw [h]
    simpa [expectedLabels, hr] using hmem

variable {s : Ingest T}

theorem addType_outcome (hpv : r.pv = some pv) (h : Checked typeOf requested rows s) :
    Outcome (addType typeOf s.valueTypes pv r.value)
      (fun types => ∀ pv type, types.lookup pv = some type ↔
        ∃ r' ∈ rows ++ [r], r'.pv = some pv ∧ r'.value.map typeOf = some type)
      (Rejected typeOf requested (rows ++ [r])) := by
  cases hv : r.value with
  | none =>
    refine Outcome.ok fun pv' type => ?_
    rw [h.types]
    simp [hv, or_and_right, exists_or]
  | some v =>
    unfold addType
    cases hl : s.valueTypes.lookup pv with
    | none =>
      refine Outcome.ok fun pv' type => ?_
      rw [lookup_cons]
      by_cases hp : pv' = pv
      · subst hp
        have hnone : ¬ ∃ r' ∈ rows, r'.pv = some pv' ∧ r'.value.map typeOf = some type := by
          rw [← h.types, hl]
          simp
        have hnone' : ∀ r' ∈ rows, r'.pv = some pv' → ¬ r'.value.map typeOf = some type :=
          fun r' hr' hp' ht' => hnone ⟨r', hr', hp', ht'⟩
        constructor
        · intro ht
          exact ⟨r, by simp, hpv, by simpa [hv] using ht⟩
        · rintro ⟨r', hr', hp', ht'⟩
          rcases mem_append.mp hr' with hr' | hr'
          · exact absurd ht' (hnone' r' hr' hp')
          · obtain rfl := mem_singleton.mp hr'
            simpa [hv] using ht'
      · have hp' : (pv' == pv) = false := by simpa using hp
        simp only [hp']
        rw [h.types]
        have hr : r.pv ≠ some pv' := by rw [hpv]; simpa using Ne.symm hp
        simp [or_and_right, exists_or, hr]
    | some type =>
      obtain ⟨r', hr', hp', ht'⟩ := (h.types pv type).mp hl
      by_cases ht : type = typeOf v
      · simp only [ht, ↓reduceIte]
        refine Outcome.ok fun pv' type' => ?_
        rw [h.types]
        constructor
        · rintro ⟨r₁, hr₁, h₁⟩
          exact ⟨r₁, by simp [hr₁], h₁⟩
        · rintro ⟨r₁, hr₁, hp₁, ht₁⟩
          rcases mem_append.mp hr₁ with hr₁ | hr₁
          · exact ⟨r₁, hr₁, hp₁, ht₁⟩
          · obtain rfl := mem_singleton.mp hr₁
            have hpv' : pv = pv' := by simpa [hpv] using hp₁
            have htype : type = type' := by simpa [hv, ← ht] using ht₁
            exact ⟨r', hr', hpv' ▸ hp', htype ▸ ht'⟩
      · simp only [ht, ↓reduceIte]
        obtain ⟨v', hv', htv'⟩ := Option.map_eq_some_iff.mp ht'
        exact Outcome.error (.mixed r' r (by simp [hr']) (by simp) (hp'.trans hpv.symm)
          ⟨v', v, hv', hv, by rw [htv']; exact ht⟩)

/-- **One row is checked, or it makes the input one without a pivot.** -/
theorem ingestRow_outcome (done : List (LongRow V)) (r : LongRow V) (s : Ingest T)
    (h : Checked typeOf requested done s) :
    Outcome (ingestRow typeOf requested s r) (Checked typeOf requested (done ++ [r]))
      (Rejected typeOf requested (done ++ [r])) := by
  unfold ingestRow
  cases ht : r.time with
  | none => exact Outcome.error (.nullTime r (by simp) ht)
  | some time =>
    cases hp : r.pv with
    | none => exact Outcome.error (.nullPv r (by simp) hp)
    | some pv =>
      refine Outcome.bind (addLabel_outcome hp h.labels) fun labels hlabels => ?_
      refine Outcome.bind (addType_outcome hp h) fun types htypes => Outcome.ok ?_
      refine ⟨hlabels.1, ?_, ?_, htypes⟩
      · intro r' hr'
        rcases mem_append.mp hr' with hr' | hr'
        · exact h.times r' hr'
        · simp [mem_singleton.mp hr', ht]
      · intro r' hr'
        rcases mem_append.mp hr' with hr' | hr'
        · obtain ⟨pv', hpv', hmem⟩ := h.pvs r' hr'
          refine ⟨pv', hpv', ?_⟩
          have happend := expectedLabels_append requested done r hp
          simp only
          rw [hlabels.1, happend, ← h.labels]
          split <;> simp [hmem]
        · obtain rfl := mem_singleton.mp hr'
          exact ⟨pv, hp, hlabels.2⟩

/-- The rows of a stream. -/
def streamRows (stream : List (LongBatch T V)) : List (LongRow V) := stream.flatMap (·.rows)

/-- What the batch loop knows about the batches it has passed. -/
structure Ingested (typeOf : V → T) (requested : List String) (valueType : T)
    (done : List (LongBatch T V)) (s : PivotState T V) : Prop where
  checked : Checked typeOf requested (streamRows done) s.ingest
  spilled : s.spilled.flatten = (streamRows done).filterMap LongRow.keyed
  any : s.spilled = [] ↔ streamRows done = []
  canonical : ∀ type, s.canonical = some type → type = valueType

theorem ingestBatch_outcome {valueType : T} (done : List (LongBatch T V)) (batch : LongBatch T V)
    (hbatch : batch.valueType = valueType) (s : PivotState T V)
    (h : Ingested typeOf requested valueType done s) :
    Outcome (ingestBatch typeOf requested s batch)
      (Ingested typeOf requested valueType (done ++ [batch]))
      (Rejected typeOf requested (streamRows (done ++ [batch]))) := by
  have hrows : streamRows (done ++ [batch]) = streamRows done ++ batch.rows := by simp [streamRows]
  unfold ingestBatch
  by_cases hempty : batch.rows = []
  · simp only [hempty, isEmpty_nil, ↓reduceIte]
    refine Outcome.ok ⟨?_, ?_, ?_, h.canonical⟩ <;> rw [hrows, hempty, append_nil]
    · exact h.checked
    · exact h.spilled
    · exact h.any
  · simp only [isEmpty_eq_false_iff.mpr hempty, Bool.false_eq_true, ↓reduceIte, hrows]
    refine Outcome.bind (foldlM_outcome (fun _ _ => Rejected.append) batch.rows
      (fun done r _ s => ingestRow_outcome done r s) h.checked) fun ingest hingest => ?_
    have hcanon : canonicalize s.canonical batch.valueType = .ok valueType := by
      cases hc : s.canonical with
      | none => rw [canonicalize, hbatch]
      | some type => simp [canonicalize, hbatch, h.canonical type hc]
    rw [hcanon]
    refine Outcome.ok ⟨?_, ?_, ?_, fun type ht => (Option.some.inj ht).symm⟩ <;> rw [hrows]
    · exact hingest
    · simp [h.spilled]
    · simp [hempty]

/-- **Ingestion** passes the whole stream, or the stream has no pivot. -/
theorem ingest_outcome {valueType : T} {stream : List (LongBatch T V)}
    (hstream : ∀ b ∈ stream, b.valueType = valueType) :
    Outcome (stream.foldlM (ingestBatch typeOf requested) ⟨⟨requested, []⟩, none, []⟩)
      (Ingested typeOf requested valueType stream)
      (Rejected typeOf requested (streamRows stream)) := by
  have hstart : Ingested (V := V) typeOf requested valueType [] ⟨⟨requested, []⟩, none, []⟩ :=
    ⟨checked_nil, rfl, iff_of_true rfl rfl, by simp⟩
  have hmono : ∀ done more : List (LongBatch T V), Rejected typeOf requested (streamRows done) →
      Rejected typeOf requested (streamRows (done ++ more)) := by
    intro done more hbad
    simpa [streamRows] using hbad.append
  exact foldlM_outcome hmono stream
    (fun done b hb s => ingestBatch_outcome done b (hstream b hb) s) hstart

/-! ## 5. The merge -/

/-- The time and the PV of a row. -/
def KeyedRow.key (r : KeyedRow V) : Int × String := (r.time, r.pv)

/-- The rows at a time, and the others. -/
abbrev rowsAt (time : Int) (rows : List (KeyedRow V)) : List (KeyedRow V) :=
  rows.filter fun r => r.time == time

abbrev rowsOff (time : Int) (rows : List (KeyedRow V)) : List (KeyedRow V) :=
  rows.filter fun r => r.time != time

/-- The entry of a row in `cells`. -/
abbrev KeyedRow.entry (r : KeyedRow V) : String × Option V := (r.pv, r.value)

/-- A run in the order of its times. -/
abbrev Ascending (run : List (KeyedRow V)) : Prop := run.Pairwise fun l r => l.time ≤ r.time

variable {cells : List (String × Option V)}

theorem emplace_outcome {r : KeyedRow V} (hlabel : r.pv ∈ labels)
    (hcells : (cells.map Prod.fst).Nodup) :
    Outcome (emplace labels cells r)
      (fun cells' => cells' = r.entry :: cells ∧ (cells'.map Prod.fst).Nodup)
      (¬ ((r.entry :: cells).map Prod.fst).Nodup) := by
  have hlookup : (cells.lookup r.pv).isSome = true ↔ r.pv ∈ cells.map Prod.fst := by
    rw [lookup_isSome_iff, mem_map]
    constructor
    · rintro ⟨p, hp, heq⟩
      exact ⟨p, hp, (beq_iff_eq.mp heq).symm⟩
    · rintro ⟨p, hp, heq⟩
      exact ⟨p, hp, beq_iff_eq.mpr heq.symm⟩
  unfold emplace
  simp only [contains_eq_mem, hlabel, decide_true, Bool.not_true, Bool.false_eq_true,
    ↓reduceIte]
  by_cases hmem : r.pv ∈ cells.map Prod.fst
  · rw [if_pos (hlookup.mpr hmem)]
    exact Outcome.error fun hnodup => (nodup_cons.mp hnodup).1 hmem
  · rw [if_neg (fun h => hmem (hlookup.mp h))]
    exact Outcome.ok ⟨rfl, nodup_cons.mpr ⟨hmem, hcells⟩⟩

variable {time : Int}

/-- A cursor of an ascending run gives its rows at the least time. -/
theorem takeCells_outcome {run : List (KeyedRow V)} (hlabels : ∀ r ∈ run, r.pv ∈ labels)
    (hrun : Ascending run) (hleast : ∀ r ∈ run, time ≤ r.time) (hcells : (cells.map
    Prod.fst).Nodup) :
    Outcome (takeCells labels time cells run)
      (fun p => p.1 = ((rowsAt time run).map KeyedRow.entry).reverse ++ cells ∧
        p.2 = rowsOff time run ∧ (p.1.map Prod.fst).Nodup)
      (¬ ((((rowsAt time run).map KeyedRow.entry).reverse ++ cells).map Prod.fst).Nodup) := by
  induction run generalizing cells with
  | nil => exact Outcome.ok ⟨by simp, by simp, hcells⟩
  | cons r rest ih =>
    obtain ⟨hr, hrest⟩ := pairwise_cons.mp hrun
    unfold takeCells
    by_cases ht : r.time = time
    · have hat : rowsAt time (r :: rest) = r :: rowsAt time rest := by simp [rowsAt, ht]
      have hoff : rowsOff time (r :: rest) = rowsOff time rest := by simp [rowsOff, ht]
      simp only [ht, ↓reduceIte, hat, hoff, map_cons, reverse_cons, append_assoc,
        singleton_append]
      refine Outcome.bind ((emplace_outcome (hlabels r (by simp)) hcells).mono (fun _ h => h) ?_) ?_
      · intro hdup hnodup
        rw [map_append] at hnodup
        exact hdup hnodup.of_append_right
      · rintro cells' ⟨rfl, hcells'⟩
        exact ih (fun r hr => hlabels r (by simp [hr])) hrest (fun r hr => hleast r (by simp [hr]))
          hcells'
    · -- the run ascends, so nothing behind `r` is at the least time
      have hlt := hleast r (by simp)
      have hne : ∀ r' ∈ rest, r'.time ≠ time := fun r' hr' => by
        have := hr r' hr'
        omega
      have hat : rowsAt time (r :: rest) = [] := by
        simpa [rowsAt, ht] using hne
      have hoff : rowsOff time (r :: rest) = r :: rest := by
        simpa [rowsOff, ht] using hne
      simp only [ht, ↓reduceIte, hat, hoff]
      exact Outcome.ok ⟨by simp, rfl, hcells⟩

variable {cursors : List (List (KeyedRow V))}

/-- **One round of the merge** takes the rows at the least time from every cursor. -/
theorem collect_outcome (hlabels : ∀ c ∈ cursors, ∀ r ∈ c, r.pv ∈ labels)
    (hruns : ∀ c ∈ cursors, Ascending c) (hleast : ∀ c ∈ cursors, ∀ r ∈ c, time ≤ r.time)
    (hcells : (cells.map Prod.fst).Nodup) :
    Outcome (collect labels time cells cursors)
      (fun p => p.1 = ((rowsAt time cursors.flatten).map KeyedRow.entry).reverse ++ cells ∧
        p.2 = (cursors.map (rowsOff time)).filter (fun c => !c.isEmpty) ∧ (p.1.map Prod.fst).Nodup)
      (¬ ((((rowsAt time cursors.flatten).map KeyedRow.entry).reverse ++ cells).map
        Prod.fst).Nodup) := by
  induction cursors generalizing cells with
  | nil => exact Outcome.ok ⟨by simp, by simp, hcells⟩
  | cons c rest ih =>
    have hflat : rowsAt time (c :: rest).flatten = rowsAt time c ++ rowsAt time rest.flatten := by
      simp [rowsAt]
    unfold collect
    simp only [hflat, map_append, reverse_append, append_assoc]
    refine Outcome.bind ((takeCells_outcome (hlabels c (by simp)) (hruns c (by simp))
      (hleast c (by simp)) hcells).mono (fun _ h => h) ?_) ?_
    · intro hdup hnodup
      simp only [map_append] at hdup hnodup
      exact hdup hnodup.of_append_right
    · rintro ⟨cells', left⟩ ⟨rfl, rfl, hcells'⟩
      refine Outcome.bind ((ih (fun c hc => hlabels c (by simp [hc]))
        (fun c hc => hruns c (by simp [hc]))
        (fun c hc => hleast c (by simp [hc])) hcells').mono (fun _ h => h) ?_) ?_
      · simp only [map_append, imp_self]
      · rintro ⟨cells'', others⟩ ⟨rfl, rfl, hcells''⟩
        refine Outcome.ok ⟨rfl, ?_, hcells''⟩
        simp only [map_cons, filter_cons]
        cases (rowsOff time c).isEmpty <;> simp

theorem minimumRowKey_spec (hne : cursors ≠ []) (hruns : ∀ c ∈ cursors, c ≠ [] ∧ Ascending c)
    (hmax : ∀ c ∈ cursors, ∀ r ∈ c, r.time ≤ 2 ^ 63 - 1) :
    (∀ c ∈ cursors, ∀ r ∈ c, minimumRowKey cursors ≤ r.time) ∧
      ∃ c ∈ cursors, ∃ r ∈ c, r.time = minimumRowKey cursors := by
  -- the fold is at most its start and every head, and is one of them
  have hfold : ∀ (cursors : List (List (KeyedRow V))) (least : Int),
      (∀ c ∈ cursors, c ≠ [] ∧ Ascending c) →
      let m := cursors.foldl (fun least cursor =>
        (cursor.head?.map (·.time)).elim least (min least)) least
      m ≤ least ∧ (∀ c ∈ cursors, ∀ r ∈ c, m ≤ r.time) ∧
        (m = least ∨ ∃ c ∈ cursors, ∃ r ∈ c, r.time = m) := by
    intro cursors
    induction cursors with
    | nil => simp
    | cons c rest ih =>
      intro least h
      obtain ⟨hc, hasc⟩ := h c (by simp)
      obtain ⟨r, tail, rfl⟩ := exists_cons_of_ne_nil hc
      obtain ⟨h1, h2, h3⟩ := ih (min least r.time) fun c hc => h c (by simp [hc])
      simp only [foldl_cons, List.head?_cons, Option.map_some, Option.elim_some]
      refine ⟨by omega, ?_, ?_⟩
      · intro c' hc' r' hr'
        rcases mem_cons.mp hc' with rfl | hc'
        · rcases mem_cons.mp hr' with rfl | hr'
          · omega
          · have := (pairwise_cons.mp hasc).1 r' hr'
            omega
        · exact h2 c' hc' r' hr'
      · rcases h3 with h3 | ⟨c', hc', r', hr', h3⟩
        · by_cases hm : least ≤ r.time
          · exact Or.inl (h3.trans (by omega))
          · exact Or.inr ⟨r :: tail, by simp, r, by simp, by omega⟩
        · exact Or.inr ⟨c', by simp [hc'], r', hr', h3⟩
  obtain ⟨-, h2, h3⟩ := hfold cursors (2 ^ 63 - 1) hruns
  refine ⟨h2, ?_⟩
  rcases h3 with h3 | h3
  · -- no time is below the start, so a head is equal to it
    obtain ⟨c, rest, rfl⟩ := exists_cons_of_ne_nil hne
    obtain ⟨r, tail, rfl⟩ := exists_cons_of_ne_nil (hruns c (by simp)).1
    have hle := h2 (r :: tail) (by simp) r (by simp)
    have hge := hmax (r :: tail) (by simp) r (by simp)
    refine ⟨r :: tail, by simp, r, by simp, ?_⟩
    unfold minimumRowKey
    omega
  · exact h3

/-- The cell of a time and a label: the value of a row with these keys, else null. -/
def CellOf (rows : List (KeyedRow V)) (time : Int) (label : String) (cell : Option V) : Prop :=
  (∃ r ∈ rows, r.time = time ∧ r.pv = label ∧ r.value = cell) ∨
    (∀ r ∈ rows, r.time = time → r.pv ≠ label) ∧ cell = none

/-- The wide rows of keyed rows. -/
structure Wide (labels : List String) (rows : List (KeyedRow V)) (out : List (WideRow V)) :
    Prop where
  distinct : (rows.map KeyedRow.key).Nodup
  ascending : (out.map WideRow.time).Pairwise (· < ·)
  times : ∀ t, t ∈ out.map WideRow.time ↔ ∃ r ∈ rows, r.time = t
  cells : ∀ w ∈ out, List.Forall₂ (CellOf rows w.time) labels w.cells

theorem rowsAt_append_rowsOff (time : Int) (rows : List (KeyedRow V)) :
    (rowsAt time rows ++ rowsOff time rows).Perm rows :=
  filter_append_perm _ _

theorem nodup_keys_iff (time : Int) (rows : List (KeyedRow V)) :
    (rows.map KeyedRow.key).Nodup ↔
      ((rowsAt time rows).map KeyedRow.pv).Nodup ∧ ((rowsOff time rows).map KeyedRow.key).Nodup := by
  rw [← ((rowsAt_append_rowsOff time rows).map KeyedRow.key).nodup_iff, map_append,
    List.nodup_append]
  have hat : ((rowsAt time rows).map KeyedRow.key) =
      ((rowsAt time rows).map KeyedRow.pv).map (Prod.mk time) := by
    rw [map_map]
    refine map_congr_left fun r hr => ?_
    have : r.time = time := by simpa using (mem_filter.mp hr).2
    simp [KeyedRow.key, this]
  rw [hat, nodup_map_iff fun _ _ h => (Prod.mk.inj h).2]
  refine ⟨fun h => ⟨h.1, h.2.1⟩, fun h => ⟨h.1, h.2, ?_⟩⟩
  rintro _ ha _ hb rfl
  obtain ⟨pv, -, rfl⟩ := mem_map.mp ha
  obtain ⟨r, hr, hkey⟩ := mem_map.mp hb
  have hoff : r.time ≠ time := by simpa using (mem_filter.mp hr).2
  exact hoff (congrArg Prod.fst hkey)

theorem map_fst_entries (rows : List (KeyedRow V)) :
    ((rows.map KeyedRow.entry).reverse ++ []).map Prod.fst = (rows.map KeyedRow.pv).reverse := by
  simp [Function.comp_def]

theorem assemble_cells (labels : List String) (time : Int) (rows : List (KeyedRow V)) :
    List.Forall₂ (CellOf rows time) labels
      (assemble labels time ((rowsAt time rows).map KeyedRow.entry).reverse).cells := by
  simp only [assemble, List.forall₂_map_right_iff]
  refine List.forall₂_same.mpr fun label _ => ?_
  cases hl : (((rowsAt time rows).map KeyedRow.entry).reverse).lookup label with
  | none =>
    refine Or.inr ⟨fun r hr ht hpv => ?_, rfl⟩
    rw [lookup_eq_none_iff] at hl
    have := hl r.entry (by simpa using ⟨r, ⟨hr, ht⟩, rfl, rfl⟩)
    simp [hpv] at this
  | some cell =>
    obtain ⟨l₁, l₂, hsplit, -⟩ := List.lookup_eq_some_iff.mp hl
    have hmem : (label, cell) ∈ ((rowsAt time rows).map KeyedRow.entry).reverse := by
      rw [hsplit]
      simp
    rw [mem_reverse] at hmem
    obtain ⟨r, hr, hentry⟩ := mem_map.mp hmem
    obtain ⟨hr, ht⟩ := mem_filter.mp hr
    obtain ⟨rfl, rfl⟩ := Prod.mk.inj hentry
    exact Or.inl ⟨r, hr, by simpa using ht, rfl, rfl⟩

theorem Wide.cons {rows : List (KeyedRow V)} {out : List (WideRow V)}
    (hleast : ∀ r ∈ rows, time ≤ r.time) (hat : ∃ r ∈ rows, r.time = time)
    (hpvs : ((rowsAt time rows).map KeyedRow.pv).Nodup) (h : Wide labels (rowsOff time rows) out) :
    Wide labels rows
      (assemble labels time ((rowsAt time rows).map KeyedRow.entry).reverse :: out) where
  distinct := (nodup_keys_iff time rows).mpr ⟨hpvs, h.distinct⟩
  ascending := by
    refine pairwise_cons.mpr ⟨fun t ht => ?_, h.ascending⟩
    obtain ⟨r, hr, rfl⟩ := (h.times t).mp ht
    obtain ⟨hr, hoff⟩ := mem_filter.mp hr
    have h1 := hleast r hr
    have h2 : r.time ≠ time := by simpa using hoff
    simp only [assemble]
    omega
  times := by
    intro t
    rw [map_cons, mem_cons, h.times]
    constructor
    · rintro (rfl | ⟨r, hr, rfl⟩)
      · exact hat
      · exact ⟨r, (mem_filter.mp hr).1, rfl⟩
    · rintro ⟨r, hr, rfl⟩
      by_cases ht : r.time = time
      · exact Or.inl ht
      · exact Or.inr ⟨r, mem_filter.mpr ⟨hr, by simpa using ht⟩, rfl⟩
  cells := by
    intro w hw
    rcases mem_cons.mp hw with rfl | hw
    · exact assemble_cells labels time rows
    · -- a row of another time reads the same rows
      have hne : w.time ≠ time := by
        obtain ⟨r, hr, hrt⟩ := (h.times w.time).mp (mem_map_of_mem hw)
        have : r.time ≠ time := by simpa using (mem_filter.mp hr).2
        rwa [hrt] at this
      refine (h.cells w hw).imp fun label cell hcell => ?_
      rcases hcell with ⟨r, hr, hrest⟩ | ⟨hnone, hcell⟩
      · exact Or.inl ⟨r, (mem_filter.mp hr).1, hrest⟩
      · refine Or.inr ⟨fun r hr ht => hnone r (mem_filter.mpr ⟨hr, ?_⟩) ht, hcell⟩
        simpa [ht] using hne

/-- **The merge** computes the wide rows of all rows under its cursors, or two rows share their
keys. -/
theorem mergeLoop_outcome (fuel : Nat) (hlabels : ∀ c ∈ cursors, ∀ r ∈ c, r.pv ∈ labels)
    (hruns : ∀ c ∈ cursors, c ≠ [] ∧ Ascending c)
    (hmax : ∀ c ∈ cursors, ∀ r ∈ c, r.time ≤ 2 ^ 63 - 1) (hfuel : cursors.flatten.length ≤ fuel) :
    Outcome (mergeLoop labels fuel cursors) (Wide labels cursors.flatten)
      (¬ (cursors.flatten.map KeyedRow.key).Nodup) := by
  have hdone : cursors = [] → Wide labels cursors.flatten [] := by
    rintro rfl
    exact ⟨by simp, by simp, by simp, by simp⟩
  induction fuel generalizing cursors with
  | zero =>
    refine Outcome.ok (hdone ?_)
    rcases cursors with _ | ⟨c, rest⟩
    · rfl
    · have := (hruns c (by simp)).1
      simp_all
  | succ fuel ih =>
    unfold mergeLoop
    by_cases hne : cursors = []
    · simpa [hne] using Outcome.ok (by simpa [hne] using hdone hne)
    simp only [isEmpty_eq_false_iff.mpr hne, Bool.false_eq_true, ↓reduceIte]
    obtain ⟨hleast, c₀, hc₀, r₀, hr₀, ht₀⟩ := minimumRowKey_spec hne hruns hmax
    generalize minimumRowKey cursors = time at hleast ht₀ ⊢
    have hleast' : ∀ r ∈ cursors.flatten, time ≤ r.time := by
      intro r hr
      obtain ⟨c, hc, hr⟩ := mem_flatten.mp hr
      exact hleast c hc r hr
    have hat : ∃ r ∈ cursors.flatten, r.time = time :=
      ⟨r₀, mem_flatten.mpr ⟨c₀, hc₀, hr₀⟩, ht₀⟩
    refine Outcome.bind ((collect_outcome hlabels (fun c hc => (hruns c hc).2) hleast
      (by simp)).mono (fun _ h => h) ?_) ?_
    · rw [map_fst_entries, nodup_reverse, nodup_keys_iff time]
      exact fun hdup hnodup => hdup hnodup.1
    rintro ⟨cells, cursors'⟩ ⟨rfl, rfl, hnodup⟩
    rw [map_fst_entries, nodup_reverse] at hnodup
    -- what is left under the cursors: the rows of the other times
    have hrest : ((cursors.map (rowsOff time)).filter fun c => !c.isEmpty).flatten =
        rowsOff time cursors.flatten := by
      rw [flatten_filter_not_isEmpty]
      exact (filter_flatten ..).symm
    have hsub : ∀ c ∈ (cursors.map (rowsOff time)).filter (fun c => !c.isEmpty),
        c ≠ [] ∧ ∃ c' ∈ cursors, c = rowsOff time c' := by
      intro c hc
      obtain ⟨hc, hemp⟩ := mem_filter.mp hc
      obtain ⟨c', hc', rfl⟩ := mem_map.mp hc
      exact ⟨by simpa using hemp, c', hc', rfl⟩
    have hlt : (rowsOff time cursors.flatten).length < cursors.flatten.length := by
      obtain ⟨r, hr, ht⟩ := hat
      refine length_filter_lt_length_iff_exists.mpr ⟨r, hr, by simp [ht]⟩
    have hnext := @ih ((cursors.map (rowsOff time)).filter fun c => !c.isEmpty) ?_ ?_ ?_ ?_ ?_
    · rw [hrest] at hnext
      refine Outcome.bind (hnext.mono (fun _ h => h) fun hdup hn =>
        hdup ((nodup_keys_iff time _).mp hn).2) fun out hout => ?_
      rw [append_nil]
      exact Outcome.ok (hout.cons hleast' hat hnodup)
    · intro c hc r hr
      obtain ⟨-, c', hc', rfl⟩ := hsub c hc
      exact hlabels c' hc' r (mem_filter.mp hr).1
    · intro c hc
      obtain ⟨hemp, c', hc', rfl⟩ := hsub c hc
      exact ⟨hemp, (hruns c' hc').2.filter _⟩
    · intro c hc r hr
      obtain ⟨-, c', hc', rfl⟩ := hsub c hc
      exact hmax c' hc' r (mem_filter.mp hr).1
    · rw [hrest]
      omega
    · intro h
      rw [h]
      exact ⟨by simp, by simp, by simp, by simp⟩

/-! ## 6. The pivot -/

theorem timeLess_weakOrder : WeakOrder fun l r : KeyedRow V => decide (l.time < r.time) where
  asymm l r h := by
    simp only [decide_eq_true_eq, decide_eq_false_iff_not] at h ⊢
    omega
  trans a b c hab hbc := by
    simp only [decide_eq_false_iff_not] at hab hbc ⊢
    omega

theorem sortRun_ascending (rows : List (KeyedRow V)) : Ascending (sortRun rows) := by
  have harrived : rows.Pairwise fun _ _ => True := pairwise_of_forall fun _ _ => trivial
  have hsorted := stableSort_before timeLess_weakOrder harrived
  refine hsorted.imp fun h => ?_
  have := h.1
  simp only [decide_eq_false_iff_not] at this
  omega

theorem sortRun_perm (rows : List (KeyedRow V)) : (sortRun rows).Perm rows := stableSort_perm _ _

theorem runs_perm (spilled : List (List (KeyedRow V))) :
    ((spilled.map sortRun).filter fun run => !run.isEmpty).flatten.Perm spilled.flatten := by
  rw [flatten_filter_not_isEmpty]
  induction spilled with
  | nil => exact List.Perm.refl _
  | cons run spilled ih => exact (sortRun_perm run).append ih

theorem appendRow_flatten (rows : List (WideRow V))
    (s : List (List (WideRow V)) × List (WideRow V)) :
    (rows.foldl appendRow s).1.flatten ++ (rows.foldl appendRow s).2 =
      s.1.flatten ++ s.2 ++ rows := by
  induction rows generalizing s with
  | nil => simp
  | cons r rows ih =>
    rw [foldl_cons, ih]
    unfold appendRow
    split <;> simp

theorem outputBatches_flatten (rows : List (WideRow V)) : (outputBatches rows).flatten = rows := by
  have h := appendRow_flatten rows ([], [])
  simp only [outputBatches]
  split
  · rename_i hemp
    simpa [List.isEmpty_iff.mp hemp] using h
  · simpa using h

theorem keyed_eq_some {k : KeyedRow V} (h : r.keyed = some k) :
    r.time = some k.time ∧ r.pv = some k.pv ∧ r.value = k.value := by
  unfold LongRow.keyed at h
  split at h
  · rename_i ht hp
    obtain rfl := Option.some.inj h
    exact ⟨ht, hp, rfl⟩
  · cases h

theorem keyed_of_eq (ht : r.time = some time) (hp : r.pv = some pv) :
    r.keyed = some ⟨time, pv, r.value⟩ := by
  simp [LongRow.keyed, ht, hp]

theorem nodup_keyed_iff {rows : List (LongRow V)} (ht : ∀ r ∈ rows, r.time ≠ none)
    (hp : ∀ r ∈ rows, r.pv ≠ none) :
    ((rows.filterMap LongRow.keyed).map KeyedRow.key).Nodup ↔
      rows.Pairwise fun r r' => r.time = r'.time → r.pv ≠ r'.pv := by
  rw [List.Nodup, pairwise_map, pairwise_filterMap]
  refine List.Pairwise.iff_of_mem fun {r r'} hr hr' => ?_
  constructor
  · intro h heq hpv
    obtain ⟨time, htime⟩ := Option.ne_none_iff_exists'.mp (ht r hr)
    obtain ⟨pv, hpv'⟩ := Option.ne_none_iff_exists'.mp (hp r hr)
    exact h _ (keyed_of_eq htime hpv') _ (keyed_of_eq (heq ▸ htime) (hpv ▸ hpv')) rfl
  · intro h k hk k' hk' hkey
    obtain ⟨h1, h2, -⟩ := keyed_eq_some hk
    obtain ⟨h1', h2', -⟩ := keyed_eq_some hk'
    obtain ⟨htime, hpv⟩ := Prod.mk.inj hkey
    exact h (by rw [h1, h1', htime]) (by rw [h2, h2', hpv])

omit [DecidableEq T] in
theorem Checked.not_rejected (h : Checked typeOf requested rows s)
    (hdistinct : rows.Pairwise fun r r' => r.time = r'.time → r.pv ≠ r'.pv) :
    ¬ Rejected typeOf requested rows := by
  rintro (⟨r, hr, ht⟩ | ⟨r, hr, hp⟩ | ⟨r, hr, pv, hpv, hne, hnot⟩ | ⟨r, r', hr, hr', hpv, hclash⟩ | hdup)
  · exact h.times r hr ht
  · obtain ⟨pv, hpv, -⟩ := h.pvs r hr
    simp [hp] at hpv
  · obtain ⟨pv', hpv', hmem⟩ := h.pvs r hr
    obtain rfl : pv = pv' := by simpa [hpv] using hpv'
    rw [h.labels] at hmem
    exact hnot (by simpa [expectedLabels, hne] using hmem)
  · obtain ⟨v, v', hv, hv', hne⟩ := hclash
    obtain ⟨pv, hp, -⟩ := h.pvs r hr
    have h1 := (h.types pv (typeOf v)).mpr ⟨r, hr, hp, by simp [hv]⟩
    have h2 := (h.types pv (typeOf v')).mpr ⟨r', hr', hpv ▸ hp, by simp [hv']⟩
    exact hne (Option.some.inj (h1.symm.trans h2))
  · exact hdup hdistinct

omit [DecidableEq T] in
theorem Checked.mem_keyed (h : Checked typeOf requested rows s) (hr : r ∈ rows) :
    ∃ k ∈ rows.filterMap LongRow.keyed,
      r.time = some k.time ∧ r.pv = some k.pv ∧ r.value = k.value ∧ k.pv ∈ s.labels := by
  obtain ⟨time, ht⟩ := Option.ne_none_iff_exists'.mp (h.times r hr)
  obtain ⟨pv, hp, hmem⟩ := h.pvs r hr
  exact ⟨_, mem_filterMap.mpr ⟨r, hr, keyed_of_eq ht hp⟩, ht, hp, rfl, hmem⟩

omit [DecidableEq T] in
/-- **Wide rows of checked rows are their pivot.** -/
theorem isPivot_of_wide (h : Checked typeOf requested rows s) {keyed : List (KeyedRow V)}
    (hkeyed : keyed.Perm (rows.filterMap LongRow.keyed)) {out : List (WideRow V)}
    (hwide : Wide s.labels keyed out) :
    IsPivot typeOf requested rows ((outputBatches out).map fun rows =>
      ⟨s.labels.map fun label => (label, s.valueTypes.lookup label), rows⟩) := by
  have hflat : ((outputBatches out).map fun rows => (⟨s.labels.map fun label =>
      (label, s.valueTypes.lookup label), rows⟩ : WideBatch T V)).flatMap (·.rows) = out := by
    rw [flatMap_map, flatMap_id', outputBatches_flatten]
  have hmem : ∀ k, k ∈ keyed ↔ ∃ r ∈ rows, r.keyed = some k := fun k => by
    rw [hkeyed.mem_iff, mem_filterMap]
  constructor
  · intro b hb
    obtain ⟨batch, -, rfl⟩ := mem_map.mp hb
    simp [← h.labels, Function.comp_def]
  · intro b hb c hc r hr hpv v hv
    obtain ⟨batch, -, rfl⟩ := mem_map.mp hb
    obtain ⟨label, -, rfl⟩ := mem_map.mp hc
    exact (h.types label (typeOf v)).mpr ⟨r, hr, hpv, by simp [hv]⟩
  · rw [hflat]
    exact hwide.ascending
  · intro t
    rw [hflat, hwide.times]
    constructor
    · rintro ⟨k, hk, rfl⟩
      obtain ⟨r, hr, hrk⟩ := (hmem k).mp hk
      exact ⟨r, hr, (keyed_eq_some hrk).1⟩
    · rintro ⟨r, hr, ht⟩
      obtain ⟨k, hk, htk, -⟩ := h.mem_keyed hr
      exact ⟨k, hkeyed.mem_iff.mpr hk, Option.some.inj (htk.symm.trans ht)⟩
  · intro w hw
    rw [hflat] at hw
    rw [← h.labels]
    exact (hwide.cells w hw).length_eq.symm
  · intro w hw k label hlabel
    rw [hflat] at hw
    rw [← h.labels] at hlabel
    obtain ⟨hk, rfl⟩ := List.getElem?_eq_some_iff.mp hlabel
    have hlen := (hwide.cells w hw).length_eq
    have hcell := (hwide.cells w hw).get hk (hlen ▸ hk)
    simp only [get_eq_getElem] at hcell
    rw [List.getElem?_eq_getElem (hlen ▸ hk)]
    constructor
    · intro r hr ht hp
      have hrk : (⟨w.time, s.labels[k], r.value⟩ : KeyedRow V) ∈ keyed :=
        (hmem _).mpr ⟨r, hr, keyed_of_eq ht hp⟩
      rcases hcell with ⟨r', hr', ht', hp', hv'⟩ | ⟨hnone, -⟩
      · -- the keys are distinct, so it is the same row
        have := inj_on_of_nodup_map hwide.distinct hr' hrk (by simp [KeyedRow.key, ht', hp'])
        rw [← hv', this]
      · exact absurd rfl (hnone _ hrk rfl)
    · intro hnone
      rcases hcell with ⟨r', hr', ht', hp', -⟩ | ⟨-, hc⟩
      · obtain ⟨r, hr, hrk⟩ := (hmem r').mp hr'
        obtain ⟨h1, h2, -⟩ := keyed_eq_some hrk
        exact absurd (hp' ▸ h2) (hnone r hr (ht' ▸ h1))
      · rw [hc]

omit [DecidableEq T] in
theorem isPivot_nil (h : rows = []) : IsPivot typeOf requested rows [] := by
  subst h
  exact ⟨by simp, by simp, by simp, by simp, by simp, by simp⟩

omit [DecidableEq T] in
theorem readSortedPivotRuns_outcome {spilled : List (List (KeyedRow V))}
    (h : Checked typeOf requested rows s)
    (hspilled : spilled.flatten = rows.filterMap LongRow.keyed)
    (hmax : ∀ r ∈ rows, ∀ t, r.time = some t → t ≤ 2 ^ 63 - 1) :
    Outcome (readSortedPivotRuns s spilled)
      (fun output => IsPivot typeOf requested rows output ∧ ¬ Rejected typeOf requested rows)
      (Rejected typeOf requested rows) := by
  have hperm := runs_perm spilled
  rw [hspilled] at hperm
  have hpvs : ∀ r ∈ rows, r.pv ≠ none := fun r hr => by
    obtain ⟨pv, hp, -⟩ := h.pvs r hr
    simp [hp]
  have hnodup := nodup_keyed_iff h.times hpvs
  rw [← (hperm.map KeyedRow.key).nodup_iff] at hnodup
  have hrow : ∀ c ∈ (spilled.map sortRun).filter (fun run => !run.isEmpty), ∀ k ∈ c,
      ∃ r ∈ rows, r.keyed = some k := fun c hc k hk =>
    mem_filterMap.mp (hperm.mem_iff.mp (mem_flatten.mpr ⟨c, hc, hk⟩))
  unfold readSortedPivotRuns
  refine Outcome.bind ((mergeLoop_outcome _ ?_ ?_ ?_ (Nat.le_refl _)).mono (fun _ hwide => hwide) ?_)
    fun out hwide => Outcome.ok ⟨isPivot_of_wide h hperm hwide, ?_⟩
  · intro c hc k hk
    obtain ⟨r, hr, hrk⟩ := hrow c hc k hk
    obtain ⟨pv, hp, hmem⟩ := h.pvs r hr
    have := (keyed_eq_some hrk).2.1
    rw [hp, Option.some.injEq] at this
    exact this ▸ hmem
  · intro c hc
    obtain ⟨hc, hemp⟩ := mem_filter.mp hc
    obtain ⟨run, -, rfl⟩ := mem_map.mp hc
    exact ⟨by simpa using hemp, sortRun_ascending run⟩
  · intro c hc k hk
    obtain ⟨r, hr, hrk⟩ := hrow c hc k hk
    exact hmax r hr k.time (keyed_eq_some hrk).1
  · exact fun hdup => .duplicate fun hp => hdup (hnodup.mpr hp)
  · exact h.not_rejected (hnodup.mp hwide.distinct)

/-- The outcome of the wide pivot: the pivot of the rows, or an error and no pivot. -/
theorem pivotLongStreamWithSpill_outcome (valueType : T) {stream : List (LongBatch T V)}
    (hstream : ∀ b ∈ stream, b.valueType = valueType)
    (hmax : ∀ r ∈ streamRows stream, ∀ t, r.time = some t → t ≤ 2 ^ 63 - 1)
    (requested : List String) :
    Outcome (pivotLongStreamWithSpill typeOf requested stream)
      (fun output => IsPivot typeOf requested (streamRows stream) output ∧
        ¬ Rejected typeOf requested (streamRows stream))
      (Rejected typeOf requested (streamRows stream)) := by
  refine Outcome.bind (ingest_outcome hstream) fun s hs => ?_
  by_cases hempty : s.spilled = []
  · simp only [hempty, isEmpty_nil, ↓reduceIte]
    have hnil := hs.any.mp hempty
    refine Outcome.ok ⟨isPivot_nil hnil, hs.checked.not_rejected ?_⟩
    rw [hnil]
    exact List.Pairwise.nil
  · simp only [isEmpty_eq_false_iff.mpr hempty, Bool.false_eq_true, ↓reduceIte]
    exact readSortedPivotRuns_outcome hs.checked hs.spilled hmax

/-- **The wide pivot is right and fails exactly when there is no pivot.**  For every stream of
batches of one value type, whatever its order and its cuts, and every requested label list: the
result is an error exactly when a key is null, a PV is not among the requested labels, one PV has
values of two types or two rows share time and PV; and a result that is no error is the pivot of
the rows.  Times are 64-bit. -/
theorem pivotLongStreamWithSpill_spec (valueType : T) {stream : List (LongBatch T V)}
    (hstream : ∀ b ∈ stream, b.valueType = valueType)
    (hmax : ∀ r ∈ streamRows stream, ∀ t, r.time = some t → t ≤ 2 ^ 63 - 1)
    (requested : List String) :
    ((∃ e, pivotLongStreamWithSpill typeOf requested stream = .error e) ↔
        Rejected typeOf requested (streamRows stream)) ∧
      ∀ output, pivotLongStreamWithSpill typeOf requested stream = .ok output →
        IsPivot typeOf requested (streamRows stream) output := by
  have houtcome := @pivotLongStreamWithSpill_outcome _ _ _ typeOf valueType _ hstream hmax
    requested
  refine ⟨houtcome.error_iff fun _ h => h.2, fun output hout => ?_⟩
  rcases houtcome with ⟨output', hout', hgood⟩ | ⟨⟨e, he⟩, -⟩
  · obtain rfl := Except.ok.inj (hout.symm.trans hout')
    exact hgood.1
  · simp [he] at hout

/-- Two batches, one time in both, all PVs in the order of their first rows. -/
theorem pivotLongStreamWithSpill_spec_two :
    ((∃ e, pivotLongStreamWithSpill (fun _ : Int => "int64") []
        [⟨"int64", [⟨some 2, some "A", some 5⟩, ⟨some 1, some "A", some 6⟩]⟩,
          ⟨"int64", [⟨some 2, some "B", none⟩]⟩] = .error e) ↔
        Rejected (fun _ : Int => "int64") [] (streamRows
          [⟨"int64", [⟨some 2, some "A", some 5⟩, ⟨some 1, some "A", some 6⟩]⟩,
            ⟨"int64", [⟨some 2, some "B", none⟩]⟩])) ∧
      ∀ output, pivotLongStreamWithSpill (fun _ : Int => "int64") []
          [⟨"int64", [⟨some 2, some "A", some 5⟩, ⟨some 1, some "A", some 6⟩]⟩,
            ⟨"int64", [⟨some 2, some "B", none⟩]⟩] = .ok output →
        IsPivot (fun _ : Int => "int64") [] (streamRows
          [⟨"int64", [⟨some 2, some "A", some 5⟩, ⟨some 1, some "A", some 6⟩]⟩,
            ⟨"int64", [⟨some 2, some "B", none⟩]⟩]) output :=
  pivotLongStreamWithSpill_spec "int64" (by simp) (by simp [streamRows]) []

end MldpDriver.Query.Pivot
