/-
# Columnar record batches

The query engine's operators exchange Arrow record batches: a schema and one array a field, all of
one length.  `T` is the type of the data types and `V` of the valid values; a null slot is `none`.
-/
import Mathlib.Data.List.Basic
import Mathlib.Data.List.GetD
import Mathlib.Data.List.Range

namespace MldpDriver.Arrow

open List

/-! ## 1. Batches

`row` reads a batch across its columns.  Gathering rows (`take`) and concatenating batches
(`combineBatches`) work column by column, as Arrow does, and `rows_take` and `combineBatches_spec`
say what they do to the rows. -/

structure Field (T : Type) where
  name : String
  type : T
  nullable : Bool := true
  deriving DecidableEq

/-- `field->WithNullable(true)`. -/
def Field.withNullable {T : Type} (f : Field T) : Field T := { f with nullable := true }

structure RecordBatch (T V : Type) where
  schema : List (Field T)
  numRows : Nat
  columns : List (List (Option V))
  columns_length : columns.length = schema.length
  column_length : ∀ c ∈ columns, c.length = numRows

variable {T V : Type}

/-- The slot of a row in an array; `none` when it is null. -/
def slot (column : List (Option V)) (row : Nat) : Option V := column[row]?.join

variable {batch : RecordBatch T V}

namespace RecordBatch

/-- `batch->column(index)->GetScalar(row)`. -/
def cell (batch : RecordBatch T V) (index row : Nat) : Option V :=
  slot (batch.columns[index]?.getD []) row

/-- A row across the columns. -/
def row (batch : RecordBatch T V) (i : Nat) : List (Option V) := batch.columns.map (slot · i)

def rows (batch : RecordBatch T V) : List (List (Option V)) :=
  (List.range batch.numRows).map batch.row

@[simp] theorem length_rows (batch : RecordBatch T V) : batch.rows.length = batch.numRows := by
  simp [rows]

@[simp] theorem length_row (batch : RecordBatch T V) (i : Nat) :
    (batch.row i).length = batch.schema.length := by
  simp [row, batch.columns_length]

theorem mem_rows {r : List (Option V)} :
    r ∈ batch.rows ↔ ∃ i < batch.numRows, batch.row i = r := by
  simp [rows]

theorem rows_eq_nil (h : batch.numRows = 0) : batch.rows = [] := by
  simp [rows, h]

theorem cell_eq (batch : RecordBatch T V) (index i : Nat) :
    batch.cell index i = ((batch.row i)[index]?).join := by
  simp only [cell, row, List.getElem?_map]
  cases batch.columns[index]? <;> simp [slot]

theorem cell_of_ge {index i : Nat} (h : batch.numRows ≤ i) :
    batch.cell index i = none := by
  simp only [cell]
  cases hc : batch.columns[index]? with
  | none => rfl
  | some c =>
    have hlen : c.length = batch.numRows := batch.column_length c (mem_of_getElem? hc)
    simp [slot, List.getElem?_eq_none (show c.length ≤ i by omega)]

/-- Every valid value has the type of its field. -/
def WellTyped (typeOf : V → T) (batch : RecordBatch T V) : Prop :=
  ∀ r ∈ batch.rows, ∀ (i : Nat) (f : Field T) (v : V),
    batch.schema[i]? = some f → r[i]?.join = some v → typeOf v = f.type

end RecordBatch

/-- `schema->GetFieldIndex(name)`: the field of that name, when there is exactly one. -/
def fieldIndex (schema : List (Field T)) (name : String) : Option Nat :=
  match (schema.zipIdx.filter fun f => f.1.name == name).map Prod.snd with
  | [i] => some i
  | _ => none

/-! ## 2. Gathering rows -/

/-- One array gathered by row numbers; a missing number becomes a null slot. -/
def gather (column : List (Option V)) (indices : List (Option Nat)) : List (Option V) :=
  indices.map fun i => i.bind (slot column)

@[simp] theorem length_gather (column : List (Option V)) (indices : List (Option Nat)) :
    (gather column indices).length = indices.length := by
  simp [gather]

theorem slot_gather (column : List (Option V)) (indices : List (Option Nat)) (i : Nat) :
    slot (gather column indices) i = (indices[i]?.join).bind (slot column) := by
  simp only [slot, gather, List.getElem?_map]
  cases h : indices[i]? with
  | none => rfl
  | some index => cases index <;> rfl

/-- The row of a row number; all null when the number is missing. -/
def RecordBatch.rowAt (batch : RecordBatch T V) : Option Nat → List (Option V)
  | some i => batch.row i
  | none => batch.columns.map fun _ => none

theorem rowAt_none (batch : RecordBatch T V) :
    batch.rowAt none = List.replicate batch.schema.length none := by
  simp [RecordBatch.rowAt, batch.columns_length]

theorem map_gather (batch : RecordBatch T V) (indices : List (Option Nat)) {i : Nat}
    (h : i < indices.length) :
    (batch.columns.map (gather · indices)).map (slot · i) = batch.rowAt indices[i] := by
  simp only [map_map]
  cases hi : indices[i] with
  | none =>
    refine map_congr_left fun c _ => ?_
    simp [slot_gather, List.getElem?_eq_getElem h, hi]
  | some k =>
    refine map_congr_left fun c _ => ?_
    simp [slot_gather, List.getElem?_eq_getElem h, hi]

/-- `arrow::compute::Take` on every column. -/
def RecordBatch.take (batch : RecordBatch T V) (indices : List (Option Nat)) : RecordBatch T V where
  schema := batch.schema
  numRows := indices.length
  columns := batch.columns.map (gather · indices)
  columns_length := by simp [batch.columns_length]
  column_length := by simp

theorem map_range_getElem {α β : Type} (xs : List α) (f : Nat → β) (g : α → β)
    (h : ∀ i (hi : i < xs.length), f i = g xs[i]) :
    (List.range xs.length).map f = xs.map g := by
  refine ext_getElem (by simp) fun i hi _ => ?_
  simp only [getElem_map, getElem_range]
  exact h i (by simpa using hi)

/-- **Gathering reads the rows at the given numbers.** -/
theorem rows_take (batch : RecordBatch T V) (indices : List (Option Nat)) :
    (batch.take indices).rows = indices.map batch.rowAt :=
  map_range_getElem indices _ _ fun _ hi => map_gather batch indices hi

/-! ## 3. Concatenation -/

theorem slot_append_left {a b : List (Option V)} {i : Nat} (h : i < a.length) :
    slot (a ++ b) i = slot a i := by
  simp [slot, List.getElem?_append_left h]

theorem slot_append_right {a : List (Option V)} {n : Nat} (h : a.length = n)
    (b : List (Option V)) (i : Nat) : slot (a ++ b) (n + i) = slot b i := by
  subst h
  simp [slot, List.getElem?_append_right]

/-- Two batches of one schema, one after the other. -/
def RecordBatch.append (a b : RecordBatch T V) (h : a.schema = b.schema) : RecordBatch T V where
  schema := a.schema
  numRows := a.numRows + b.numRows
  columns := List.zipWith (· ++ ·) a.columns b.columns
  columns_length := by simp [a.columns_length, b.columns_length, h]
  column_length := by
    intro c hc
    obtain ⟨i, hi, rfl⟩ := mem_iff_getElem.mp hc
    simp only [getElem_zipWith, length_append]
    rw [a.column_length _ (getElem_mem _), b.column_length _ (getElem_mem _)]

/-- **Concatenation puts the rows of the second batch after those of the first.** -/
theorem rows_append (a b : RecordBatch T V) (h : a.schema = b.schema) :
    (a.append b h).rows = a.rows ++ b.rows := by
  have hlen : a.columns.length = b.columns.length := by
    rw [a.columns_length, b.columns_length, h]
  have hleft : ∀ i < a.numRows, (a.append b h).row i = a.row i := by
    intro i hi
    refine ext_getElem (by simp [RecordBatch.row, RecordBatch.append, hlen]) fun k hk hk' => ?_
    simp only [RecordBatch.row, RecordBatch.append, getElem_map, getElem_zipWith]
    exact slot_append_left (by rwa [a.column_length _ (getElem_mem _)])
  have hright : ∀ i, (a.append b h).row (a.numRows + i) = b.row i := by
    intro i
    refine ext_getElem (by simp [RecordBatch.row, RecordBatch.append, hlen]) fun k hk hk' => ?_
    simp only [RecordBatch.row, RecordBatch.append, getElem_map, getElem_zipWith]
    exact slot_append_right (a.column_length _ (getElem_mem _)) _ i
  simp only [RecordBatch.rows, RecordBatch.append, range_add, map_append, map_map]
  exact congrArg₂ _ (map_congr_left fun i hi => hleft i (mem_range.mp hi))
    (map_congr_left fun i _ => hright i)

variable [DecidableEq T]

/-- `arrow::Table::FromRecordBatches` and `CombineChunksToBatch`: all batches must have the schema
of the first. -/
def combineChunks (first : RecordBatch T V) :
    List (RecordBatch T V) → Except String (RecordBatch T V)
  | [] => .ok first
  | b :: rest =>
    if h : first.schema = b.schema then combineChunks (first.append b h) rest
    else .error "Schema at index was different"

/-- `combineBatches`; `none` is the null pointer. -/
def combineBatches : List (RecordBatch T V) → Except String (Option (RecordBatch T V))
  | [] => .ok none
  | first :: rest => (combineChunks first rest).map some

theorem combineChunks_ok {first : RecordBatch T V} {rest : List (RecordBatch T V)}
    {out : RecordBatch T V} (h : combineChunks first rest = .ok out) :
    out.schema = first.schema ∧ out.rows = first.rows ++ rest.flatMap (·.rows) := by
  induction rest generalizing first with
  | nil =>
    obtain rfl := Except.ok.inj h
    simp
  | cons b rest ih =>
    simp only [combineChunks] at h
    split at h
    · rename_i hs
      obtain ⟨h1, h2⟩ := ih h
      refine ⟨h1, ?_⟩
      rw [h2, rows_append, append_assoc, flatMap_cons]
    · cases h

theorem combineChunks_isOk {first : RecordBatch T V} {rest : List (RecordBatch T V)}
    (h : ∀ b ∈ rest, b.schema = first.schema) : ∃ out, combineChunks first rest = .ok out := by
  induction rest generalizing first with
  | nil => exact ⟨first, rfl⟩
  | cons b rest ih =>
    have hb := (h b (by simp)).symm
    simp only [combineChunks, hb, ↓reduceDIte]
    exact ih fun c hc => h c (by simp [hc])

/-- **The combined batch has the rows of all batches, in their order**; only no batches give no
batch. -/
theorem combineBatches_spec {schema : List (Field T)} {batches : List (RecordBatch T V)}
    (h : ∀ b ∈ batches, b.schema = schema) :
    (batches = [] ∧ combineBatches batches = .ok none) ∨
      (batches ≠ [] ∧ ∃ out, combineBatches batches = .ok (some out) ∧ out.schema = schema ∧
        out.rows = batches.flatMap (·.rows)) := by
  rcases batches with _ | ⟨first, rest⟩
  · exact Or.inl ⟨rfl, rfl⟩
  · have hfirst : first.schema = schema := h first (by simp)
    have hrest : ∀ b ∈ rest, b.schema = first.schema := fun b hb => by
      rw [hfirst, h b (by simp [hb])]
    obtain ⟨out, hout⟩ := combineChunks_isOk hrest
    obtain ⟨hs, hrows⟩ := combineChunks_ok hout
    refine Or.inr ⟨by simp, out, by simp [combineBatches, hout, Except.map], hs.trans hfirst, ?_⟩
    rw [hrows, flatMap_cons]

omit [DecidableEq T] in
theorem RecordBatch.numRows_eq_zero_iff :
    batch.numRows = 0 ↔ batch.rows = [] := by
  rw [← length_eq_zero_iff, RecordBatch.length_rows]

omit [DecidableEq T] in
theorem RecordBatch.wellTyped_of_rows {typeOf : V → T} {schema : List (Field T)}
    {batches : List (RecordBatch T V)} (h : ∀ b ∈ batches, b.schema = schema ∧ b.WellTyped typeOf)
    (hs : batch.schema = schema) (hrows : batch.rows = batches.flatMap (·.rows)) :
    batch.WellTyped typeOf := by
  intro r hr i f v hf hv
  rw [hrows, mem_flatMap] at hr
  obtain ⟨b, hb, hr⟩ := hr
  exact (h b hb).2 r hr i f v (by rw [(h b hb).1, ← hs]; exact hf) hv

end MldpDriver.Arrow
