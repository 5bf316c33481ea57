/-
# DISTINCT

`RowDeduplicator` writes a row down as one text, a length before every value, and keeps the texts it
has seen from batch to batch.  The rows whose text is new are taken out of the batch.
-/
import MldpDriver.Arrow.RecordBatch
import MldpDriver.Lib.DecimalText
import MldpDriver.Lib.SeenKeys
import MldpDriver.Query.SelectRows

namespace MldpDriver.Query.Distinct

open MldpDriver.Arrow List
open Lib.DecimalText
open Lib.Directory (split_unique)
open Lib.KeySplit
open Lib.SeenKeys

variable {T V : Type}

/-! ## 1. The text of a row

The texts of two rows are equal exactly when the rows are (`rowKey_eq_iff`), if `Scalar::ToString`
tells the values of one type apart.  Hence DISTINCT keeps the first row of each class, in input
order, however the rows are split into batches (`applyDistinct_eq`). -/

section Text

variable (text : V → List Char)

/-- What one value adds to `key`. -/
def valueKey : Option V → List Char
  | none => ['N']
  | some value => 'V' :: (natText (text value).length ++ ':' :: text value)

def rowKey (cells : List (Option V)) : List Char := cells.flatMap (valueKey text)

theorem colon_notMem_natText (n : Nat) : ':' ∉ natText n := fun h =>
  absurd (isDigit_of_mem_natText h) (by decide)

variable {text}

/-- **A value can be read off the front of a key**: the length says where it ends. -/
theorem valueKey_append {cell cell' : Option V} {rest rest' : List Char}
    (h : valueKey text cell ++ rest = valueKey text cell' ++ rest') :
    cell.map text = cell'.map text ∧ rest = rest' := by
  cases cell with
  | none =>
    cases cell' with
    | none => exact ⟨rfl, (List.cons.inj h).2⟩
    | some value' => exact absurd (List.cons.inj h).1 (by decide)
  | some value =>
    cases cell' with
    | none => exact absurd (List.cons.inj h).1 (by decide)
    | some value' =>
      have htail := (List.cons.inj h).2
      rw [append_eq, append_eq, append_assoc, append_assoc,
        cons_append, cons_append] at htail
      obtain ⟨hdigits, hrest⟩ :=
        split_unique (colon_notMem_natText _) (colon_notMem_natText _) htail
      obtain ⟨htext, hrest⟩ := append_inj hrest (natText_inj hdigits)
      exact ⟨congrArg some htext, hrest⟩

/-- The values of a row have the types of their columns. -/
def RowTyped (typeOf : V → T) (types : List T) (cells : List (Option V)) : Prop :=
  List.Forall₂ (fun type cell => ∀ value, cell = some value → typeOf value = type) types cells

/-- **The key of a row tells the row.** -/
theorem rowKey_eq_iff {typeOf : V → T}
    (hinj : ∀ a b, typeOf a = typeOf b → text a = text b → a = b) {types : List T}
    {cells cells' : List (Option V)} (h : RowTyped typeOf types cells)
    (h' : RowTyped typeOf types cells') :
    rowKey text cells = rowKey text cells' ↔ cells = cells' := by
  refine ⟨fun hkey => ?_, fun heq => by rw [heq]⟩
  unfold RowTyped at h h'
  induction h generalizing cells' with
  | nil =>
    cases h'
    rfl
  | @cons type cell types cells hcell _ ih =>
    cases h' with
    | @cons _ cell' _ cells' hcell' hcells' =>
      rw [rowKey, rowKey, flatMap_cons, flatMap_cons] at hkey
      obtain ⟨htext, hrest⟩ := valueKey_append hkey
      have heq : cell = cell' := by
        cases cell with
        | none =>
          cases cell' with
          | none => rfl
          | some value' => cases htext
        | some value =>
          cases cell' with
          | none => cases htext
          | some value' =>
            have htype := (hcell value rfl).trans (hcell' value' rfl).symm
            exact congrArg some (hinj _ _ htype (Option.some.inj htext))
      rw [heq, ih hcells' hrest]

end Text

/-! ## 2. Rows not seen before -/

/-- The row of an array of columns. -/
def cellsAt (columns : List (List (Option V))) (row : Nat) : List (Option V) :=
  columns.map (slot · row)

/-- `RowDeduplicator::seen_`. -/
structure RowDeduplicator where
  seen : List (List Char) := []

/-- `selectNewRows`. -/
def RowDeduplicator.selectNewRows (text : V → List Char) (d : RowDeduplicator)
    (columns : List (List (Option V))) (numRows : Nat) : List Nat × RowDeduplicator :=
  let found := unseen (fun row => rowKey text (cellsAt columns row)) d.seen (List.range numRows)
  (found.1, ⟨found.2⟩)

/-! ## 3. Taking them out of the batch -/

/-- The mask loop: `next` runs along the selected rows. -/
def rowMask : Nat → Nat → List Nat → List Bool
  | _, 0, _ => []
  | row, n + 1, [] => false :: rowMask (row + 1) n []
  | row, n + 1, next :: selected =>
    if next = row then true :: rowMask (row + 1) n selected
    else false :: rowMask (row + 1) n (next :: selected)

/-- One column of the output. -/
def selectColumn (union : Bool) (numRows : Nat) (selected : List Nat) (column : List (Option V)) :
    List (Option V) :=
  if union then selectUnionSafeRows column selected
  else filterByMask column (rowMask 0 numRows selected)

theorem filterByMask_cons (cell : Option V) (column : List (Option V)) (keep : Bool)
    (mask : List Bool) :
    filterByMask (cell :: column) (keep :: mask) =
      if keep then cell :: filterByMask column mask else filterByMask column mask := by
  rw [filterByMask, zip_cons_cons, filterMap_cons]
  cases keep <;> rfl

theorem filterByMask_rowMask (front column : List (Option V)) (selected : List Nat)
    (h : selected.Sublist (List.range' front.length column.length)) :
    filterByMask column (rowMask front.length column.length selected) =
      pick (front ++ column) selected := by
  induction column generalizing front selected with
  | nil =>
    rw [sublist_nil.mp h]
    rfl
  | cons cell column ih =>
    have hfront := ih (front ++ [cell])
    rw [length_append, length_singleton, append_assoc, singleton_append]
      at hfront
    rw [length_cons, range'_succ] at h
    cases selected with
    | nil =>
      rw [length_cons, rowMask, filterByMask_cons]
      exact hfront [] (nil_sublist _)
    | cons next selected =>
      rw [length_cons, rowMask]
      split
      · rename_i hnext
        subst hnext
        rw [filterByMask_cons, if_pos rfl, hfront selected (cons_sublist_cons.mp h), pick,
          pick, filterMap_cons, List.getElem?_append_right (Nat.le_refl _), Nat.sub_self]
        rfl
      · rename_i hnext
        rw [filterByMask_cons]
        refine hfront (next :: selected) ?_
        cases h with
        | cons _ h => exact h
        | cons_cons _ h => exact absurd rfl hnext

/-- **Either way a column keeps the slots of the selected rows.** -/
theorem selectColumn_eq (union : Bool) {numRows : Nat} {selected : List Nat}
    {column : List (Option V)} (hlength : column.length = numRows)
    (h : selected.Sublist (List.range numRows)) :
    selectColumn union numRows selected column = gather column (selected.map some) := by
  have hpick : pick column selected = gather column (selected.map some) := by
    rw [pick, gather, map_map, ← filterMap_eq_map]
    refine filterMap_congr fun row hrow => ?_
    have hlt : row < column.length := by
      rw [hlength]
      exact mem_range.mp (h.subset hrow)
    simp [slot, List.getElem?_eq_getElem hlt]
  unfold selectColumn
  split
  · rw [selectUnionSafeRows_eq, hpick]
    intro row hrow
    rw [hlength]
    exact mem_range.mp (h.subset hrow)
  · subst hlength
    rw [← hpick]
    rw [range_eq_range'] at h
    exact filterByMask_rowMask [] column selected h

/-- `hasUnionColumn`. -/
def hasUnionColumn (isUnion : T → Bool) (batch : Arrow.RecordBatch T V) : Bool :=
  batch.schema.any fun field => isUnion field.type

/-- `takeSelectedRows`. -/
def takeSelectedRows (isUnion : T → Bool) (batch : Arrow.RecordBatch T V) (selected : List Nat)
    (h : selected.Sublist (List.range batch.numRows)) : Arrow.RecordBatch T V :=
  if selected.length = batch.numRows then batch
  else
    { schema := batch.schema
      numRows := selected.length
      columns := batch.columns.map
        (selectColumn (hasUnionColumn isUnion batch) batch.numRows selected)
      columns_length := by rw [length_map, batch.columns_length]
      column_length := by
        intro c hc
        obtain ⟨column, hcolumn, rfl⟩ := mem_map.mp hc
        rw [selectColumn_eq _ (batch.column_length column hcolumn) h, length_gather,
          length_map] }

theorem rows_takeSelectedRows (isUnion : T → Bool) (batch : Arrow.RecordBatch T V)
    (selected : List Nat) (h : selected.Sublist (List.range batch.numRows)) :
    (takeSelectedRows isUnion batch selected h).rows = selected.map batch.row := by
  unfold takeSelectedRows
  split
  · rename_i hall
    rw [h.eq_of_length (by rw [length_range]; exact hall)]
    rfl
  · have htake : ∀ i, (batch.columns.map
        (selectColumn (hasUnionColumn isUnion batch) batch.numRows selected)).map (slot · i) =
        (batch.take (selected.map some)).row i := by
      intro i
      rw [Arrow.RecordBatch.row, Arrow.RecordBatch.take, map_map, map_map]
      refine map_congr_left fun column hcolumn => ?_
      rw [Function.comp_apply, selectColumn_eq _ (batch.column_length column hcolumn) h]
      rfl
    have hrows := rows_take batch (selected.map some)
    rw [map_map] at hrows
    rw [show selected.map batch.row = selected.map (batch.rowAt ∘ some) from rfl, ← hrows,
      Arrow.RecordBatch.rows, Arrow.RecordBatch.rows]
    show (List.range selected.length).map _ = (List.range (selected.map some).length).map _
    rw [length_map]
    exact map_congr_left fun i _ => htake i

/-! ## 4. The operator -/

/-- Row numbers of new rows, and the batch of these rows. -/
def RowDeduplicator.take (text : V → List Char) (isUnion : T → Bool) (d : RowDeduplicator)
    (columns : List (List (Option V))) (batch : Arrow.RecordBatch T V) :
    Arrow.RecordBatch T V × RowDeduplicator :=
  (takeSelectedRows isUnion batch (d.selectNewRows text columns batch.numRows).1
      (unseen_sublist _ _ _),
    (d.selectNewRows text columns batch.numRows).2)

/-- `filter` -/
def RowDeduplicator.filter (text : V → List Char) (isUnion : T → Bool) (d : RowDeduplicator)
    (batch : Arrow.RecordBatch T V) : Arrow.RecordBatch T V × RowDeduplicator :=
  d.take text isUnion batch.columns batch

/-- `if (unique && unique->num_rows() > 0) output.push_back` -/
def pushRows (output : List (Arrow.RecordBatch T V)) (unique : Arrow.RecordBatch T V) :
    List (Arrow.RecordBatch T V) :=
  if 0 < unique.numRows then output ++ [unique] else output

/-- The loop of `applyDistinct`; a null batch is skipped. -/
def distinctLoop (text : V → List Char) (isUnion : T → Bool) :
    List (Option (Arrow.RecordBatch T V)) → RowDeduplicator → List (Arrow.RecordBatch T V) →
      List (Arrow.RecordBatch T V)
  | [], _, output => output
  | none :: input, d, output => distinctLoop text isUnion input d output
  | some batch :: input, d, output =>
    let unique := d.filter text isUnion batch
    distinctLoop text isUnion input unique.2 (pushRows output unique.1)

def applyDistinct (text : V → List Char) (isUnion : T → Bool)
    (input : List (Option (Arrow.RecordBatch T V))) : List (Arrow.RecordBatch T V) :=
  distinctLoop text isUnion input {} []

/-! ## 5. A run over the batches -/

/-- The rows of a run: a batch with its key columns, and a row number. -/
def positions (done : List (Arrow.RecordBatch T V × List (List (Option V)))) :
    List ((Arrow.RecordBatch T V × List (List (Option V))) × Nat) :=
  done.flatMap fun entry => (List.range entry.1.numRows).map (entry, ·)

def keyCells (p : (Arrow.RecordBatch T V × List (List (Option V))) × Nat) : List (Option V) :=
  cellsAt p.1.2 p.2

def rowOf (p : (Arrow.RecordBatch T V × List (List (Option V))) × Nat) : List (Option V) :=
  p.1.1.row p.2

/-- **What holds after the batches `done`.** -/
structure Deduplicated (text : V → List Char)
    (done : List (Arrow.RecordBatch T V × List (List (Option V)))) (d : RowDeduplicator)
    (output : List (Arrow.RecordBatch T V)) : Prop where
  seen : ∀ key, key ∈ d.seen ↔ key ∈ (positions done).map fun p => rowKey text (keyCells p)
  output : output.flatMap (·.rows) =
    (firstRows (fun p => rowKey text (keyCells p)) (positions done)).map rowOf

theorem Deduplicated.nil (text : V → List Char) :
    Deduplicated (T := T) text [] {} [] where
  seen key := by simp [positions]
  output := rfl

theorem flatMap_pushRows (output : List (Arrow.RecordBatch T V)) (unique : Arrow.RecordBatch T V) :
    (pushRows output unique).flatMap (·.rows) = output.flatMap (·.rows) ++ unique.rows := by
  unfold pushRows
  split
  · rw [flatMap_append, flatMap_singleton]
  · rename_i hzero
    rw [Arrow.RecordBatch.rows_eq_nil (by omega : unique.numRows = 0), append_nil]

theorem positions_append (done : List (Arrow.RecordBatch T V × List (List (Option V))))
    (entry : Arrow.RecordBatch T V × List (List (Option V))) :
    positions (done ++ [entry]) =
      positions done ++ (List.range entry.1.numRows).map (entry, ·) := by
  rw [positions, positions, flatMap_append, flatMap_singleton]

theorem rows_takeNew (text : V → List Char) (isUnion : T → Bool) (d : RowDeduplicator)
    (columns : List (List (Option V))) (batch : Arrow.RecordBatch T V) :
    (d.take text isUnion columns batch).1.rows =
      ((firstRows (fun row => rowKey text (cellsAt columns row)) (List.range batch.numRows)).filter
        fun row => rowKey text (cellsAt columns row) ∉ d.seen).map batch.row := by
  have hrows := rows_takeSelectedRows isUnion batch _
    (unseen_sublist (fun row => rowKey text (cellsAt columns row)) d.seen
      (List.range batch.numRows))
  exact hrows.trans (congrArg _ ((unseen_fst _ _ _).trans
    (filter_congr fun _ _ => decide_eq_decide.mpr Iff.rfl)))

variable {done : List (Arrow.RecordBatch T V × List (List (Option V)))}
variable {text : V → List Char}

/-- **One batch more.** -/
theorem Deduplicated.step (isUnion : T → Bool) {d : RowDeduplicator}
    {output : List (Arrow.RecordBatch T V)} (h : Deduplicated text done d output)
    (columns : List (List (Option V))) (batch : Arrow.RecordBatch T V) :
    Deduplicated text (done ++ [(batch, columns)]) (d.take text isUnion columns batch).2
      (pushRows output (d.take text isUnion columns batch).1) where
  seen key := by
    have hsnd := mem_unseen_snd (fun row => rowKey text (cellsAt columns row)) d.seen
      (List.range batch.numRows) key
    rw [positions_append, map_append, mem_append, ← h.seen, map_map]
    exact hsnd
  output := by
    rw [flatMap_pushRows, h.output, positions_append, firstRows_append, map_append,
      firstRows_map, filter_map, map_map]
    rw [rows_takeNew]
    refine congrArg (_ ++ ·) (congrArg _ (filter_congr fun row _ => ?_))
    exact decide_eq_decide.mpr (not_congr (h.seen _))

theorem distinctLoop_spec (isUnion : T → Bool) (input : List (Option (Arrow.RecordBatch T V))) :
    ∀ {done : List (Arrow.RecordBatch T V × List (List (Option V)))} {d : RowDeduplicator}
      {output : List (Arrow.RecordBatch T V)}, Deduplicated text done d output →
      ∃ d', Deduplicated text (done ++ (input.filterMap id).map fun b => (b, b.columns)) d'
        (distinctLoop text isUnion input d output) := by
  induction input with
  | nil =>
    intro done d output h
    refine ⟨d, ?_⟩
    rw [filterMap_nil, map_nil, append_nil]
    exact h
  | cons batch input ih =>
    intro done d output h
    cases batch with
    | none => exact ih h
    | some batch =>
      obtain ⟨d', hd'⟩ := ih (h.step isUnion batch.columns batch)
      rw [append_assoc] at hd'
      exact ⟨d', hd'⟩

/-! ## 6. The first row of each class -/

/-- The rows of the input. -/
def inputRows (input : List (Option (Arrow.RecordBatch T V))) : List (List (Option V)) :=
  (input.filterMap id).flatMap (·.rows)

theorem mem_positions {p : (Arrow.RecordBatch T V × List (List (Option V))) × Nat} :
    p ∈ positions done ↔ p.1 ∈ done ∧ p.2 < p.1.1.numRows := by
  constructor
  · intro hp
    obtain ⟨entry, hentry, hp⟩ := mem_flatMap.mp hp
    obtain ⟨row, hrow, rfl⟩ := mem_map.mp hp
    exact ⟨hentry, mem_range.mp hrow⟩
  · rintro ⟨hentry, hrow⟩
    exact mem_flatMap.mpr ⟨p.1, hentry, mem_map.mpr ⟨p.2, mem_range.mpr hrow, rfl⟩⟩

theorem positions_rows (done : List (Arrow.RecordBatch T V × List (List (Option V)))) :
    (positions done).map rowOf = done.flatMap (·.1.rows) := by
  rw [positions, map_flatMap]
  refine flatMap_congr fun entry _ => ?_
  rw [map_map]
  rfl

theorem mem_filterMap_id {α : Type} {a : α} {l : List (Option α)} :
    a ∈ l.filterMap id ↔ some a ∈ l := by
  simp

theorem row_typed {batch : Arrow.RecordBatch T V} {typeOf : V → T} (hbatch : batch.WellTyped typeOf)
    {row : Nat} (hrow : row < batch.numRows) :
    RowTyped typeOf (batch.schema.map (·.type)) (batch.row row) := by
  unfold RowTyped
  rw [List.forall₂_map_left_iff, List.forall₂_iff_get]
  refine ⟨by rw [Arrow.RecordBatch.length_row], fun i hi hi' value hvalue => ?_⟩
  refine hbatch _ (Arrow.RecordBatch.mem_rows.mpr ⟨row, hrow, rfl⟩) i _ value
    (List.getElem?_eq_getElem hi) ?_
  rw [List.getElem?_eq_getElem hi', Option.join_some]
  exact hvalue

theorem applyDistinct_eq [DecidableEq V] {typeOf : V → T} {types : List T}
    {input : List (Option (Arrow.RecordBatch T V))} (isUnion : T → Bool)
    (hinj : ∀ a b, typeOf a = typeOf b → text a = text b → a = b)
    (hinput : ∀ batch, some batch ∈ input →
      batch.schema.map (·.type) = types ∧ batch.WellTyped typeOf) :
    (applyDistinct text isUnion input).flatMap (·.rows) = firstRows id (inputRows input) := by
  obtain ⟨d, h⟩ := distinctLoop_spec isUnion input (Deduplicated.nil text)
  rw [nil_append] at h
  have htyped : ∀ p ∈ positions ((input.filterMap id).map fun b => (b, b.columns)),
      keyCells p = rowOf p ∧ RowTyped typeOf types (rowOf p) := by
    intro p hp
    obtain ⟨hentry, hrow⟩ := mem_positions.mp hp
    obtain ⟨batch, hbatch, heq⟩ := mem_map.mp hentry
    obtain ⟨entry, row⟩ := p
    obtain rfl : (batch, batch.columns) = entry := heq
    obtain ⟨htypes, hwell⟩ := hinput batch (mem_filterMap_id.mp hbatch)
    refine ⟨rfl, ?_⟩
    rw [← htypes]
    exact row_typed hwell hrow
  have hsame := @firstRows_congr _ _ _ (fun p => rowKey text (keyCells p))
    (positions ((input.filterMap id).map fun b => (b, b.columns))) _ _ rowOf fun p hp p' hp' => by
      rw [(htyped p hp).1, (htyped p' hp').1]
      exact rowKey_eq_iff hinj (htyped p hp).2 (htyped p' hp').2
  have hfirst := firstRows_map id rowOf
    (positions ((input.filterMap id).map fun b => (b, b.columns)))
  rw [positions_rows, flatMap_map] at hfirst
  exact (h.output.trans (congrArg _ hsame)).trans hfirst.symm

end MldpDriver.Query.Distinct
