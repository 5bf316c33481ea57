/-
# The cells of a table, and the cells of frames

A table update says that a column has a value in each row, and each row has a time.  A frame says
the same with its timestamps: entry `k` of a column belongs to timestamp `k`.
-/
import MldpDriver.Lib.Directory
import MldpDriver.Lib.Groups
import MldpDriver.Reader.PvField

namespace MldpDriver.Reader

open Bus Lib.Directory Lib.Groups List

/-! ## 1. Cells -/

/-- An entry of a column. -/
inductive Entry
  | scalar (value : Datum)
  | array (values : List Datum)
  deriving DecidableEq

/-- The entries of a column of a frame, one for each timestamp. -/
def columnEntries : ColumnValues Datum → List Entry
  | .scalar _ values => values.map .scalar
  | .bytes values => values.map .array
  | .array _ values => values.map .array

/-- Seconds and nanoseconds. -/
abbrev RowTime := Int × Int

/-- A cell; a value without a timestamp has no time. -/
structure Cell where
  column : String
  time : Option RowTime
  value : Entry
  deriving DecidableEq

/-- The time a timestamp says. -/
def rowTime (t : TimestampEntry) : RowTime := (t.epochSeconds, t.nanoseconds)

/-- The cells of a column of a frame. -/
def columnCells (timestamps : List TimestampEntry) (c : DataColumn Datum) : List Cell :=
  (columnEntries c.values).zipIdx.map fun e => ⟨c.name, timestamps[e.2]?.map rowTime, e.1⟩

/-- The cells of a frame in the columns looked at. -/
def frameCells (data : String → Bool) (frame : DataBatch Datum) : List Cell :=
  (frame.columns.filter fun c => data c.name).flatMap (columnCells frame.timestamps)

/-- Every column has as many values as the frame has timestamps. -/
def Shaped (frame : DataBatch Datum) : Prop :=
  ∀ c ∈ frame.columns, (columnEntries c.values).length = frame.timestamps.length

instance : DecidablePred Shaped := fun frame =>
  inferInstanceAs (Decidable (∀ c ∈ frame.columns,
    (columnEntries c.values).length = frame.timestamps.length))

/-! ## 2. Pieces -/

/-- What is made of some cells of a column; `row` is the row of each entry. -/
structure Piece where
  name : String
  stored : ColumnValues Datum
  entries : List Entry
  row : Nat → Nat

/-- The column of a frame for a piece. -/
def Piece.column (p : Piece) : DataColumn Datum := { name := p.name, values := p.stored }

/-- The cells a piece stands for. -/
def Piece.cells (time : Nat → RowTime) (p : Piece) : List Cell :=
  p.entries.zipIdx.map fun e => ⟨p.name, some (time (p.row e.2)), e.1⟩

/-- A piece has one stored value for each entry. -/
def Piece.Full (p : Piece) : Prop := (columnEntries p.stored).length = p.entries.length

/-- The piece fits into a frame with these timestamps: it has as many entries, each at the time of
its row, and, if the column is looked at, stored unchanged. -/
structure Piece.Fits (data : String → Bool) (time : Nat → RowTime)
    (timestamps : List TimestampEntry) (p : Piece) : Prop where
  shaped : p.entries.length = timestamps.length
  unchanged : data p.name = true → columnEntries p.stored = p.entries
  inTime : data p.name = true → ∀ k t, timestamps[k]? = some t → rowTime t = time (p.row k)

section Pieces

variable {data : String → Bool} {time : Nat → RowTime} {timestamps : List TimestampEntry}
  {p : Piece}

theorem length_cells (hfull : p.Full) (timestamps : List TimestampEntry) :
    (columnCells timestamps p.column).length = (p.cells time).length := by
  rw [columnCells, Piece.cells, length_map, length_map, length_zipIdx,
    length_zipIdx]
  exact hfull

/-- **A piece of the right length gives its cells exactly when it fits.** -/
theorem columnCells_eq_iff (hfull : p.Full) (hshaped : p.entries.length = timestamps.length) :
    columnCells timestamps p.column = p.cells time ↔
      columnEntries p.stored = p.entries ∧
        ∀ k t, timestamps[k]? = some t → rowTime t = time (p.row k) := by
  rw [columnCells, Piece.cells]
  constructor
  · intro h
    have hk : ∀ k t, timestamps[k]? = some t → (columnEntries p.stored)[k]? = p.entries[k]? ∧
        rowTime t = time (p.row k) := by
      intro k t ht
      have hlt : k < p.entries.length := hshaped ▸ (List.getElem?_eq_some_iff.mp ht).1
      have hlt' : k < (columnEntries p.stored).length := hfull ▸ hlt
      have hcell := congrArg (·[k]?) h
      simp only [List.getElem?_map, List.getElem?_zipIdx, List.getElem?_eq_getElem hlt,
        List.getElem?_eq_getElem hlt', Option.map_some, Option.some.injEq, Cell.mk.injEq,
        Nat.zero_add, ht, Piece.column] at hcell
      exact ⟨by rw [List.getElem?_eq_getElem hlt, List.getElem?_eq_getElem hlt', hcell.2.2],
        hcell.2.1⟩
    refine ⟨ext_getElem? fun k => ?_, fun k t ht => (hk k t ht).2⟩
    cases ht : timestamps[k]? with
    | some t => exact (hk k t ht).1
    | none =>
      have hle := List.getElem?_eq_none_iff.mp ht
      have hp : p.entries.length ≤ k := hshaped ▸ hle
      rw [List.getElem?_eq_none hp, List.getElem?_eq_none (hfull ▸ hp)]
  · rintro ⟨hentries, htime⟩
    simp only [Piece.column, hentries]
    refine map_congr_left fun e he => ?_
    have hlt : e.2 < p.entries.length := (mem_zipIdx' he).1
    have ht := List.getElem?_eq_getElem (hshaped ▸ hlt)
    rw [ht, Option.map_some, htime e.2 _ ht]

end Pieces

/-! ## 3. Frames

A PIECE is what a reader makes of some cells of one column: the values it stores in one column of a
frame, the entries these stand for, and the row of each.  `frames_sound_iff` reduces "every cell of
the table is in the frames once, in order, with its time and value" to one condition on each
piece. -/

section Frames

variable {data : String → Bool} {time : Nat → RowTime} {γ : Type} {pieces : γ → List Piece}
  {frame : List γ → DataBatch Datum}

/-- The cells that columns of a table have in the columns looked at. -/
def tableCells (data : String → Bool) (time : Nat → RowTime) (pieces : γ → List Piece)
    (columns : List γ) : List Cell :=
  ((columns.flatMap pieces).filter fun p => data p.name).flatMap (Piece.cells time)

variable {f : DataBatch Datum}
variable {ps : List Piece}

theorem frameCells_pieces (h : f.columns = ps.map Piece.column) :
    frameCells data f =
      (ps.filter fun p => data p.name).flatMap fun p => columnCells f.timestamps p.column := by
  rw [frameCells, h, filter_map, flatMap_map]
  rfl

theorem shaped_iff (h : f.columns = ps.map Piece.column) (hfull : ∀ p ∈ ps, p.Full) :
    Shaped f ↔ ∀ p ∈ ps, p.entries.length = f.timestamps.length := by
  rw [Shaped, h, forall_mem_map]
  refine forall₂_congr fun p hp => ?_
  have hp : (columnEntries p.column.values).length = p.entries.length := hfull p hp
  rw [hp]

/-- A frame gives the cells of its pieces exactly when each piece fits. -/
theorem frame_sound_iff (data : String → Bool) (time : Nat → RowTime)
    (h : f.columns = ps.map Piece.column) (hfull : ∀ p ∈ ps, p.Full) :
    Shaped f ∧
        frameCells data f = (ps.filter fun p => data p.name).flatMap (Piece.cells time) ↔
      ∀ p ∈ ps, p.Fits data time f.timestamps := by
  rw [shaped_iff h hfull, frameCells_pieces h,
    flatMap_eq_iff fun p hp => length_cells (hfull p (mem_of_mem_filter hp)) f.timestamps]
  constructor
  · rintro ⟨hshaped, hcells⟩ p hp
    have hiff : columnCells f.timestamps p.column = p.cells time ↔ _ :=
      columnCells_eq_iff (hfull p hp) (hshaped p hp)
    refine ⟨hshaped p hp, fun hdata => ?_, fun hdata => ?_⟩
    · exact (hiff.mp (hcells p (mem_filter.mpr ⟨hp, hdata⟩))).1
    · exact (hiff.mp (hcells p (mem_filter.mpr ⟨hp, hdata⟩))).2
  · intro hfits
    refine ⟨fun p hp => (hfits p hp).shaped, fun p hp => ?_⟩
    obtain ⟨hp, hdata⟩ := mem_filter.mp hp
    have hfit := hfits p hp
    exact (columnCells_eq_iff (hfull p hp) hfit.shaped).mpr
      ⟨hfit.unchanged hdata, hfit.inTime hdata⟩

theorem tableCells_append (columns more : List γ) :
    tableCells data time pieces (columns ++ more) =
      tableCells data time pieces columns ++ tableCells data time pieces more := by
  simp only [tableCells, flatMap_append, filter_append]

theorem tableCells_flatten (G : List (List γ)) :
    tableCells data time pieces G.flatten = G.flatMap (tableCells data time pieces) := by
  induction G with
  | nil => rfl
  | cons g G ih => rw [flatten_cons, tableCells_append, ih, flatMap_cons]

theorem length_frameCells (h : f.columns = ps.map Piece.column) (hfull : ∀ p ∈ ps, p.Full) :
    (frameCells data f).length =
      ((ps.filter fun p => data p.name).flatMap (Piece.cells time)).length := by
  rw [frameCells_pieces h, length_flatMap, length_flatMap]
  refine congrArg List.sum (map_congr_left fun p hp => ?_)
  exact length_cells (hfull p (mem_of_mem_filter hp)) f.timestamps

/-- **Frames give each cell of the table once, in order, exactly when each piece fits into its
frame.** -/
theorem frames_sound_iff (data : String → Bool) (time : Nat → RowTime)
    (hcolumns : ∀ g, (frame g).columns = (g.flatMap pieces).map Piece.column)
    (hfull : ∀ c, ∀ p ∈ pieces c, p.Full) (G : List (List γ)) :
    (∀ f ∈ G.map frame, Shaped f) ∧
        (G.map frame).flatMap (frameCells data) = tableCells data time pieces G.flatten ↔
      ∀ g ∈ G, ∀ c ∈ g, ∀ p ∈ pieces c, p.Fits data time (frame g).timestamps := by
  have hfull' : ∀ g : List γ, ∀ p ∈ g.flatMap pieces, p.Full := by
    intro g p hp
    obtain ⟨c, -, hp⟩ := mem_flatMap.mp hp
    exact hfull c p hp
  have hlength : ∀ g ∈ G,
      (frameCells data (frame g)).length = (tableCells data time pieces g).length :=
    fun g _ => length_frameCells (hcolumns g) (hfull' g)
  rw [tableCells_flatten, flatMap_map, forall_mem_map, flatMap_eq_iff hlength,
    ← forall₂_and]
  refine forall₂_congr fun g _ => ?_
  refine (frame_sound_iff data time (hcolumns g) (hfull' g)).trans ?_
  constructor
  · intro h c hc p hp
    exact h p (mem_flatMap.mpr ⟨c, hc, hp⟩)
  · intro h p hp
    obtain ⟨c, hc, hp⟩ := mem_flatMap.mp hp
    exact h c hc p hp

end Frames

/-! ## 4. Scalars and arrays somewhere in a value -/

/-- A scalar, an array or nothing, somewhere in a value. -/
inductive Leaf
  | null
  | scalar (value : Scalar)
  | array (values : ScalarArray)

/-- The values of the column for a leaf. -/
def Leaf.stored : Leaf → ColumnValues Datum
  | .null => .scalar .string [.string "null"]
  | .scalar s => .scalar s.toArray.scalarKind s.toArray.stored
  | .array a => a.arrayValues

/-- The entries a leaf stands for; an array is one entry, but strings are entries of their own. -/
def Leaf.entries : Leaf → List Entry
  | .null => [.scalar (.string "null")]
  | .scalar s => [.scalar s.datum]
  | .array (.string values) => values.map fun v => .scalar (.string v)
  | .array a => [.array a.data]

/-- The column for a leaf and its name. -/
def leafColumn (l : String × Leaf) : DataColumn Datum := { name := l.1, values := l.2.stored }

/-- No integer of the leaf is above the range of its column. -/
def Leaf.InRange : Leaf → Prop
  | .null => True
  | .scalar s => s.toArray.InRange
  | .array a => a.InRange

/-- A column is appended. -/
def appendColumn (batch : DataBatch Datum) (columnName : String) (values : ColumnValues Datum) :
    DataBatch Datum :=
  { batch with columns := batch.columns ++ [{ name := columnName, values := values }] }

/-- The array column, and its dimension. -/
def appendArrayColumn (batch : DataBatch Datum) (columnName : String) (a : ScalarArray) :
    DataBatch Datum :=
  { appendColumn batch columnName a.arrayValues with
    arrayDims := put batch.arrayDims columnName [a.length % 4294967296] }

theorem toArray_data (s : Scalar) : s.toArray.data = [s.datum] := by
  cases s <;> rfl

theorem length_leafEntries (l : Leaf) : (columnEntries l.stored).length = l.entries.length := by
  cases l with
  | null => rfl
  | scalar s => cases s <;> rfl
  | array a =>
    cases a with
    | string values => simp [Leaf.stored, Leaf.entries, ScalarArray.arrayValues, columnEntries,
        ScalarArray.stored, ScalarArray.data]
    | bool values => rfl
    | int type values => rfl
    | float values => rfl
    | double values => rfl

/-- **A leaf is stored unchanged exactly when it is in range.** -/
theorem leafEntries_eq_iff (l : Leaf) : columnEntries l.stored = l.entries ↔ l.InRange := by
  cases l with
  | null => exact iff_of_true rfl trivial
  | scalar s =>
    rw [Leaf.stored, Leaf.entries, columnEntries, Leaf.InRange, ← stored_eq_iff, toArray_data,
      ← map_singleton, List.map_inj_right fun _ _ h => Entry.scalar.inj h]
  | array a =>
    cases a with
    | int type values =>
      rw [Leaf.InRange, ← stored_eq_iff]
      simp [Leaf.stored, Leaf.entries, ScalarArray.arrayValues, columnEntries]
    | string values =>
      refine iff_of_true ?_ trivial
      simp [Leaf.stored, Leaf.entries, ScalarArray.arrayValues, columnEntries,
        ScalarArray.stored, ScalarArray.data]
    | bool values => exact iff_of_true rfl trivial
    | float values => exact iff_of_true rfl trivial
    | double values => exact iff_of_true rfl trivial

theorem length_take (n : Nat) (a : ScalarArray) : (a.take n).length = min n a.length := by
  cases a <;> simp [ScalarArray.take, ScalarArray.length]

/-! ## 5. The times of the rows -/

/-- `static_cast<uint64_t>`. -/
def toUInt64 (v : Int) : Nat := (v % 18446744073709551616).toNat

/-- The two arrays of timestamps of a table. -/
structure RowTimes where
  seconds : List Int
  nanos : List Int

namespace RowTimes

def rowCount (r : RowTimes) : Nat := min r.seconds.length r.nanos.length

/-- The time of a row. -/
def time (r : RowTimes) (i : Nat) : RowTime := (r.seconds.getD i 0, r.nanos.getD i 0)

/-- The timestamps of the rows. -/
def timestamps (r : RowTimes) : List TimestampEntry :=
  (r.seconds.zip r.nanos).map fun x => ⟨toUInt64 x.1, toUInt64 x.2⟩

/-- The time that is emitted for a row. -/
def emittedTime (r : RowTimes) (i : Nat) : RowTime :=
  (toUInt64 (r.time i).1, toUInt64 (r.time i).2)

theorem length_timestamps (r : RowTimes) : r.timestamps.length = r.rowCount := by
  rw [timestamps, length_map, length_zip, rowCount]

theorem getElem?_timestamps (r : RowTimes) {k : Nat} (hk : k < r.rowCount) :
    r.timestamps[k]? = some ⟨toUInt64 (r.time k).1, toUInt64 (r.time k).2⟩ := by
  have hs : k < r.seconds.length := Nat.lt_of_lt_of_le hk (Nat.min_le_left _ _)
  have hn : k < r.nanos.length := Nat.lt_of_lt_of_le hk (Nat.min_le_right _ _)
  simp [timestamps, time, List.getElem?_eq_getElem hs, List.getElem?_eq_getElem hn,
    List.getElem?_zip_eq_some]

/-- **A piece fits into a frame that has the first `m` rows.** -/
theorem piece_fits_iff (r : RowTimes) {m : Nat} (hm : m ≤ r.rowCount) (data : String → Bool)
    (p : Piece) :
    p.Fits data r.time (r.timestamps.take m) ↔
      p.entries.length = m ∧ (data p.name = true → columnEntries p.stored = p.entries ∧
        ∀ k < m, r.emittedTime k = r.time (p.row k)) := by
  have hlength : (r.timestamps.take m).length = m := by
    rw [List.length_take, length_timestamps, Nat.min_eq_left hm]
  have htimes : (∀ k ts, (r.timestamps.take m)[k]? = some ts → rowTime ts = r.time (p.row k)) ↔
      ∀ k < m, r.emittedTime k = r.time (p.row k) := by
    constructor
    · intro h k hk
      have hts := r.getElem?_timestamps (Nat.lt_of_lt_of_le hk hm)
      exact h k _ ((List.getElem?_take_of_lt hk).trans hts)
    · intro h k ts hts
      have hk : k < m := hlength ▸ (List.getElem?_eq_some_iff.mp hts).1
      rw [List.getElem?_take_of_lt hk, r.getElem?_timestamps (Nat.lt_of_lt_of_le hk hm)] at hts
      rw [← Option.some.inj hts]
      exact h k hk
  constructor
  · intro h
    exact ⟨h.shaped.trans hlength,
      fun hdata => ⟨h.unchanged hdata, htimes.mp (h.inTime hdata)⟩⟩
  · rintro ⟨hshaped, hdata⟩
    exact ⟨hshaped.trans hlength.symm, fun h => (hdata h).1, fun h => htimes.mpr (hdata h).2⟩

end RowTimes

end MldpDriver.Reader
