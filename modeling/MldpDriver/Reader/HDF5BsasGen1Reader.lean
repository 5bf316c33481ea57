/-
# The HDF5 BSAS reader

A BSAS file holds a table: the datasets `secondsPastEpoch` and `nanoseconds`, and a dataset for each
column, float64 or int16.  The reader takes the number of rows from the first, reads some rows at a
time (a CHUNK), and pushes for each chunk a batch with frames of so many columns and then an
end-of-batch marker.

Reading rows that a dataset does not have throws, and the rest of the file is given up.  A file
without one of the timestamp datasets is refused before anything is read; here it has both.  The bus
takes every batch in the end, and the reader is not stopped before.  A name of the file is a list of
bytes, and the name of a column the string of its bytes.
-/
import MldpDriver.Lib.Directory
import MldpDriver.Lib.Groups
import MldpDriver.Lib.Loop
import MldpDriver.Reader.PvField

namespace MldpDriver.Reader.BsasGen1

open Bus Lib.Directory Lib.Groups Lib.Loop List

/-! ## 1. Names -/

def isContinuationByte (byte : UInt8) : Bool := byte &&& 0xC0 == 0x80

/-- The code point of the bytes of a sequence, the first without its marker bits. -/
def codePoint (first : UInt8) (rest : List UInt8) : UInt32 :=
  rest.foldl (fun ch byte => ch <<< 6 ||| (byte &&& 0x3F).toUInt32) first.toUInt32

/-- `isValidUtf8`. -/
def isValidUtf8 : List UInt8 → Bool
  | [] => true
  | p :: rest =>
    if p < 0x80 then isValidUtf8 rest
    else if p &&& 0xE0 = 0xC0 then
      match rest with
      | p1 :: rest => isContinuationByte p1 && !decide (p < 0xC2) && isValidUtf8 rest
      | [] => false
    else if p &&& 0xF0 = 0xE0 then
      match rest with
      | p1 :: p2 :: rest =>
        let ch := codePoint (p &&& 0x0F) [p1, p2]
        isContinuationByte p1 && isContinuationByte p2 &&
          !(decide (ch < 0x800) || (decide (0xD800 ≤ ch) && decide (ch ≤ 0xDFFF))) &&
          isValidUtf8 rest
      | _ => false
    else if p &&& 0xF8 = 0xF0 then
      match rest with
      | p1 :: p2 :: p3 :: rest =>
        let ch := codePoint (p &&& 0x07) [p1, p2, p3]
        isContinuationByte p1 && isContinuationByte p2 && isContinuationByte p3 &&
          !(decide (ch < 0x10000) || decide (0x10FFFF < ch)) && isValidUtf8 rest
      | _ => false
    else false

/-- `sanitizeUtf8`; the test for a blank is never reached. -/
def sanitizeUtf8 (input : List UInt8) : List UInt8 :=
  if isValidUtf8 input then input
  else
    input.filterMap fun p =>
      if 0x20 ≤ p ∧ p < 0x7F then some p else if p = 0x20 then some 0x5F else none

/-- `std::iscntrl`. -/
def isControl (ch : UInt8) : Bool := decide (ch < 0x20) || ch == 0x7F

/-- `unnamed_column`. -/
def unnamedColumn : List UInt8 := "unnamed_column".toList.map fun ch => ch.toNat.toUInt8

/-- `normalizeColumnName`. -/
def normalizeColumnName (candidate fallback : List UInt8) : List UInt8 :=
  let name := sanitizeUtf8 candidate
  let name := if name.isEmpty then sanitizeUtf8 fallback else name
  let name := name.map fun ch => if isControl ch then 0x5F else ch
  if name.isEmpty then unnamedColumn else name

/-- Bytes as a name. -/
def nameOf (bytes : List UInt8) : String := String.ofList (bytes.map fun b => Char.ofNat b.toNat)

/-! ## 2. The file -/

/-- The values of a dataset of a supported type. -/
inductive ColumnData
  | float64 (values : List (BitVec 64))
  | int16 (values : List Int16)

def ColumnData.rowCount : ColumnData → Nat
  | .float64 values => values.length
  | .int16 values => values.length

/-- The values as a frame holds them; 16-bit integers are widened. -/
def ColumnData.values : ColumnData → ColumnValues Datum
  | .float64 values => .scalar .double (values.map .double)
  | .int16 values => .scalar .int32 (values.map fun v => .int v.toInt)

def ColumnData.isFloat64 : ColumnData → Bool
  | .float64 _ => true
  | .int16 _ => false

/-- A dataset with its string attributes; none of its values if it is of another type. -/
structure FileDataset where
  name : List UInt8
  attributes : List (String × String) := []
  data : Option ColumnData

/-- A file: the timestamp datasets, and the others in the order of their index. -/
structure BsasFile where
  secondsPastEpoch : List UInt32
  nanoseconds : List UInt32
  datasets : List FileDataset

/-- `ColumnInfo`, with its values. -/
structure ColumnInfo where
  name : String
  metadata : List (String × String) := []
  data : ColumnData

/-- The column for a dataset; one of another type or without rows is skipped. -/
def columnOf (ds : FileDataset) : Option ColumnInfo :=
  ds.data.bind fun data =>
    if data.rowCount = 0 then none
    else some
      { name := nameOf (normalizeColumnName ds.name ds.name), metadata := ds.attributes, data := data }

/-- The columns, sorted: `std::stable_sort` puts the float64 columns first. -/
def BsasFile.columns (file : BsasFile) : List ColumnInfo :=
  let found := file.datasets.filterMap columnOf
  found.filter (·.data.isFloat64) ++ found.filter fun c => !c.data.isFloat64

def BsasFile.totalRows (file : BsasFile) : Nat := file.secondsPastEpoch.length

/-- `HDF5BsasGen1ReaderConfig`. -/
structure ReaderConfig where
  name : String
  nonempty : name ≠ ""
  chunkSize : Nat := 1000
  chunkSize_pos : 0 < chunkSize
  columnsPerFrame : Nat := 1
  columnsPerFrame_pos : 0 < columnsPerFrame
  staticMetadata : List (String × String) := []
  provenance : List (String × String) := []

/-! ## 3. A chunk -/

/-- Rows of a dataset; none if the selection is not inside. -/
def readRows {α : Type} (startRow numRows : Nat) (rows : List α) : Option (List α) :=
  if startRow + numRows ≤ rows.length then some ((rows.drop startRow).take numRows) else none

/-- Rows of a column. -/
def readColumn (startRow numRows : Nat) (c : ColumnInfo) : Option (DataColumn Datum) :=
  let column (values : ColumnValues Datum) : DataColumn Datum :=
    { name := c.name, values := values, metadata := c.metadata }
  match c.data with
  | .float64 values =>
    (readRows startRow numRows values).map fun rows => column (ColumnData.float64 rows).values
  | .int16 values =>
    (readRows startRow numRows values).map fun rows => column (ColumnData.int16 rows).values

/-- A chunk: timestamps, and the columns with their values. -/
abbrev RowChunk : Type := List TimestampEntry × List (DataColumn Datum)

/-- The rows of all datasets; the first selection that is not inside throws. -/
def readChunk (file : BsasFile) (startRow numRows : Nat) : Option RowChunk := do
  let secData ← readRows startRow numRows file.secondsPastEpoch
  let nanoData ← readRows startRow numRows file.nanoseconds
  let columns ← file.columns.mapM (readColumn startRow numRows)
  some (List.zipWith (fun s n => ⟨s.toNat, n.toNat⟩) secData nanoData, columns)

/-- A column goes into the open frame, which is closed when it has enough. -/
def addColumn (maxCols : Nat) (timestamps : List TimestampEntry)
    (s : List (DataBatch Datum) × DataBatch Datum) (c : DataColumn Datum) :
    List (DataBatch Datum) × DataBatch Datum :=
  let frame := { s.2 with columns := s.2.columns ++ [c] }
  if maxCols ≤ frame.columns.length then (s.1 ++ [frame], { timestamps := timestamps })
  else (s.1, frame)

/-- The frames of a chunk. -/
def buildFrames (maxCols : Nat) (chunk : RowChunk) : List (DataBatch Datum) :=
  let s := chunk.2.foldl (addColumn maxCols chunk.1) ([], { timestamps := chunk.1 })
  if s.2.columns.isEmpty then s.1 else s.1 ++ [s.2]

/-- `applyCommonMetadata`. -/
def commonMetadata (cfg : ReaderConfig) (metadata : List (String × String)) :
    List (String × String) :=
  cfg.provenance.foldl (fun metadata kv => put metadata kv.1 kv.2) (put metadata "source" cfg.name)

/-- `emitChunk`: the batch of the chunk and its marker. -/
def emitChunk (cfg : ReaderConfig) (currentFile : String) (chunk : RowChunk) :
    List (EventBatch Datum) :=
  [{ metadata := commonMetadata cfg (put cfg.staticMetadata "file" currentFile)
     payload := .timeSeries
      { rootSourceName := cfg.name
        frames := buildFrames cfg.columnsPerFrame chunk
        isTabular := true } },
    { metadata := commonMetadata cfg []
      payload := .timeSeries
        { rootSourceName := cfg.name, frames := [], endOfBatchGroup := true, isTabular := true } }]

/-! ## 4. The file in chunks -/

/-- The loop over the chunks, of which there are no more than rows. -/
def readChunks (chunkSize : Nat) (file : BsasFile) : Nat → Nat → List RowChunk
  | 0, _ => []
  | fuel + 1, startRow =>
    if startRow < file.totalRows then
      match readChunk file startRow (min chunkSize (file.totalRows - startRow)) with
      | some chunk => chunk :: readChunks chunkSize file fuel (startRow + chunkSize)
      | none => []
    else []

/-- `readFile`: the batches for a file, up to an error. -/
def readFile (cfg : ReaderConfig) (currentFile : String) (file : BsasFile) :
    List (EventBatch Datum) :=
  (readChunks cfg.chunkSize file file.totalRows 0).flatMap (emitChunk cfg currentFile)

/-! ## 5. What a chunk holds -/

/-- The column of a table. -/
def ColumnInfo.column (c : ColumnInfo) : DataColumn Datum :=
  { name := c.name, values := c.data.values, metadata := c.metadata }

/-- The timestamps of the rows that have both numbers. -/
def BsasFile.timestamps (file : BsasFile) : List TimestampEntry :=
  List.zipWith (fun s n => ⟨s.toNat, n.toNat⟩) file.secondsPastEpoch file.nanoseconds

/-- Some of the values of a column. -/
def sliceValues {V : Type} (k n : Nat) : ColumnValues V → ColumnValues V
  | .scalar kind values => .scalar kind ((values.drop k).take n)
  | .bytes values => .bytes ((values.drop k).take n)
  | .array kind values => .array kind ((values.drop k).take n)

def sliceColumn {V : Type} (k n : Nat) (c : DataColumn V) : DataColumn V :=
  { c with values := sliceValues k n c.values }

/-- The chunk of some rows. -/
def BsasFile.chunk (file : BsasFile) (k n : Nat) : RowChunk :=
  ((file.timestamps.drop k).take n, file.columns.map fun c => sliceColumn k n c.column)

/-- Every dataset has these rows. -/
structure Inside (file : BsasFile) (k n : Nat) : Prop where
  seconds : k + n ≤ file.secondsPastEpoch.length
  nanoseconds : k + n ≤ file.nanoseconds.length
  columns : ∀ c ∈ file.columns, k + n ≤ c.data.rowCount

section Chunks

variable {file : BsasFile} {k n : Nat}

theorem readColumn_eq (c : ColumnInfo) : readColumn k n c =
    if k + n ≤ c.data.rowCount then some (sliceColumn k n c.column) else none := by
  obtain ⟨name, metadata, data⟩ := c
  cases data with
  | float64 values =>
    by_cases hinside : k + n ≤ values.length <;>
      simp [readColumn, readRows, ColumnData.rowCount, sliceColumn, ColumnInfo.column,
        ColumnData.values, sliceValues, hinside, map_drop]
  | int16 values =>
    by_cases hinside : k + n ≤ values.length <;>
      simp [readColumn, readRows, ColumnData.rowCount, sliceColumn, ColumnInfo.column,
        ColumnData.values, sliceValues, hinside, map_drop]

theorem readChunk_inside (h : Inside file k n) :
    readChunk file k n = some (file.chunk k n) := by
  have hcolumns : file.columns.mapM (readColumn k n) =
      some (file.columns.map fun c => sliceColumn k n c.column) := by
    refine mapM_eq_pure fun c hc => ?_
    rw [readColumn_eq, if_pos (h.columns c hc)]
    rfl
  rw [readChunk, readRows, if_pos h.seconds, readRows, if_pos h.nanoseconds, hcolumns]
  simp [BsasFile.chunk, BsasFile.timestamps, drop_zipWith, take_zipWith]

theorem inside_of_readChunk {chunk : RowChunk} (h : readChunk file k n = some chunk) :
    Inside file k n := by
  simp only [readChunk, Option.bind_eq_bind, Option.bind_eq_some_iff] at h
  obtain ⟨secData, hsec, nanoData, hnano, columns, hcolumns, -⟩ := h
  refine ⟨?_, ?_, fun c hc => ?_⟩
  · by_contra hout
    rw [readRows, if_neg hout] at hsec
    cases hsec
  · by_contra hout
    rw [readRows, if_neg hout] at hnano
    cases hnano
  · obtain ⟨column, hcolumn⟩ :=
      ((mapM_eq_some_iff ({ name := "", values := .bytes [] } : DataColumn Datum)).mp hcolumns).1 c hc
    by_contra hout
    rw [readColumn_eq, if_neg hout] at hcolumn
    cases hcolumn

/-- These are the chunks from one row to another. -/
inductive Chunks (file : BsasFile) : Nat → List RowChunk → Nat → Prop
  | nil (k : Nat) : Chunks file k [] k
  | cons {k n stop : Nat} {chunks : List RowChunk} (hn : 0 < n) (hinside : Inside file k n)
    (hrest : Chunks file (k + n) chunks stop) : Chunks file k (file.chunk k n :: chunks) stop

/-- **The loop reads chunk after chunk, up to the end or up to one that is not inside.** -/
theorem readChunks_chunks {chunkSize : Nat} (hsize : 0 < chunkSize) {fuel startRow : Nat}
    (hstart : startRow ≤ file.totalRows) (hfuel : file.totalRows - startRow ≤ fuel) :
    ∃ stop, Chunks file startRow (readChunks chunkSize file fuel startRow) stop ∧
      (stop = file.totalRows ∨ ∃ n, stop + n ≤ file.totalRows ∧ ¬ Inside file stop n) := by
  induction fuel generalizing startRow with
  | zero => exact ⟨startRow, .nil startRow, .inl (by omega)⟩
  | succ fuel ih =>
    rw [readChunks]
    by_cases hlt : startRow < file.totalRows
    · rw [if_pos hlt]
      have hn : 0 < min chunkSize (file.totalRows - startRow) := by omega
      cases hread : readChunk file startRow (min chunkSize (file.totalRows - startRow)) with
      | none =>
        refine ⟨startRow, .nil startRow, .inr ⟨min chunkSize (file.totalRows - startRow), ?_, ?_⟩⟩
        · omega
        · intro hinside
          rw [readChunk_inside hinside] at hread
          cases hread
      | some chunk =>
        have hinside := inside_of_readChunk hread
        obtain rfl := Option.some.inj (hread.symm.trans (readChunk_inside hinside))
        by_cases hlast : file.totalRows ≤ startRow + chunkSize
        · -- the loop ends after this chunk
          have hmin : min chunkSize (file.totalRows - startRow) = file.totalRows - startRow := by
            omega
          have hend : readChunks chunkSize file fuel (startRow + chunkSize) = [] := by
            cases fuel with
            | zero => rfl
            | succ fuel => exact if_neg (by omega)
          have hstop : startRow + min chunkSize (file.totalRows - startRow) = file.totalRows := by
            omega
          refine ⟨file.totalRows, .cons hn hinside ?_, .inl rfl⟩
          rw [hend, hstop]
          exact .nil _
        · have hmin : min chunkSize (file.totalRows - startRow) = chunkSize := by omega
          rw [hmin] at hn hinside ⊢
          obtain ⟨stop, hchunks, hstop⟩ :=
            @ih (startRow + chunkSize) (by omega) (by omega)
          exact ⟨stop, .cons hn hinside hchunks, hstop⟩
    · rw [if_neg hlt]
      exact ⟨startRow, .nil startRow, .inl (by omega)⟩

end Chunks

/-! ## 6. Frames -/

theorem buildFrames_eq {maxCols : Nat} (hmax : 0 < maxCols) (chunk : RowChunk) :
    buildFrames maxCols chunk = (groups maxCols [] chunk.2).map fun columns =>
      { timestamps := chunk.1, columns := columns } := by
  obtain ⟨timestamps, columns⟩ := chunk
  have hfold : ∀ (frames : List (DataBatch Datum)) (opened : List (DataColumn Datum)),
      (let s := columns.foldl (addColumn maxCols timestamps)
        (frames, { timestamps := timestamps, columns := opened })
      if s.2.columns.isEmpty then s.1 else s.1 ++ [s.2]) =
        frames ++ (groups maxCols opened columns).map fun columns =>
          { timestamps := timestamps, columns := columns } := by
    induction columns with
    | nil =>
      intro frames opened
      cases opened with
      | nil => simp [groups]
      | cons c opened => simp [groups]
    | cons c columns ih =>
      intro frames opened
      rw [groups_cons, foldl_cons, addColumn]
      by_cases hfull : maxCols ≤ opened.length + 1
      · have hframe : maxCols ≤ (opened ++ [c]).length := by simpa using hfull
        simp only [if_pos hframe, if_pos (And.intro hmax hfull), map_cons]
        refine (ih _ []).trans ?_
        rw [append_assoc, singleton_append]
      · have hframe : ¬ maxCols ≤ (opened ++ [c]).length := by simpa using hfull
        have hopen : ¬ (0 < maxCols ∧ maxCols ≤ opened.length + 1) := fun h => hfull h.2
        simp only [if_neg hframe, if_neg hopen]
        exact ih frames (opened ++ [c])
  exact hfold [] []

/-- **Every column of a chunk is in one frame, in order, with the timestamps of the chunk.** -/
theorem buildFrames_columns {maxCols : Nat} (hmax : 0 < maxCols) (chunk : RowChunk) :
    (buildFrames maxCols chunk).flatMap (·.columns) = chunk.2 ∧
      ∀ frame ∈ buildFrames maxCols chunk, frame.timestamps = chunk.1 := by
  rw [buildFrames_eq hmax]
  refine ⟨?_, fun frame hframe => ?_⟩
  · rw [flatMap_map]
    exact flatMap_id'.trans (flatten_groups maxCols [] chunk.2)
  · obtain ⟨columns, -, rfl⟩ := mem_map.mp hframe
    rfl

end MldpDriver.Reader.BsasGen1
