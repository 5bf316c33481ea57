/-
# From columns to frames to batches

Both EPICS readers turn a table update into batches in the same way.  A converted column arrives as
one or several small frames; what is kept of them is moved into the CURRENT FRAME, whose timestamps
are those of the first of them.  After `perPvBatchSize` columns the frame is closed and moved into
the batch, and after `busBatchSize` frames the batch is pushed; a size of 0 sets no limit.
-/
import MldpDriver.Bus.DataBatch
import MldpDriver.Lib.Directory
import MldpDriver.Lib.Groups

namespace MldpDriver.Reader

open Bus Lib.Directory Lib.Groups List

variable {V : Type} {busBatchSize perPvBatchSize : Nat}

/-! ## 1. The loop -/

/-- A frame with nothing in it. -/
def emptyFrame : DataBatch V := { timestamps := [] }

/-- What a reader keeps while it goes through the columns; the frames in hand are those of
`tableBatch`. -/
structure Batching (V : Type) where
  frames : List (DataBatch V) := []
  currentFrame : DataBatch V := emptyFrame
  colsInCurrentFrame : Nat := 0
  frameTimestampsSet : Bool := false
  colsInBatch : Nat := 0
  pushed : List (List (DataBatch V)) := []

/-- `array_dims[k] = v` for each of some dimensions. -/
def addDims (dims more : List (String × List Nat)) : List (String × List Nat) :=
  more.foldl (fun dims kv => put dims kv.1 kv.2) dims

/-- A small frame is moved into the current frame. -/
def Batching.absorb (s : Batching V) (b : DataBatch V) : Batching V :=
  { s with
    currentFrame := { s.currentFrame with
      timestamps := if s.frameTimestampsSet then s.currentFrame.timestamps else b.timestamps
      columns := s.currentFrame.columns ++ b.columns
      arrayDims := addDims s.currentFrame.arrayDims b.arrayDims }
    frameTimestampsSet := true }

/-- The current frame is moved into the batch. -/
def Batching.closeFrame (s : Batching V) : Batching V :=
  if s.colsInCurrentFrame = 0 then s
  else
    { s with
      frames := s.frames ++ [s.currentFrame]
      currentFrame := emptyFrame
      colsInCurrentFrame := 0
      frameTimestampsSet := false
      colsInBatch := s.colsInBatch + 1 }

/-- The batch is pushed, unless it is empty, and the next begins. -/
def Batching.push (s : Batching V) : Batching V :=
  if s.frames.isEmpty then s
  else { s with pushed := s.pushed ++ [s.frames], frames := [], colsInBatch := 0 }

/-- `flushCurrentFrame`. -/
def Batching.flushCurrentFrame (busBatchSize : Nat) (force : Bool) (s : Batching V) : Batching V :=
  if s.colsInCurrentFrame = 0 ∧ force = false then s
  else if force = true ∨ (0 < busBatchSize ∧ busBatchSize ≤ s.closeFrame.colsInBatch) then
    s.closeFrame.push
  else s.closeFrame

/-- What both readers do with a converted column: the small frames that are kept are absorbed, and
if there are any the column counts. -/
def Batching.emitColumn (keep : DataBatch V → Bool) (busBatchSize perPvBatchSize : Nat)
    (s : Batching V) (batches : List (DataBatch V)) : Batching V :=
  if (batches.filter keep).isEmpty then s
  else
    let s' := (batches.filter keep).foldl Batching.absorb s
    let s' := { s' with colsInCurrentFrame := s'.colsInCurrentFrame + 1 }
    if 0 < perPvBatchSize ∧ perPvBatchSize ≤ s'.colsInCurrentFrame then
      s'.flushCurrentFrame busBatchSize false
    else s'

/-- The batch sizes of the reader and of the PV, and the names of the timestamp fields. -/
structure TableConfig where
  busBatchSize : Nat
  perPvBatchSize : Nat := 1
  tsSecondsField : String := "secondsPastEpoch"
  tsNanosField : String := "nanoseconds"

/-- `makeTableEventBatch`, with its frames. -/
def tableBatch (metadata : List (String × String)) (pvName : String)
    (frames : List (DataBatch V)) : EventBatch V where
  metadata := metadata
  payload := .timeSeries { rootSourceName := pvName, frames := frames, isTabular := true }

/-- The frames of batches. -/
def framesOf (batches : List (EventBatch V)) : List (DataBatch V) :=
  batches.flatMap fun b => match b.payload with
    | .timeSeries payload => payload.frames
    | _ => []

/-! ## 2. What it comes to

`emitColumns_flush` says what all this comes to: the columns that contribute are taken together into
frames, and the frames into batches. -/

/-- The frame that small frames make. -/
def frameOf (batches : List (DataBatch V)) : DataBatch V where
  timestamps := match batches with
    | [] => []
    | b :: _ => b.timestamps
  columns := batches.flatMap (·.columns)
  arrayDims := batches.foldl (fun dims b => addDims dims b.arrayDims) []

/-- The columns that contribute, with what is kept of each. -/
def contributions (keep : DataBatch V → Bool) (columns : List (List (DataBatch V))) :
    List (List (DataBatch V)) :=
  (columns.map (·.filter keep)).filter fun batches => !batches.isEmpty

/-- The state holds these columns in its current frame. -/
structure Batching.Holds (s : Batching V) (opened : List (List (DataBatch V))) : Prop where
  currentFrame : s.currentFrame = frameOf opened.flatten
  frameTimestampsSet : s.frameTimestampsSet = !opened.flatten.isEmpty
  colsInCurrentFrame : s.colsInCurrentFrame = opened.length
  colsInBatch : s.colsInBatch = s.frames.length

variable {s : Batching V} {opened : List (List (DataBatch V))}

theorem holds_empty (frames : List (DataBatch V)) (pushed : List (List (DataBatch V))) :
    Batching.Holds { frames := frames, colsInBatch := frames.length, pushed := pushed } [] :=
  ⟨rfl, rfl, rfl, rfl⟩

theorem frameOf_concat (batches : List (DataBatch V)) (b : DataBatch V) :
    frameOf (batches ++ [b]) =
      { frameOf batches with
        timestamps := if batches.isEmpty then b.timestamps else (frameOf batches).timestamps
        columns := (frameOf batches).columns ++ b.columns
        arrayDims := addDims (frameOf batches).arrayDims b.arrayDims } := by
  cases batches <;> simp [frameOf]

theorem absorb_all (kept batches : List (DataBatch V)) (hframe : s.currentFrame = frameOf batches)
    (hset : s.frameTimestampsSet = !batches.isEmpty) :
    kept.foldl Batching.absorb s =
      { s with
        currentFrame := frameOf (batches ++ kept)
        frameTimestampsSet := !(batches ++ kept).isEmpty } := by
  induction kept generalizing s batches with
  | nil => rw [append_nil, ← hframe, ← hset, foldl_nil]
  | cons b kept ih =>
    have habsorb : s.absorb b =
        { s with currentFrame := frameOf (batches ++ [b]), frameTimestampsSet := true } := by
      rw [Batching.absorb, frameOf_concat, hframe, hset]
      cases batches <;> rfl
    rw [foldl_cons, habsorb, ih (batches ++ [b]) rfl (by simp), append_assoc,
      singleton_append]

theorem Batching.Holds.flush (h : s.Holds opened) :
    (s.flushCurrentFrame busBatchSize true).pushed =
      s.pushed ++ groups busBatchSize s.frames
        ((groups perPvBatchSize opened []).map fun g => frameOf g.flatten) := by
  cases opened with
  | nil =>
    have hclose : s.closeFrame = s := if_pos h.colsInCurrentFrame
    rw [flushCurrentFrame, if_neg (by simp), if_pos (.inl rfl), hclose, push, groups, map_nil,
      groups_nil]
    by_cases hframes : s.frames = [] <;> simp [hframes]
  | cons g opened =>
    have hcols : s.colsInCurrentFrame ≠ 0 := by simp [h.colsInCurrentFrame]
    rw [flushCurrentFrame, if_neg (by simp), if_pos (.inl rfl), closeFrame, if_neg hcols, push,
      groups, map_singleton, groups_cons, groups_nil, groups_nil, ← h.currentFrame]
    split <;> simp_all

theorem flush_push (busBatchSize : Nat) (s : Batching V) :
    (s.flushCurrentFrame busBatchSize false).push = s.flushCurrentFrame busBatchSize true := by
  by_cases hcols : s.colsInCurrentFrame = 0
  · simp [Batching.flushCurrentFrame, Batching.closeFrame, hcols]
  · by_cases hfull : 0 < busBatchSize ∧ busBatchSize ≤ s.closeFrame.colsInBatch
    · have hframes : s.closeFrame.frames ≠ [] := by simp [Batching.closeFrame, hcols]
      simp [Batching.flushCurrentFrame, hcols, hfull, Batching.push, hframes]
    · simp [Batching.flushCurrentFrame, hcols, hfull]

theorem Batching.Holds.counted (h : s.Holds opened) (kept : List (DataBatch V)) :
    Batching.Holds { kept.foldl absorb s with colsInCurrentFrame := s.colsInCurrentFrame + 1 }
      (opened ++ [kept]) := by
  rw [absorb_all kept opened.flatten h.currentFrame h.frameTimestampsSet]
  refine ⟨?_, ?_, ?_, h.colsInBatch⟩
  · rw [flatten_append, flatten_singleton]
  · rw [flatten_append, flatten_singleton]
  · rw [length_append, length_singleton, h.colsInCurrentFrame]

theorem absorb_all_frames (kept : List (DataBatch V)) :
    (kept.foldl Batching.absorb s).frames = s.frames ∧
      (kept.foldl Batching.absorb s).pushed = s.pushed ∧
      (kept.foldl Batching.absorb s).colsInCurrentFrame = s.colsInCurrentFrame := by
  induction kept generalizing s with
  | nil => exact ⟨rfl, rfl, rfl⟩
  | cons b kept ih => exact ih

/-- A full frame goes into the batch, and a full batch onto the bus. -/
theorem Batching.Holds.flushFull (h : s.Holds opened) (hopened : opened ≠ []) :
    s.flushCurrentFrame busBatchSize false =
      if 0 < busBatchSize ∧ busBatchSize ≤ s.frames.length + 1 then
        { pushed := s.pushed ++ [s.frames ++ [frameOf opened.flatten]] }
      else
        { frames := s.frames ++ [frameOf opened.flatten]
          colsInBatch := (s.frames ++ [frameOf opened.flatten]).length
          pushed := s.pushed } := by
  have hcols : s.colsInCurrentFrame ≠ 0 := by
    rw [h.colsInCurrentFrame]
    exact fun h => hopened (length_eq_zero_iff.mp h)
  have hclose : s.closeFrame =
      { frames := s.frames ++ [frameOf opened.flatten]
        colsInBatch := s.frames.length + 1
        pushed := s.pushed } := by
    rw [closeFrame, if_neg hcols, h.currentFrame, h.colsInBatch]
  rw [flushCurrentFrame, if_neg (by simp [hcols]), hclose]
  simp [push]

/-- **The columns that contribute are taken together into frames, and the frames into batches.** -/
theorem emitColumns_flush (busBatchSize perPvBatchSize : Nat) (keep : DataBatch V → Bool)
    (columns : List (List (DataBatch V))) (h : s.Holds opened) :
    ((columns.foldl (Batching.emitColumn keep busBatchSize perPvBatchSize) s).flushCurrentFrame
        busBatchSize true).pushed =
      s.pushed ++ groups busBatchSize s.frames
        ((groups perPvBatchSize opened (contributions keep columns)).map
          fun g => frameOf g.flatten) := by
  induction columns generalizing s opened with
  | nil => exact h.flush
  | cons batches columns ih =>
    rw [foldl_cons]
    by_cases hkept : batches.filter keep = []
    · have hcontributions : contributions keep (batches :: columns) = contributions keep columns := by
        simp [contributions, hkept]
      have hemit : s.emitColumn keep busBatchSize perPvBatchSize batches = s := by
        rw [Batching.emitColumn, if_pos (List.isEmpty_iff.mpr hkept)]
      rw [hemit, hcontributions, ih h]
    · have hcontributions : contributions keep (batches :: columns) =
          batches.filter keep :: contributions keep columns := by
        simp [contributions, hkept]
      obtain ⟨hframes, hpushed, hcols⟩ := absorb_all_frames (s := s) (batches.filter keep)
      have hcounted := h.counted (batches.filter keep)
      rw [hcontributions, groups_cons, Batching.emitColumn,
        if_neg (mt List.isEmpty_iff.mp hkept)]
      simp only [hcols, h.colsInCurrentFrame]
      rw [h.colsInCurrentFrame] at hcounted
      by_cases hfull : 0 < perPvBatchSize ∧ perPvBatchSize ≤ opened.length + 1
      · rw [if_pos hfull, if_pos hfull, hcounted.flushFull (by simp), map_cons, groups_cons]
        simp only [hframes, hpushed]
        by_cases hbatch : 0 < busBatchSize ∧ busBatchSize ≤ s.frames.length + 1
        · rw [if_pos hbatch, if_pos hbatch]
          refine (ih (holds_empty [] _)).trans ?_
          rw [append_assoc, singleton_append]
        · rw [if_neg hbatch, if_neg hbatch, ih (holds_empty _ _)]
      · rw [if_neg hfull, if_neg hfull, ih hcounted]
        simp only [hframes, hpushed]

end MldpDriver.Reader
