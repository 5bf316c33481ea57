/-
# The windows of a window subquery

`extractNormalizedWindowsImpl` reads the two columns of a window subquery's batches as intervals of
nanoseconds, sorts them and merges those that overlap or touch.  Signed overflow in C++ is
undefined, so an addition that leaves `int64_t` makes the pass fail.  -/
import MldpDriver.Lib.IntervalMerge
import MldpDriver.Lib.Loop
import MldpDriver.Query.ExpressionEvaluator
import MldpDriver.Query.WindowFlat

namespace MldpDriver.Query.Windows

open Evaluator (Scalar ArrowType Column Batch)
open Lib.IntervalMerge
open Lib.Loop

variable {ρ : Type}

/-! ## 1. Reading the rows -/

/-- The value of a valid timestamp. -/
def instant : Scalar → Option Int
  | .timestamp _ value => some value
  | _ => none

def timestampScalarValue (scalar : Scalar) (endpoint : String) : Except String Int :=
  match instant scalar with
  | some value => .ok value
  | none =>
    .error ("MLDP time-series window subquery requires a non-null timestamp at " ++ endpoint)

/-- `type_id() == arrow::Type::TIMESTAMP` -/
def isTimestamp : ArrowType → Bool
  | .timestamp _ => true
  | _ => false

/-- The body of the row loop. -/
def readWindow (time stop : Scalar) : Except String Window := do
  let beginNs ← timestampScalarValue time "position 1"
  let endNs ← timestampScalarValue stop "position 2"
  if endNs < beginNs then
    .error "MLDP time-series window subquery returned an end timestamp before its start timestamp"
  else .ok (beginNs, endNs)

/-- The body of the batch loop; a batch without rows holds no window, whatever its columns. -/
def readBatch (batch : Batch ρ) : Except String (List Window) :=
  if batch.rows.isEmpty then .ok []
  else
    match batch.columns with
    | [time, stop] =>
      if isTimestamp time.type && isTimestamp stop.type then
        batch.rows.mapM fun row => readWindow (time.read row) (stop.read row)
      else
        .error "MLDP time-series window subquery must return exactly two timestamp columns"
    | _ => .error "MLDP time-series window subquery must return exactly two timestamp columns"

def readWindows (batches : List (Batch ρ)) : Except String (List Window) :=
  (batches.mapM readBatch).map List.flatten

/-! ## 2. Sorting and merging -/

/-- `operator<` of pairs, or equal. -/
def pairLe (v w : Window) : Bool := decide (v.1 < w.1) || (decide (v.1 = w.1) && decide (v.2 ≤ w.2))

/-- `std::sort`; all sorts by a total order have one result. -/
def sortWindows (windows : List Window) : List Window := windows.mergeSort pairLe

/-- `back.second + (back.second != max)` -/
def pastEnd (back : Window) : Option Int := checked (back.2 + if back.2 ≠ int64Max then 1 else 0)

/-- The merging loop over the sorted windows. -/
def normalizeLoop : List Window → List Window → Option (List Window)
  | normalized, [] => some normalized
  | normalized, window :: rest =>
    match normalized.getLast? with
    | none => normalizeLoop (normalized ++ [window]) rest
    | some back => do
      let past ← pastEnd back
      if past < window.1 then normalizeLoop (normalized ++ [window]) rest
      else normalizeLoop (normalized.dropLast ++ [(back.1, max back.2 window.2)]) rest

/-- `extractNormalizedWindowsImpl`: an error, an overflow, or the windows. -/
def extractNormalizedWindows (batches : List (Batch ρ)) : Except String (Option (List Window)) := do
  let windows ← readWindows batches
  .ok (normalizeLoop [] (sortWindows windows))

/-! ## 3. The rows -/

/-- A row of the subquery, as its two endpoints. -/
abbrev WindowRow := Scalar × Scalar

/-- The rows of a batch with two columns. -/
def batchRows (batch : Batch ρ) : List WindowRow :=
  match batch.columns with
  | [time, stop] => batch.rows.map fun row => (time.read row, stop.read row)
  | _ => []

def windowRows (batches : List (Batch ρ)) : List WindowRow := batches.flatMap batchRows

/-- An endpoint is null or no timestamp, or the end precedes the start. -/
def BadRow (row : WindowRow) : Prop :=
  instant row.1 = none ∨ instant row.2 = none ∨
    ∃ start stop, instant row.1 = some start ∧ instant row.2 = some stop ∧ stop < start

/-- The nanosecond lies in the window of the row. -/
def RowHas (row : WindowRow) (t : Int) : Prop :=
  ∃ start stop, instant row.1 = some start ∧ instant row.2 = some stop ∧ start ≤ t ∧ t ≤ stop

/-- The timestamps of the row are of type `int64_t`. -/
def RowInRange (row : WindowRow) : Prop :=
  ∀ value, instant row.1 = some value ∨ instant row.2 = some value →
    int64Min ≤ value ∧ value ≤ int64Max

/-- The window of a row that is not bad. -/
def rowWindow (row : WindowRow) : Window := ((instant row.1).getD 0, (instant row.2).getD 0)

theorem readWindow_outcome (row : WindowRow) :
    Outcome (readWindow row.1 row.2) (fun w => w = rowWindow row ∧ ¬ BadRow row) (BadRow row) := by
  unfold readWindow timestampScalarValue
  cases hstart : instant row.1 with
  | none => exact .error (.inl hstart)
  | some start =>
    cases hstop : instant row.2 with
    | none => exact .error (.inr (.inl hstop))
    | some stop =>
      by_cases hlt : stop < start
      · simp only [bind, Except.bind, if_pos hlt]
        exact .error (.inr (.inr ⟨start, stop, hstart, hstop, hlt⟩))
      · simp only [bind, Except.bind, if_neg hlt]
        refine .ok ⟨by simp [rowWindow, hstart, hstop], ?_⟩
        rintro (h | h | ⟨a, b, ha, hb, hab⟩)
        · simp [hstart] at h
        · simp [hstop] at h
        · rw [hstart] at ha
          rw [hstop] at hb
          cases ha
          cases hb
          exact hlt hab

theorem instant_eq_none_of_type (column : Column ρ) (row : ρ)
    (h : ¬ isTimestamp column.type = true) : instant (column.read row) = none := by
  cases hread : column.read row with
  | timestamp unit value =>
    have := column.typed row
    rw [hread, Scalar.type] at this
    rw [← this] at h
    exact absurd rfl h
  | _ => rfl

/-- **A batch is read row by row**: where it has a bad row, it throws. -/
theorem readBatch_outcome {batch : Batch ρ} (htwo : batch.columns.length = 2) :
    Outcome (readBatch batch)
      (fun ws => ws = (batchRows batch).map rowWindow ∧ ¬ ∃ row ∈ batchRows batch, BadRow row)
      (∃ row ∈ batchRows batch, BadRow row) := by
  obtain ⟨time, stop, hcolumns⟩ := List.length_eq_two.mp htwo
  unfold readBatch batchRows
  rw [hcolumns]
  cases hrows : batch.rows with
  | nil => exact .ok ⟨rfl, by simp⟩
  | cons row rest =>
    simp only [List.isEmpty_cons, Bool.false_eq_true, if_false]
    split
    · refine (mapM_outcome fun row _ =>
        readWindow_outcome (time.read row, stop.read row)).mono ?_ ?_
      · rintro ws ⟨rfl, hgood⟩
        refine ⟨by rw [List.map_map]; rfl, ?_⟩
        rintro ⟨_, hmem, hbad⟩
        obtain ⟨row, hrow, rfl⟩ := List.mem_map.mp hmem
        exact hgood row hrow hbad
      · rintro ⟨row, hrow, hbad⟩
        exact ⟨_, List.mem_map_of_mem hrow, hbad⟩
    -- the batch has a row, and one of its endpoints is no timestamp
    · next htype =>
      refine .error ⟨_, List.mem_map_of_mem List.mem_cons_self, ?_⟩
      rw [Bool.and_eq_true, not_and_or] at htype
      rcases htype with h | h
      · exact .inl (instant_eq_none_of_type time row h)
      · exact .inr (.inl (instant_eq_none_of_type stop row h))

theorem readWindows_outcome {batches : List (Batch ρ)}
    (htwo : ∀ batch ∈ batches, batch.columns.length = 2) :
    Outcome (readWindows batches)
      (fun ws => ws = (windowRows batches).map rowWindow ∧ ∀ row ∈ windowRows batches, ¬ BadRow row)
      (∃ row ∈ windowRows batches, BadRow row) := by
  rcases mapM_outcome fun batch hb => readBatch_outcome (htwo batch hb) with
    ⟨wss, hwss, rfl, hgood⟩ | ⟨⟨e, he⟩, batch, hb, row, hrow, hbad⟩
  · rw [readWindows, hwss]
    refine .ok ⟨?_, fun row hrow hbad => ?_⟩
    · rw [windowRows, List.map_flatMap, List.flatMap_def]
    · obtain ⟨batch, hb, hrow⟩ := List.mem_flatMap.mp hrow
      exact hgood batch hb ⟨row, hrow, hbad⟩
  · rw [readWindows, he]
    exact .error ⟨row, List.mem_flatMap.mpr ⟨batch, hb, hrow⟩, hbad⟩

/-! ## 4. The pass is the merge -/

/-- The ends are of type `int64_t`. -/
def InRange (ns : Int) : Prop := int64Min ≤ ns ∧ ns ≤ int64Max

/-- A window of the rows: both ends in range, and in order. -/
def Typed (w : Window) : Prop := InRange w.1 ∧ InRange w.2 ∧ w.1 ≤ w.2

theorem pastEnd_eq {back : Window} (h : InRange back.2) :
    pastEnd back = some (back.2 + if back.2 ≠ int64Max then 1 else 0) := by
  obtain ⟨hlo, hhi⟩ := h
  refine checked_eq ?_ ?_ <;> split <;> omega

/-- Nothing begins after the largest instant, so the test without the overflow is `Apart`. -/
theorem past_lt_iff {back w : Window} (hback : InRange back.2) (hw : InRange w.1) :
    (back.2 + if back.2 ≠ int64Max then 1 else 0) < w.1 ↔ Apart back w := by
  have hback := hback.2
  have hw := hw.2
  unfold Apart
  split <;> omega

theorem Typed.join {back w : Window} (hback : Typed back) (hw : Typed w) : Typed (joined back w) := by
  obtain ⟨hstart, hend, hle⟩ := hback
  refine ⟨hstart, ?_, hle.trans (le_max_left _ _)⟩
  rcases max_choice back.2 w.2 with h | h
  · rw [joined, h]
    exact hend
  · rw [joined, h]
    exact hw.2.1

/-- **The loop never overflows, and is the merge.** -/
theorem normalizeLoop_eq (init : List Window) (back : Window) (ws : List Window)
    (h : ∀ w ∈ back :: ws, Typed w) :
    normalizeLoop (init ++ [back]) ws = some (init ++ mergeFrom back ws) := by
  induction ws generalizing init back with
  | nil => rw [normalizeLoop, mergeFrom]
  | cons w rest ih =>
    have hback := h back List.mem_cons_self
    have hw := h w (by simp)
    have hrest : ∀ v ∈ rest, Typed v := fun v hv => h v (by simp [hv])
    rw [normalizeLoop, List.getLast?_concat, mergeFrom]
    simp only [pastEnd_eq hback.2.1, Option.bind_eq_bind, Option.bind_some,
      past_lt_iff hback.2.1 hw.1, List.dropLast_concat]
    split
    · rw [ih (init ++ [back]) w (List.forall_mem_cons.mpr ⟨hw, hrest⟩), List.append_assoc,
        List.singleton_append]
    · exact ih init (joined back w) (List.forall_mem_cons.mpr ⟨hback.join hw, hrest⟩)

theorem normalizeLoop_eq_merge {ws : List Window} (h : ∀ w ∈ ws, Typed w) :
    normalizeLoop [] ws = some (merge ws) := by
  cases ws with
  | nil => rfl
  | cons w rest => exact normalizeLoop_eq [] w rest h

theorem pairLe_iff {v w : Window} : pairLe v w = true ↔ v.1 < w.1 ∨ v.1 = w.1 ∧ v.2 ≤ w.2 := by
  simp [pairLe]

theorem sortWindows_starts (ws : List Window) :
    (sortWindows ws).Pairwise fun v w => v.1 ≤ w.1 := by
  have hsorted : (sortWindows ws).Pairwise (pairLe · ·) := by
    refine List.pairwise_mergeSort (fun u v w huv hvw => ?_) (fun v w => ?_) ws
    · rw [pairLe_iff] at huv hvw ⊢
      omega
    · rw [Bool.or_eq_true, pairLe_iff, pairLe_iff]
      omega
  refine hsorted.imp fun h => ?_
  rcases pairLe_iff.mp h with h | ⟨h, -⟩
  · exact h.le
  · exact h.le

theorem mem_sortWindows {ws : List Window} {w : Window} : w ∈ sortWindows ws ↔ w ∈ ws :=
  (List.mergeSort_perm ws _).mem_iff

/-! ## 5. The result

`extractNormalizedWindows_normalized`: the result is what the window scans ask of their windows. -/

theorem rowWindow_typed {row : WindowRow} (hgood : ¬ BadRow row) (hrange : RowInRange row) :
    Typed (rowWindow row) := by
  cases hstart : instant row.1 with
  | none => exact absurd (.inl hstart) hgood
  | some start =>
    cases hstop : instant row.2 with
    | none => exact absurd (.inr (.inl hstop)) hgood
    | some stop =>
      have hle : start ≤ stop := not_lt.mp fun hlt =>
        hgood (.inr (.inr ⟨start, stop, hstart, hstop, hlt⟩))
      simp only [Typed, rowWindow, hstart, hstop, Option.getD_some]
      exact ⟨hrange start (.inl hstart), hrange stop (.inr hstop), hle⟩

theorem rowWindow_has {row : WindowRow} (hgood : ¬ BadRow row) {t : Int} :
    Interval.Has (rowWindow row) t ↔ RowHas row t := by
  cases hstart : instant row.1 with
  | none => exact absurd (.inl hstart) hgood
  | some start =>
    cases hstop : instant row.2 with
    | none => exact absurd (.inr (.inl hstop)) hgood
    | some stop => simp [Interval.Has, rowWindow, RowHas, hstart, hstop]

section Result

variable {batches : List (Batch ρ)} (htwo : ∀ batch ∈ batches, batch.columns.length = 2)
  (hrange : ∀ row ∈ windowRows batches, RowInRange row)

/-- What the pass sorts. -/
def rowWindows (batches : List (Batch ρ)) : List Window :=
  sortWindows ((windowRows batches).map rowWindow)

include hrange in
theorem rowWindows_typed (hgood : ∀ row ∈ windowRows batches, ¬ BadRow row) :
    ∀ w ∈ rowWindows batches, Typed w := by
  intro w hw
  obtain ⟨row, hrow, rfl⟩ := List.mem_map.mp (mem_sortWindows.mp hw)
  exact rowWindow_typed (hgood row hrow) (hrange row hrow)

include hrange in
theorem rowWindows_ordered (hgood : ∀ row ∈ windowRows batches, ¬ BadRow row) :
    Ordered (rowWindows batches) :=
  ⟨sortWindows_starts _, fun w hw => (rowWindows_typed hrange hgood w hw).2.2⟩

theorem rowWindows_covered (hgood : ∀ row ∈ windowRows batches, ¬ BadRow row) {t : Int} :
    Covered (rowWindows batches) t ↔ ∃ row ∈ windowRows batches, RowHas row t := by
  rw [rowWindows, covered_congr fun v => mem_sortWindows]
  simp only [Covered, List.mem_map, exists_exists_and_eq_and]
  refine exists_congr fun row => and_congr_right fun hrow => rowWindow_has (hgood row hrow)

include htwo hrange in
/-- **The pass throws on a bad row, and otherwise merges the windows of the rows.** -/
theorem extractNormalizedWindows_outcome :
    Outcome (extractNormalizedWindows batches)
      (fun out => out = some (merge (rowWindows batches)) ∧ ∀ row ∈ windowRows batches, ¬ BadRow row)
      (∃ row ∈ windowRows batches, BadRow row) := by
  refine (readWindows_outcome htwo).bind ?_
  rintro ws ⟨rfl, hgood⟩
  exact .ok ⟨normalizeLoop_eq_merge (rowWindows_typed hrange hgood), hgood⟩

include htwo hrange in
/-- **The windows the scans are given are normalised.** -/
theorem extractNormalizedWindows_normalized {windows : List Window}
    (h : extractNormalizedWindows batches = .ok (some windows)) : Normalized windows := by
  rcases extractNormalizedWindows_outcome htwo hrange with ⟨out, hout, rfl, hgood⟩ | ⟨⟨e, he⟩, -⟩
  · rw [h] at hout
    obtain rfl : windows = merge (rowWindows batches) := by simpa using hout
    refine ⟨fun w hw => ?_, ?_⟩
    · have := bounds_merge (rowWindows_typed hrange hgood) w hw
      exact ⟨this.1.1, this.2.2, this.2.1.2⟩
    · refine (separated_merge (rowWindows_ordered hrange hgood)).imp fun hapart => ?_
      unfold Apart at hapart
      omega
  · rw [he] at h
    cases h

/-- **Normalised windows.**  The pass throws exactly when a row has an endpoint that is null or no
timestamp, or an end before its start; otherwise it returns windows sorted by start, between any two
of which lies a nanosecond of neither, and they cover the nanoseconds of the rows. -/
theorem extractNormalizedWindows_spec (batches : List (Batch ρ))
    (htwo : ∀ batch ∈ batches, batch.columns.length = 2)
    (hrange : ∀ row ∈ windowRows batches, RowInRange row) :
    ((∃ e, extractNormalizedWindows batches = .error e) ↔ ∃ row ∈ windowRows batches, BadRow row) ∧
      ((∀ row ∈ windowRows batches, ¬ BadRow row) → ∃ windows,
        extractNormalizedWindows batches = .ok (some windows) ∧
          windows.Pairwise (fun v w => v.1 < w.1) ∧ windows.Pairwise Apart ∧
          ∀ t, Covered windows t ↔ ∃ row ∈ windowRows batches, RowHas row t) := by
  have houtcome := extractNormalizedWindows_outcome htwo hrange
  refine ⟨houtcome.error_iff fun out hout ⟨row, hrow, hbad⟩ => hout.2 row hrow hbad, fun hgood => ?_⟩
  rcases houtcome with ⟨out, hout, rfl, -⟩ | ⟨-, row, hrow, hbad⟩
  · have hordered := rowWindows_ordered hrange hgood
    have hapart := separated_merge hordered
    refine ⟨_, hout, ?_, hapart, fun t => ?_⟩
    · refine hapart.imp_of_mem fun hv _ h => ?_
      have := (bounds_merge (rowWindows_typed hrange hgood) _ hv).2.2
      unfold Apart at h
      omega
    · rw [covered_merge hordered, rowWindows_covered hgood]
  · exact absurd hbad (hgood row hrow)

end Result

/-- A batch of rows with two timestamps. -/
def spanBatch (rows : List (Int × Int)) : Batch (Int × Int) where
  columns := [⟨"start", .timestamp .nano, fun row => .timestamp .nano row.1, fun _ => rfl⟩,
    ⟨"stop", .timestamp .nano, fun row => .timestamp .nano row.2, fun _ => rfl⟩]
  rows := rows

theorem extractNormalizedWindows_spec_top :
    (∀ batch ∈ [spanBatch [(5, 9), (1, 4)], spanBatch [(20, 2 ^ 63 - 1), (2 ^ 63 - 1, 2 ^ 63 - 1)]],
      batch.columns.length = 2) ∧
    ∃ windows, extractNormalizedWindows
        [spanBatch [(5, 9), (1, 4)], spanBatch [(20, 2 ^ 63 - 1), (2 ^ 63 - 1, 2 ^ 63 - 1)]] =
          .ok (some windows) ∧ windows.Pairwise Apart := by
  have htwo : ∀ batch ∈ [spanBatch [(5, 9), (1, 4)],
      spanBatch [(20, 2 ^ 63 - 1), (2 ^ 63 - 1, 2 ^ 63 - 1)]], batch.columns.length = 2 := by
    simp [spanBatch]
  refine ⟨htwo, ?_⟩
  obtain ⟨windows, hwindows, -, hapart, -⟩ :=
    (extractNormalizedWindows_spec _ htwo (by
      simp [windowRows, batchRows, spanBatch, RowInRange, instant, int64Min, int64Max]
      refine ⟨?_, ?_, ?_⟩ <;> intro value h <;> omega)).2 (by
      simp [windowRows, batchRows, spanBatch, BadRow, instant])
  exact ⟨windows, hwindows, hapart⟩

end MldpDriver.Query.Windows
