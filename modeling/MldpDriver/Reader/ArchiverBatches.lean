/-
# The batches of a historical fetch

In `historical_once` mode a worker fetches the PVs of its queue one after another.  Samples are
collected in a pending batch, which is pushed when it is full, before a sample that is too far from
its first one, and at the end of the fetch: `cuts` says where a sequence of samples is cut, and
`historicalOnce_pushed` that the run pushes one batch for each group of samples.
-/
import Mathlib.Data.List.Induction
import MldpDriver.Lib.Loop
import MldpDriver.Reader.ArchiverConversion
import MldpDriver.Reader.ArchiverDecode
import MldpDriver.Reader.TableBatching

namespace MldpDriver.Reader.Archiver

open Bus Lib.Directory Lib.Lines Lib.Loop List

variable {H V : Type}

/-! ## 1. The run of a worker -/

/-- A PV of the queue, with what its request gets. -/
structure PvFetch where
  pv : String
  pieces : List (List UInt8)
  response : Except String Nat

/-- `runWorker` in mode `HistoricalOnce`; while the reader runs no fetch throws out of it. -/
def runHistoricalOnce (pb : Protobuf H V) (cfg : ReaderConfig) (batchFlushIntervalMs : Nat)
    (w : Worker H V) (queue : List PvFetch) : Except (Worker H V × String) (Worker H V) := do
  let w ← if w.running then queue.foldlM (fun w f => fetchPvSafely pb cfg f.pv w f.pieces f.response) w
    else .ok w
  .ok (if w.running && decide (0 < batchFlushIntervalMs) then flushAllPendingBatches w else w)

/-! ## 2. What a batch holds -/

def size : ColumnValues V → Nat
  | .scalar _ values => values.length
  | .bytes values => values.length
  | .array _ values => values.length

/-- One value alone. -/
def pick (i : Nat) : ColumnValues V → ColumnValues V
  | .scalar kind values => .scalar kind values[i]?.toList
  | .bytes values => .bytes values[i]?.toList
  | .array kind values => .array kind values[i]?.toList

/-- The type without the values. -/
def bare : ColumnValues V → ColumnValues V
  | .scalar kind _ => .scalar kind []
  | .bytes _ => .bytes []
  | .array kind _ => .array kind []

def pickColumn (i : Nat) (c : DataColumn V) : DataColumn V := { c with values := pick i c.values }

def bareColumn (c : DataColumn V) : DataColumn V := { c with values := bare c.values }

def pickEnum (i : Nat) (c : EnumDataColumn) : EnumDataColumn := { c with values := c.values[i]?.toList }

def bareEnum (c : EnumDataColumn) : EnumDataColumn := { c with values := [] }

/-- A timestamp with its columns. -/
abbrev Content (V : Type) := TimestampEntry × List (DataColumn V) × List EnumDataColumn

/-- The samples of a batch: the values of the columns at each timestamp. -/
def samplesIn (batch : DataBatch V) : List (Content V) :=
  batch.timestamps.zipIdx.map fun t =>
    (t.1, batch.columns.map (pickColumn t.2), batch.enumColumns.map (pickEnum t.2))

/-- Every column has one value for each timestamp. -/
structure Even (batch : DataBatch V) : Prop where
  columns : ∀ c ∈ batch.columns, size c.values = batch.timestamps.length
  enumColumns : ∀ c ∈ batch.enumColumns, c.values.length = batch.timestamps.length

def ParsedSample.content (p : ParsedSample V) : Content V := (p.timestamp, p.columns, p.enumColumns)

def nanosOf (t : TimestampEntry) : Nat := t.epochSeconds * 1000000000 + t.nanoseconds

/-- **The batches are the samples**: in order, within the limits, one value for each timestamp.
The span is between any two samples of a batch, whichever comes first. -/
structure Delivered (cfg : ReaderConfig) (samples : List (ParsedSample V))
    (batches : List (DataBatch V)) : Prop where
  samples : batches.flatMap samplesIn = samples.map ParsedSample.content
  limit : 0 < cfg.pvSamplesPerBatch →
    ∀ batch ∈ batches, batch.timestamps.length ≤ cfg.pvSamplesPerBatch
  span : ∀ batch ∈ batches, ∀ s ∈ batch.timestamps, ∀ t ∈ batch.timestamps,
    nanosOf t < nanosOf s + cfg.maxBatchSpanSec * 1000000000
  even : ∀ batch ∈ batches, Even batch

/-! ## 3. Where samples are cut -/

/-- A sample is too far from the first one of its group. -/
def tooFar (cfg : ReaderConfig) (group : List (ParsedSample V)) (p : ParsedSample V) : Bool :=
  match group with
  | first :: _ =>
    decide (cfg.maxBatchSpanSec * 1000000000 % 2 ^ 64 ≤
      spanNanos first.timestamp p.epochSeconds p.nanoseconds)
  | [] => false

/-- A sample more: the groups that end with it, and the open one. -/
def place (cfg : ReaderConfig) (group : List (ParsedSample V)) (p : ParsedSample V) :
    List (List (ParsedSample V)) × List (ParsedSample V) :=
  let ended := if tooFar cfg group p then [group] else []
  let group := if tooFar cfg group p then [p] else group ++ [p]
  if cfg.pvSamplesPerBatch ≤ group.length then (ended ++ [group], []) else (ended, group)

def cuts (cfg : ReaderConfig) : List (ParsedSample V) → List (ParsedSample V) →
    List (List (ParsedSample V))
  | group, [] => if group.isEmpty then [] else [group]
  | group, p :: samples => (place cfg group p).1 ++ cuts cfg (place cfg group p).2 samples

/-- The groups of samples that are pushed together; without a batch size each is on its own. -/
def groups (cfg : ReaderConfig) (samples : List (ParsedSample V)) : List (List (ParsedSample V)) :=
  if 0 < cfg.pvSamplesPerBatch then cuts cfg [] samples else samples.map fun p => [p]

/-- **What must hold of a group**: each sample has one value, the columns have the same names and
types, no sample is as far from the first as the span (the check is done in 64 bits), and none
before the first is so far from another. -/
structure Sound (cfg : ReaderConfig) (group : List (ParsedSample V)) : Prop where
  single : ∀ p ∈ group, Even p.batch
  alike : ∀ p ∈ group, ∀ q ∈ group, p.columns.map bareColumn = q.columns.map bareColumn ∧
    p.enumColumns.map bareEnum = q.enumColumns.map bareEnum
  near : ∀ first ∈ group.head?, ∀ p ∈ group,
    nanosOf p.timestamp < nanosOf first.timestamp + cfg.maxBatchSpanSec * 1000000000 ∧
      nanosOf first.timestamp < nanosOf p.timestamp + cfg.maxBatchSpanSec * 1000000000
  late : ∀ first ∈ group.head?, ∀ p ∈ group, nanosOf p.timestamp < nanosOf first.timestamp →
    ∀ q ∈ group, nanosOf q.timestamp < nanosOf p.timestamp + cfg.maxBatchSpanSec * 1000000000

/-- The batch of a group. -/
def assemble (group : List (ParsedSample V)) : DataBatch V :=
  group.foldl (fun batch p => appendToBatch batch p.batch) { timestamps := [] }

/-! ## 4. Appending values -/

/-- Columns that are appended to one by one, value after value. -/
structure Series (C : Type) where
  append : C → C → C
  appendAll : List C → List C → List C
  bare : C → C
  size : C → Nat
  pick : Nat → C → C
  appendAll_nil : appendAll [] [] = []
  appendAll_cons : ∀ d dst s src, appendAll (d :: dst) (s :: src) = append d s :: appendAll dst src
  bare_append : ∀ {d s}, bare d = bare s → bare (append d s) = bare d
  size_append : ∀ {d s}, bare d = bare s → size (append d s) = size d + size s
  pick_left : ∀ {d s i}, bare d = bare s → i < size d → pick i (append d s) = pick i d
  pick_right : ∀ {d s}, bare d = bare s → size s = 1 → pick (size d) (append d s) = s
  pick_single : ∀ {d}, size d = 1 → pick 0 d = d
  bare_pick : ∀ i d, bare (pick i d) = bare d
  size_pick : ∀ {i d}, i < size d → size (pick i d) = 1

/-- **A value more for every column.** -/
theorem Series.appendAll_spec {C : Type} (S : Series C) {n : Nat} {dst src : List C}
    (hbare : dst.map S.bare = src.map S.bare) (hdst : ∀ c ∈ dst, S.size c = n)
    (hsrc : ∀ c ∈ src, S.size c = 1) :
    (S.appendAll dst src).map S.bare = dst.map S.bare ∧
      (∀ c ∈ S.appendAll dst src, S.size c = n + 1) ∧
      (∀ i < n, (S.appendAll dst src).map (S.pick i) = dst.map (S.pick i)) ∧
      (S.appendAll dst src).map (S.pick n) = src := by
  induction dst generalizing src with
  | nil =>
    obtain rfl := map_eq_nil_iff.mp hbare.symm
    rw [S.appendAll_nil]
    exact ⟨rfl, by simp, fun _ _ => rfl, rfl⟩
  | cons d dst ih =>
    cases src with
    | nil => cases hbare
    | cons s src =>
      obtain ⟨hhead, htail⟩ := List.cons.inj hbare
      obtain ⟨hd, hdst⟩ := forall_mem_cons.mp hdst
      obtain ⟨hs, hsrc⟩ := forall_mem_cons.mp hsrc
      obtain ⟨hbares, hsizes, hleft, hright⟩ := ih htail hdst hsrc
      rw [S.appendAll_cons]
      refine ⟨?_, forall_mem_cons.mpr ⟨?_, hsizes⟩, fun i hi => ?_, ?_⟩
      · rw [map_cons, map_cons, S.bare_append hhead, hbares]
      · rw [S.size_append hhead, hd, hs]
      · rw [map_cons, map_cons, hleft i hi, S.pick_left hhead (hd ▸ hi)]
      · rw [map_cons, hright, ← hd, S.pick_right hhead hs]

theorem Series.appendAll_or {C : Type} (S : Series C) {dst src : List C}
    (hbare : dst.map S.bare = src.map S.bare) :
    (if dst.isEmpty then src else S.appendAll dst src) = S.appendAll dst src := by
  cases dst with
  | nil =>
    obtain rfl := map_eq_nil_iff.mp hbare.symm
    exact S.appendAll_nil.symm
  | cons d dst => rfl

theorem getElem?_append_singleton {α : Type} (l : List α) (a : α) :
    (l ++ [a])[l.length]?.toList = [a] := by
  simp

theorem appendValues_spec {a b : ColumnValues V} (h : bare a = bare b) :
    bare (appendValues a b) = bare a ∧ size (appendValues a b) = size a + size b ∧
      (∀ i < size a, pick i (appendValues a b) = pick i a) ∧
      (size b = 1 → pick (size a) (appendValues a b) = b) := by
  have hsingle : ∀ {α : Type} {l : List α} (m : List α), l.length = 1 →
      (m ++ l)[m.length]?.toList = l := by
    intro α l m hl
    obtain ⟨x, rfl⟩ := length_eq_one_iff.mp hl
    exact getElem?_append_singleton m x
  cases a with
  | scalar kind values =>
    cases b with
    | scalar kind' values' =>
      obtain rfl : kind = kind' := by simpa [bare] using h
      simp only [appendValues, if_pos]
      refine ⟨rfl, length_append, fun i hi => ?_, fun hb => ?_⟩
      · rw [pick, pick, List.getElem?_append_left hi]
      · exact congrArg (ColumnValues.scalar kind) (hsingle values hb)
    | bytes => cases h
    | array => cases h
  | bytes values =>
    cases b with
    | bytes values' =>
      refine ⟨rfl, length_append, fun i hi => ?_, fun hb => ?_⟩
      · rw [appendValues, pick, pick, List.getElem?_append_left hi]
      · exact congrArg ColumnValues.bytes (hsingle values hb)
    | scalar => cases h
    | array => cases h
  | array kind values =>
    cases b with
    | array kind' values' =>
      obtain rfl : kind = kind' := by simpa [bare] using h
      simp only [appendValues, if_pos]
      refine ⟨rfl, length_append, fun i hi => ?_, fun hb => ?_⟩
      · rw [pick, pick, List.getElem?_append_left hi]
      · exact congrArg (ColumnValues.array kind) (hsingle values hb)
    | scalar => cases h
    | bytes => cases h

theorem pick_spec (a : ColumnValues V) : (∀ i, bare (pick i a) = bare a) ∧
    (∀ i < size a, size (pick i a) = 1) ∧ (size a = 1 → pick 0 a = a) := by
  have hsize : ∀ {α : Type} (l : List α) (i : Nat), i < l.length → l[i]?.toList.length = 1 := by
    intro α l i hi
    rw [List.getElem?_eq_getElem hi]
    rfl
  have hzero : ∀ {α : Type} (l : List α), l.length = 1 → l[0]?.toList = l := by
    intro α l hl
    obtain ⟨x, rfl⟩ := length_eq_one_iff.mp hl
    rfl
  cases a with
  | scalar kind values =>
    exact ⟨fun _ => rfl, hsize values, fun h => congrArg (ColumnValues.scalar kind) (hzero values h)⟩
  | bytes values =>
    exact ⟨fun _ => rfl, hsize values, fun h => congrArg ColumnValues.bytes (hzero values h)⟩
  | array kind values =>
    exact ⟨fun _ => rfl, hsize values, fun h => congrArg (ColumnValues.array kind) (hzero values h)⟩

theorem bareColumn_eq {c c' : DataColumn V} (h : bareColumn c = bareColumn c') :
    c.name = c'.name ∧ bare c.values = bare c'.values ∧ c.metadata = c'.metadata := by
  simpa [bareColumn] using h

def columnSeries (V : Type) : Series (DataColumn V) where
  append d s := { d with values := appendValues d.values s.values }
  appendAll := appendColumns
  bare := bareColumn
  size c := size c.values
  pick := pickColumn
  appendAll_nil := rfl
  appendAll_cons _ _ _ _ := rfl
  bare_append h := by
    simp only [bareColumn, (appendValues_spec (bareColumn_eq h).2.1).1]
  size_append h := (appendValues_spec (bareColumn_eq h).2.1).2.1
  pick_left h hi := by
    simp only [pickColumn, (appendValues_spec (bareColumn_eq h).2.1).2.2.1 _ hi]
  pick_right {d s} h hs := by
    obtain ⟨hname, hbare, hmetadata⟩ := bareColumn_eq h
    simp only [pickColumn, (appendValues_spec hbare).2.2.2 hs, hname, hmetadata]
  pick_single h := by simp only [pickColumn, (pick_spec _).2.2 h]
  bare_pick i d := by simp only [bareColumn, pickColumn, (pick_spec d.values).1 i]
  size_pick h := (pick_spec _).2.1 _ h

def enumSeries : Series EnumDataColumn where
  append d s := { d with values := d.values ++ s.values }
  appendAll := appendEnumColumns
  bare := bareEnum
  size c := c.values.length
  pick := pickEnum
  appendAll_nil := rfl
  appendAll_cons _ _ _ _ := rfl
  bare_append _ := rfl
  size_append _ := length_append
  pick_left _ hi := by simp only [pickEnum, List.getElem?_append_left hi]
  pick_right {d s} h hs := by
    obtain ⟨hname, hid⟩ : d.name = s.name ∧ d.enumId = s.enumId := by simpa [bareEnum] using h
    obtain ⟨x, hx⟩ := length_eq_one_iff.mp hs
    cases s
    cases hx
    simp only [pickEnum, getElem?_append_singleton, hname, hid]
  pick_single {d} h := by
    obtain ⟨x, hx⟩ := length_eq_one_iff.mp h
    cases d
    cases hx
    rfl
  bare_pick _ _ := rfl
  size_pick h := by
    simp only [pickEnum, List.getElem?_eq_getElem h]
    rfl

/-! ## 5. The batch of a group -/

/-- The columns have the same names and types. -/
def Alike (columns columns' : List (DataColumn V)) (enums enums' : List EnumDataColumn) : Prop :=
  columns.map bareColumn = columns'.map bareColumn ∧ enums.map bareEnum = enums'.map bareEnum

theorem assemble_snoc (group : List (ParsedSample V)) (p : ParsedSample V) :
    assemble (group ++ [p]) = appendToBatch (assemble group) p.batch := by
  rw [assemble, foldl_append]
  rfl

theorem assemble_single (p : ParsedSample V) : assemble [p] = p.batch := rfl

theorem assemble_timestamps (group : List (ParsedSample V)) :
    (assemble group).timestamps = group.map ParsedSample.timestamp := by
  induction group using List.reverseRecOn with
  | nil => rfl
  | append_singleton group p ih =>
    rw [assemble_snoc, appendToBatch, ih, map_append]
    rfl

theorem samplesIn_length (batch : DataBatch V) :
    (samplesIn batch).length = batch.timestamps.length := by
  rw [samplesIn, length_map, length_zipIdx]

/-- **A sample appended to a batch is a sample more in it.** -/
theorem appendToBatch_spec {batch : DataBatch V} {p : ParsedSample V} (hbatch : Even batch)
    (hp : Even p.batch) (h : Alike batch.columns p.columns batch.enumColumns p.enumColumns) :
    samplesIn (appendToBatch batch p.batch) = samplesIn batch ++ [p.content] ∧
      Even (appendToBatch batch p.batch) ∧
      Alike (appendToBatch batch p.batch).columns p.columns (appendToBatch batch p.batch).enumColumns
        p.enumColumns := by
  obtain ⟨hcolumns, henums⟩ := h
  obtain ⟨hbare, hsize, hleft, hright⟩ :=
    (columnSeries V).appendAll_spec hcolumns hbatch.columns hp.columns
  obtain ⟨hbare', hsize', hleft', hright'⟩ :=
    enumSeries.appendAll_spec henums hbatch.enumColumns hp.enumColumns
  have hc : (appendToBatch batch p.batch).columns = appendColumns batch.columns p.columns :=
    (columnSeries V).appendAll_or hcolumns
  have he : (appendToBatch batch p.batch).enumColumns =
      appendEnumColumns batch.enumColumns p.enumColumns := enumSeries.appendAll_or henums
  have ht : (appendToBatch batch p.batch).timestamps = batch.timestamps ++ [p.timestamp] := rfl
  refine ⟨?_, ⟨?_, ?_⟩, ?_, ?_⟩
  · rw [samplesIn, ht, hc, he, zipIdx_append, map_append, samplesIn]
    refine congrArg₂ (· ++ ·) (map_congr_left fun t hmem => ?_) ?_
    · have hlt : t.2 < batch.timestamps.length := by
        have := snd_lt_of_mem_zipIdx hmem
        omega
      exact congrArg₂ (fun columns enums => (t.1, columns, enums)) (hleft _ hlt) (hleft' _ hlt)
    · rw [zipIdx_singleton, map_singleton, Nat.zero_add]
      exact congrArg₂ (fun columns enums => [(p.timestamp, columns, enums)]) hright hright'
  · rw [hc, ht, length_append]
    exact hsize
  · rw [he, ht, length_append]
    exact hsize'
  · rw [hc]
    exact hbare.trans hcolumns
  · rw [he]
    exact hbare'.trans henums

theorem content_single {p : ParsedSample V} (h : Even p.batch) : samplesIn p.batch = [p.content] := by
  have hcolumns : p.columns.map (pickColumn 0) = p.columns := by
    refine (map_congr_left fun c hc => ?_).trans (map_id _)
    exact (columnSeries V).pick_single (h.columns c hc)
  have henums : p.enumColumns.map (pickEnum 0) = p.enumColumns := by
    refine (map_congr_left fun c hc => ?_).trans (map_id _)
    exact enumSeries.pick_single (h.enumColumns c hc)
  exact congrArg₂ (fun columns enums => [(p.timestamp, columns, enums)]) hcolumns henums

variable {group : List (ParsedSample V)}

theorem assemble_spec (hne : group ≠ []) (hsingle : ∀ p ∈ group, Even p.batch)
    (halike : ∀ p ∈ group, ∀ q ∈ group, Alike p.columns q.columns p.enumColumns q.enumColumns) :
    samplesIn (assemble group) = group.map ParsedSample.content ∧ Even (assemble group) := by
  suffices h : samplesIn (assemble group) = group.map ParsedSample.content ∧ Even (assemble group) ∧
      ∀ p ∈ group, Alike (assemble group).columns p.columns (assemble group).enumColumns
        p.enumColumns from ⟨h.1, h.2.1⟩
  induction group using List.reverseRecOn with
  | nil => exact absurd rfl hne
  | append_singleton group p ih =>
    rcases group.eq_nil_or_concat with rfl | ⟨front, last, hgroup⟩
    · have hp := hsingle p (by simp)
      rw [nil_append, assemble_single]
      refine ⟨content_single hp, hp, fun q hq => ?_⟩
      obtain rfl := mem_singleton.mp hq
      exact ⟨rfl, rfl⟩
    · have hlast : last ∈ group := by simp [hgroup]
      have hne' : group ≠ [] := ne_nil_of_mem hlast
      obtain ⟨hsamples, heven, hall⟩ := ih hne' (fun q hq => hsingle q (by simp [hq]))
        fun q hq r hr => halike q (by simp [hq]) r (by simp [hr])
      obtain ⟨hlc, hle⟩ := hall last hlast
      obtain ⟨hpc, hpe⟩ := halike last (by simp [hlast]) p (by simp)
      obtain ⟨hsamples', heven', hac, hae⟩ := appendToBatch_spec heven (hsingle p (by simp))
        ⟨hlc.trans hpc, hle.trans hpe⟩
      rw [assemble_snoc]
      refine ⟨?_, heven', fun q hq => ?_⟩
      · rw [hsamples', hsamples, map_append]
        rfl
      · obtain ⟨hqc, hqe⟩ := halike p (by simp) q hq
        exact ⟨hac.trans hqc, hae.trans hqe⟩

/-- **And conversely.** -/
theorem of_assemble {batch : DataBatch V}
    (hsamples : samplesIn batch = group.map ParsedSample.content) (heven : Even batch) :
    (∀ p ∈ group, Even p.batch) ∧
      ∀ p ∈ group, Alike batch.columns p.columns batch.enumColumns p.enumColumns := by
  have hpick : ∀ p ∈ group, ∃ i < batch.timestamps.length,
      p.columns = batch.columns.map (pickColumn i) ∧
        p.enumColumns = batch.enumColumns.map (pickEnum i) := by
    intro p hp
    have hmem : p.content ∈ samplesIn batch := by
      rw [hsamples]
      exact mem_map_of_mem hp
    obtain ⟨t, ht, heq⟩ := mem_map.mp hmem
    have hlt := snd_lt_of_mem_zipIdx ht
    obtain ⟨-, hrest⟩ := Prod.mk.inj heq
    obtain ⟨hcolumns, henums⟩ := Prod.mk.inj hrest
    exact ⟨t.2, by omega, hcolumns.symm, henums.symm⟩
  refine ⟨fun p hp => ?_, fun p hp => ?_⟩
  · obtain ⟨i, hi, hcolumns, henums⟩ := hpick p hp
    constructor
    · intro c hc
      obtain ⟨d, hd, rfl⟩ := mem_map.mp (hcolumns ▸ hc : c ∈ batch.columns.map (pickColumn i))
      exact (columnSeries V).size_pick (hi.trans_eq (heven.columns d hd).symm)
    · intro c hc
      obtain ⟨d, hd, rfl⟩ := mem_map.mp (henums ▸ hc : c ∈ batch.enumColumns.map (pickEnum i))
      exact enumSeries.size_pick (hi.trans_eq (heven.enumColumns d hd).symm)
  · obtain ⟨i, -, hcolumns, henums⟩ := hpick p hp
    refine ⟨?_, ?_⟩
    · rw [hcolumns, map_map]
      exact map_congr_left fun c _ => ((columnSeries V).bare_pick i c).symm
    · rw [henums, map_map]
      exact map_congr_left fun c _ => (enumSeries.bare_pick i c).symm

/-! ## 6. The groups

`delivered_iff` says when these batches are the samples: in every group the samples must have one
value each, in columns of the same names and types, and none may be so far before the first one that
the span is reached behind its back. -/

section Groups

variable (cfg : ReaderConfig)

theorem place_flatten (group : List (ParsedSample V)) (p : ParsedSample V) :
    (place cfg group p).1.flatten ++ (place cfg group p).2 = group ++ [p] := by
  unfold place
  by_cases hfar : tooFar cfg group p = true
  · simp only [if_pos hfar]
    split <;> simp
  · simp only [if_neg hfar]
    split <;> simp

theorem place_ne_nil (group : List (ParsedSample V)) (p : ParsedSample V) :
    ∀ g ∈ (place cfg group p).1, g ≠ [] := by
  unfold place
  by_cases hfar : tooFar cfg group p = true
  · have hgroup : group ≠ [] := fun hnil => by
      rw [hnil] at hfar
      cases hfar
    simp only [if_pos hfar]
    split <;> simp [hgroup]
  · simp only [if_neg hfar]
    split <;> simp

theorem place_length (hlimit : 0 < cfg.pvSamplesPerBatch) (h : group.length < cfg.pvSamplesPerBatch)
    (p : ParsedSample V) :
    (∀ g ∈ (place cfg group p).1, g.length ≤ cfg.pvSamplesPerBatch) ∧
      (place cfg group p).2.length < cfg.pvSamplesPerBatch := by
  unfold place
  by_cases hfar : tooFar cfg group p = true
  · simp only [if_pos hfar]
    split
    · refine ⟨?_, hlimit⟩
      simp only [singleton_append, forall_mem_cons, length_singleton]
      exact ⟨h.le, hlimit, forall_mem_nil _⟩
    · next hfull => exact ⟨by simpa using h.le, Nat.lt_of_not_le hfull⟩
  · simp only [if_neg hfar]
    split
    · refine ⟨?_, hlimit⟩
      simpa using Nat.succ_le_of_lt h
    · next hfull => exact ⟨by simp, Nat.lt_of_not_le hfull⟩

/-- **The groups are the samples, cut**; no group is empty or too long. -/
theorem cuts_spec (hlimit : 0 < cfg.pvSamplesPerBatch) (samples : List (ParsedSample V)) :
    ∀ {group : List (ParsedSample V)}, group.length < cfg.pvSamplesPerBatch →
      (cuts cfg group samples).flatten = group ++ samples ∧
        ∀ g ∈ cuts cfg group samples, g ≠ [] ∧ g.length ≤ cfg.pvSamplesPerBatch := by
  induction samples with
  | nil =>
    intro group h
    rw [cuts]
    cases group with
    | nil => exact ⟨rfl, by simp⟩
    | cons p group => exact ⟨by simp, by simpa using h.le⟩
  | cons p samples ih =>
    intro group h
    obtain ⟨hended, hopen⟩ := place_length cfg hlimit h p
    obtain ⟨hflatten, hall⟩ := ih hopen
    rw [cuts]
    refine ⟨?_, forall_mem_append.mpr
      ⟨fun g hg => ⟨place_ne_nil cfg group p g hg, hended g hg⟩, hall⟩⟩
    rw [flatten_append, hflatten, ← append_assoc, place_flatten, append_assoc,
      singleton_append]

theorem groups_spec (samples : List (ParsedSample V)) :
    (groups cfg samples).flatten = samples ∧ (∀ g ∈ groups cfg samples, g ≠ []) ∧
      (0 < cfg.pvSamplesPerBatch →
        ∀ g ∈ groups cfg samples, g.length ≤ cfg.pvSamplesPerBatch) := by
  unfold groups
  split
  · next hlimit =>
    obtain ⟨hflatten, hall⟩ := @cuts_spec V cfg hlimit samples [] hlimit
    exact ⟨hflatten, fun g hg => (hall g hg).1, fun _ g hg => (hall g hg).2⟩
  · next hlimit =>
    refine ⟨?_, ?_, fun h => absurd h hlimit⟩
    · rw [← flatMap_def]
      simp
    · simp

end Groups

theorem flatMap_eq_iff {α β : Type} {f g : α → List β} {l : List α}
    (h : ∀ a ∈ l, (f a).length = (g a).length) :
    l.flatMap f = l.flatMap g ↔ ∀ a ∈ l, f a = g a := by
  induction l with
  | nil => simp
  | cons a l ih =>
    obtain ⟨hhead, htail⟩ := forall_mem_cons.mp h
    rw [flatMap_cons, flatMap_cons, forall_mem_cons, ← ih htail]
    constructor
    · exact fun heq => append_inj heq hhead
    · rintro ⟨hf, hl⟩
      rw [hf, hl]

theorem span_iff {cfg : ReaderConfig} (hne : group ≠ []) :
    (∀ s ∈ (assemble group).timestamps, ∀ t ∈ (assemble group).timestamps,
        nanosOf t < nanosOf s + cfg.maxBatchSpanSec * 1000000000) ↔
      (∀ first ∈ group.head?, ∀ p ∈ group,
        nanosOf p.timestamp < nanosOf first.timestamp + cfg.maxBatchSpanSec * 1000000000 ∧
          nanosOf first.timestamp < nanosOf p.timestamp + cfg.maxBatchSpanSec * 1000000000) ∧
      ∀ first ∈ group.head?, ∀ p ∈ group, nanosOf p.timestamp < nanosOf first.timestamp →
        ∀ q ∈ group, nanosOf q.timestamp < nanosOf p.timestamp + cfg.maxBatchSpanSec * 1000000000 := by
  rw [assemble_timestamps]
  simp only [forall_mem_map]
  constructor
  · intro h
    have hmem : ∀ first ∈ group.head?, first ∈ group := fun first hfirst =>
      mem_of_mem_head? hfirst
    exact ⟨fun first hfirst p hp => ⟨h first (hmem first hfirst) p hp, h p hp first (hmem first hfirst)⟩,
      fun first hfirst p hp _ q hq => h p hp q hq⟩
  · rintro ⟨hnear, hlate⟩ p hp q hq
    obtain ⟨first, rest, rfl⟩ := exists_cons_of_ne_nil hne
    by_cases hback : nanosOf p.timestamp < nanosOf first.timestamp
    · exact hlate first rfl p hp hback q hq
    · have hq' := (hnear first rfl q hq).1
      omega

/-- **When the batches are the samples.** -/
theorem delivered_iff (cfg : ReaderConfig) (samples : List (ParsedSample V)) :
    Delivered cfg samples ((groups cfg samples).map assemble) ↔
      ∀ group ∈ groups cfg samples, Sound cfg group := by
  obtain ⟨hflatten, hne, hlimit⟩ := groups_spec cfg samples
  have hlength : ∀ group ∈ groups cfg samples,
      (samplesIn (assemble group)).length = (group.map ParsedSample.content).length := fun group _ => by
    rw [samplesIn_length, assemble_timestamps, length_map, length_map]
  have hsamples : ((groups cfg samples).map assemble).flatMap samplesIn =
        samples.map ParsedSample.content ↔
      ∀ group ∈ groups cfg samples, samplesIn (assemble group) = group.map ParsedSample.content := by
    have hright : samples.map ParsedSample.content =
        (groups cfg samples).flatMap fun group => group.map ParsedSample.content := by
      conv_lhs => rw [← hflatten, map_flatten, ← flatMap_def]
    rw [hright, flatMap_map]
    exact flatMap_eq_iff hlength
  constructor
  · intro h group hgroup
    have heven := h.even _ (mem_map_of_mem hgroup)
    obtain ⟨hsingle, hall⟩ := of_assemble (hsamples.mp h.samples group hgroup) heven
    obtain ⟨hnear, hlate⟩ := (span_iff (hne group hgroup)).mp (h.span _ (mem_map_of_mem hgroup))
    refine ⟨hsingle, fun p hp q hq => ?_, hnear, hlate⟩
    exact ⟨(hall p hp).1.symm.trans (hall q hq).1, (hall p hp).2.symm.trans (hall q hq).2⟩
  · intro h
    have hspec : ∀ group ∈ groups cfg samples,
        samplesIn (assemble group) = group.map ParsedSample.content ∧ Even (assemble group) :=
      fun group hgroup =>
        assemble_spec (hne group hgroup) (h group hgroup).single (h group hgroup).alike
    refine ⟨hsamples.mpr fun group hgroup => (hspec group hgroup).1, fun hpos => ?_, ?_, ?_⟩
    · refine forall_mem_map.mpr fun group hgroup => ?_
      rw [assemble_timestamps, length_map]
      exact hlimit hpos group hgroup
    · refine forall_mem_map.mpr fun group hgroup => ?_
      exact (span_iff (hne group hgroup)).mpr ⟨(h group hgroup).near, (h group hgroup).late⟩
    · exact forall_mem_map.mpr fun group hgroup => (hspec group hgroup).2

/-! ## 7. What the run pushes -/

section Run

variable {pb : Protobuf H V} {cfg : ReaderConfig} {source : String}

/-- The pending batch of a group. -/
def pendingOf (cfg : ReaderConfig) (source : String) (group : List (ParsedSample V)) :
    PendingPvBatch V where
  accumulated := assemble group
  metadata := cfg.mergedMetadata source
  rootSourceName := cfg.rootName source

/-- The event batch of a group. -/
def eventOf (cfg : ReaderConfig) (source : String) (group : List (ParsedSample V)) : EventBatch V :=
  timeSeries (cfg.mergedMetadata source) (cfg.rootName source) [assemble group]

/-- The groups that were pushed and the open one. -/
structure Holds (cfg : ReaderConfig) (source : String) (before : List (EventBatch V))
    (w : Worker H V) (ended : List (List (ParsedSample V))) (group : List (ParsedSample V)) : Prop where
  running : w.running = true
  pending : w.pendingPvBatches = if group.isEmpty then [] else [(source, pendingOf cfg source group)]
  pushed : w.pushed = before ++ ended.map (eventOf cfg source)

variable {before : List (EventBatch V)} {w : Worker H V} {ended : List (List (ParsedSample V))}
variable {group : List (ParsedSample V)}

theorem Holds.lookup (h : Holds cfg source before w ended group) :
    w.pendingPvBatches.lookup source =
      if group.isEmpty then none else some (pendingOf cfg source group) := by
  rw [h.pending]
  split
  · rfl
  · simp

theorem hasTimestamps_assemble : hasTimestamps (assemble group) = !group.isEmpty := by
  rw [hasTimestamps, assemble_timestamps]
  cases group <;> rfl

/-- **Submitting ends the group.** -/
theorem Holds.submit (h : Holds cfg source before w ended group) (hne : group ≠ []) :
    Holds cfg source before (submitPendingBatch w source) (ended ++ [group]) [] := by
  have hempty : group.isEmpty = false := by simpa using hne
  have hhas : hasTimestamps (pendingOf cfg source group).accumulated = true := by
    rw [pendingOf, hasTimestamps_assemble, hempty]
    rfl
  have hsubmit : submitPendingBatch w source =
      { w with
        pendingPvBatches := remove w.pendingPvBatches source
        pushed := w.pushed ++ [eventOf cfg source group] } := by
    have hlookup := h.lookup
    rw [if_neg (by simp [hempty])] at hlookup
    simp only [submitPendingBatch, hlookup, hhas, if_pos, pushBatch, h.running]
    rfl
  rw [hsubmit]
  refine ⟨h.running, ?_, ?_⟩
  · have hpending := h.pending
    rw [if_neg (by simp [hempty])] at hpending
    simp [hpending, remove]
  · rw [map_append, ← append_assoc, ← h.pushed]
    rfl

theorem Holds.reachesSpan (h : Holds cfg source before w ended group) (p : ParsedSample V) :
    reachesSpan cfg w source p = tooFar cfg group p := by
  rw [Archiver.reachesSpan, h.lookup]
  cases group with
  | nil => rfl
  | cons first rest =>
    simp only [isEmpty_cons, Bool.false_eq_true, if_false, pendingOf, assemble_timestamps,
      map_cons]
    rfl

theorem Holds.growPending (h : Holds cfg source before w ended group) (p : ParsedSample V) :
    growPending cfg w source p = pendingOf cfg source (group ++ [p]) := by
  rw [Archiver.growPending, openPending, h.lookup]
  unfold pendingOf
  rw [assemble_snoc]
  cases group with
  | nil => rfl
  | cons first rest =>
    have hhas : hasTimestamps (assemble (first :: rest)) = true := hasTimestamps_assemble
    simp only [isEmpty_cons, Bool.false_eq_true, if_false, Option.getD_some, hhas, if_true]

/-- **A sample more.** -/
theorem Holds.addPending (h : Holds cfg source before w ended group) (p : ParsedSample V) :
    Holds cfg source before (addPending cfg w source p) (ended ++ (place cfg group p).1)
      (place cfg group p).2 := by
  -- a group that would span too long is ended first
  obtain ⟨ended', group', hroom, hplace⟩ : ∃ ended' group',
      Holds cfg source before (makeRoom cfg w source p) ended' group' ∧
        (ended ++ (place cfg group p).1, (place cfg group p).2) =
          if cfg.pvSamplesPerBatch ≤ (group' ++ [p]).length then (ended' ++ [group' ++ [p]], [])
          else (ended', group' ++ [p]) := by
    rw [makeRoom, h.reachesSpan]
    unfold place
    by_cases hfar : tooFar cfg group p = true
    · have hne : group ≠ [] := fun hnil => by
        rw [hnil] at hfar
        cases hfar
      refine ⟨ended ++ [group], [], ?_, ?_⟩
      · rw [if_pos hfar]
        exact h.submit hne
      · simp only [if_pos hfar, nil_append]
        split <;> simp
    · refine ⟨ended, group, ?_, ?_⟩
      · rw [if_neg hfar]
        exact h
      · simp only [if_neg hfar, nil_append]
        split <;> simp
  have hput : Holds cfg source before { makeRoom cfg w source p with
      pendingPvBatches := put (makeRoom cfg w source p).pendingPvBatches source
        (pendingOf cfg source (group' ++ [p])) } ended' (group' ++ [p]) := by
    refine ⟨hroom.running, ?_, hroom.pushed⟩
    have hrest : remove (makeRoom cfg w source p).pendingPvBatches source = [] := by
      rw [hroom.pending]
      split <;> simp [remove]
    rw [put, hrest, if_neg (by simp : ¬ (group' ++ [p]).isEmpty = true)]
  have hgrow := hroom.growPending p
  have hlength : (pendingOf cfg source (group' ++ [p])).accumulated.timestamps.length =
      (group' ++ [p]).length := by
    rw [pendingOf, assemble_timestamps, length_map]
  obtain ⟨hended, hopen⟩ := Prod.mk.inj hplace
  simp only [Archiver.addPending, hgrow, hlength]
  by_cases hfull : cfg.pvSamplesPerBatch ≤ (group' ++ [p]).length
  · rw [if_pos hfull] at hplace ⊢
    obtain ⟨hended, hopen⟩ := Prod.mk.inj hplace
    rw [hended, hopen]
    exact hput.submit (by simp)
  · rw [if_neg hfull] at hplace ⊢
    obtain ⟨hended, hopen⟩ := Prod.mk.inj hplace
    rw [hended, hopen]
    exact hput

/-- The samples of a chunk as they are parsed. -/
def Chunk.parsedSamples (c : Chunk pb) : List (ParsedSample V) := c.samples.map fun x => x.parsed

def samplesOf (chunks : List (Chunk pb)) : List (ParsedSample V) := chunks.flatMap Chunk.parsedSamples

/-- **A chunk, with a batch size.** -/
theorem Holds.readChunk (hmode : cfg.fetchMode = .historicalOnce) (hlimit : 0 < cfg.pvSamplesPerBatch)
    {c : Chunk pb} (hsource : pb.pvname c.header = source)
    (h : Holds cfg source before w ended group) :
    ∃ ended' group', Holds cfg source before (readChunk cfg w c) (ended ++ ended') group' ∧
      ∀ rest, cuts cfg group (c.parsedSamples ++ rest) = ended' ++ cuts cfg group' rest := by
  have hsamples : ∀ (samples : List (Sample pb c.header)) {s : Worker H V × PbChunkState H V}
      {ended : List (List (ParsedSample V))} {group : List (ParsedSample V)},
      Holds cfg source before s.1 ended group →
      ∃ ended' group', Holds cfg source before (samples.foldl (readSample cfg) s).1
          (ended ++ ended') group' ∧ (samples.foldl (readSample cfg) s).2 = s.2 ∧
        ∀ rest, cuts cfg group ((samples.map fun x => x.parsed) ++ rest) =
          ended' ++ cuts cfg group' rest := by
    intro samples
    induction samples with
    | nil =>
      intro s ended group h
      exact ⟨[], group, by rw [append_nil]; exact h, rfl, fun _ => rfl⟩
    | cons x samples ih =>
      intro s ended group h
      have hstep : readSample cfg s x = (Archiver.addPending cfg
          { s.1 with parsed := s.1.parsed ++ [(c.header, x.msg)] } source x.parsed, s.2) := by
        simp only [readSample, takeSample, hmode, batchSample, if_pos hlimit, hsource, reduceCtorEq,
          if_false]
      have hnext : Holds cfg source before { s.1 with parsed := s.1.parsed ++ [(c.header, x.msg)] }
          ended group := ⟨h.running, h.pending, h.pushed⟩
      obtain ⟨ended', group', hholds, hstate, hcuts⟩ :=
        @ih (_, s.2) _ _ (hnext.addPending x.parsed)
      rw [foldl_cons, hstep]
      refine ⟨(place cfg group x.parsed).1 ++ ended', group', ?_, hstate, fun rest => ?_⟩
      · rw [← append_assoc]
        exact hholds
      · rw [map_cons, cons_append, cuts, hcuts, append_assoc]
  obtain ⟨ended', group', hholds, hstate, hcuts⟩ :=
    @hsamples c.samples (w, { header := some c.header }) _ _ h
  refine ⟨ended', group', ?_, hcuts⟩
  have hchunk : Archiver.readChunk cfg w c =
      (c.samples.foldl (readSample cfg) (w, { header := some c.header })).1 := by
    simp only [Archiver.readChunk, finalizeChunk, hstate]
    rfl
  rw [hchunk]
  exact hholds

/-- **What a worker with nothing pending has pushed more**: the frames of these batches. -/
structure Pushed (w w' : Worker H V) (frames : List (DataBatch V)) : Prop where
  running : w'.running = true
  pending : w'.pendingPvBatches = []
  pushed : ∃ new, w'.pushed = w.pushed ++ new ∧ framesOf new = frames

theorem framesOf_append (batches more : List (EventBatch V)) :
    framesOf (batches ++ more) = framesOf batches ++ framesOf more := flatMap_append

theorem Pushed.trans {w' w'' : Worker H V} {frames frames' : List (DataBatch V)}
    (h : Pushed w w' frames) (h' : Pushed w' w'' frames') : Pushed w w'' (frames ++ frames') := by
  obtain ⟨new, hpushed, hframes⟩ := h.pushed
  obtain ⟨new', hpushed', hframes'⟩ := h'.pushed
  refine ⟨h'.running, h'.pending, new ++ new', ?_, ?_⟩
  · rw [hpushed', hpushed, append_assoc]
  · rw [framesOf_append, hframes, hframes']

theorem Holds.readChunks (hmode : cfg.fetchMode = .historicalOnce) (hlimit : 0 < cfg.pvSamplesPerBatch)
    {chunks : List (Chunk pb)} (hsource : ∀ c ∈ chunks, pb.pvname c.header = source)
    (h : Holds cfg source before w ended group) :
    ∃ ended' group', Holds cfg source before (readChunks cfg w chunks) (ended ++ ended') group' ∧
      ∀ rest, cuts cfg group (samplesOf chunks ++ rest) = ended' ++ cuts cfg group' rest := by
  induction chunks generalizing w ended group with
  | nil => exact ⟨[], group, by rw [append_nil]; exact h, fun _ => rfl⟩
  | cons c chunks ih =>
    obtain ⟨hc, hchunks⟩ := forall_mem_cons.mp hsource
    obtain ⟨ended₁, group₁, h₁, hcuts₁⟩ := h.readChunk hmode hlimit hc
    obtain ⟨ended₂, group₂, h₂, hcuts₂⟩ := ih hchunks h₁
    refine ⟨ended₁ ++ ended₂, group₂, ?_, fun rest => ?_⟩
    · rw [← append_assoc]
      exact h₂
    · rw [samplesOf, flatMap_cons, append_assoc, hcuts₁, ← samplesOf, hcuts₂,
        append_assoc]

/-- **The end of the fetch pushes the open group.** -/
theorem Holds.flush (h : Holds cfg source before w ended group) :
    Holds cfg source before (flushAllPendingBatches w) (ended ++ cuts cfg group []) [] := by
  by_cases hempty : group = []
  · have hpending := h.pending
    rw [hempty] at hpending
    have hflush : flushAllPendingBatches w = w := by
      rw [flushAllPendingBatches, hpending]
      rfl
    rw [hflush, hempty, cuts]
    simpa [hempty] using h
  · have hpending := h.pending
    rw [if_neg (by simpa using hempty)] at hpending
    have hhas : hasTimestamps (pendingOf cfg source group).accumulated = true := by
      rw [pendingOf, hasTimestamps_assemble]
      simpa using hempty
    have hflush : flushAllPendingBatches w = submitPendingBatch w source := by
      rw [flushAllPendingBatches, hpending]
      simp only [filter_cons, hhas, if_true]
      rfl
    rw [hflush, cuts, if_neg (by simpa using hempty)]
    exact h.submit hempty

theorem framesOf_eventOf (cfg : ReaderConfig) (source : String)
    (parts : List (List (ParsedSample V))) :
    framesOf (parts.map (eventOf cfg source)) = parts.map assemble := by
  rw [framesOf, flatMap_map, ← flatMap_pure_eq_map]
  rfl

/-- **A chunk, without a batch size**: a frame for each sample. -/
theorem readChunk_unbatched (hmode : cfg.fetchMode = .historicalOnce)
    (hlimit : ¬ 0 < cfg.pvSamplesPerBatch) (c : Chunk pb) (hrunning : w.running = true)
    (hpending : w.pendingPvBatches = []) :
    Pushed w (readChunk cfg w c) (c.parsedSamples.map ParsedSample.batch) := by
  have hsamples : ∀ (samples : List (Sample pb c.header)) (s : Worker H V × PbChunkState H V),
      samples.foldl (readSample cfg) s =
        ({ s.1 with parsed := s.1.parsed ++ samples.map fun x => (c.header, x.msg) },
          { s.2 with events := s.2.events ++ samples.map fun x => x.parsed.batch }) := by
    intro samples
    induction samples with
    | nil => intro s; simp
    | cons x samples ih =>
      intro s
      rw [foldl_cons, ih]
      simp [readSample, takeSample, hmode, batchSample, hlimit]
  have hfilter : (c.samples.map fun x => x.parsed.batch).filter hasTimestamps =
      c.samples.map fun x => x.parsed.batch := by
    refine filter_eq_self.mpr fun batch hbatch => ?_
    obtain ⟨x, -, rfl⟩ := mem_map.mp hbatch
    rfl
  rw [Chunk.parsedSamples, map_map, readChunk, hsamples]
  simp only [finalizeChunk, flushChunk, nil_append, hfilter]
  split
  · next hempty =>
    refine ⟨hrunning, hpending, [], by simp, ?_⟩
    exact (List.isEmpty_iff.mp hempty).symm
  · rw [pushBatch, if_pos (show w.running = true from hrunning)]
    refine ⟨hrunning, hpending, _, rfl, ?_⟩
    rw [framesOf, flatMap_singleton]
    rfl

theorem readChunks_unbatched (hmode : cfg.fetchMode = .historicalOnce)
    (hlimit : ¬ 0 < cfg.pvSamplesPerBatch) (chunks : List (Chunk pb)) (hrunning : w.running = true)
    (hpending : w.pendingPvBatches = []) :
    Pushed w (readChunks cfg w chunks) ((samplesOf chunks).map ParsedSample.batch) := by
  induction chunks generalizing w with
  | nil => exact ⟨hrunning, hpending, [], by simp [readChunks], rfl⟩
  | cons c chunks ih =>
    have hc := readChunk_unbatched hmode hlimit c hrunning hpending
    rw [samplesOf, flatMap_cons, map_append]
    exact hc.trans (ih hc.running hc.pending)

theorem flush_idle (h : w.pendingPvBatches = []) : flushAllPendingBatches w = w := by
  rw [flushAllPendingBatches, h]
  rfl

/-- A PV of the queue whose archive answers with these chunks, all under one name. -/
structure PvArchive (pb : Protobuf H V) where
  pv : String
  source : String
  pieces : List (List UInt8)
  chunks : List (Chunk pb)
  carries : Carries pieces chunks
  sources : ∀ c ∈ chunks, pb.pvname c.header = source

def PvArchive.fetch (a : PvArchive pb) : PvFetch where
  pv := a.pv
  pieces := a.pieces
  response := .ok 200

def PvArchive.samples (a : PvArchive pb) : List (ParsedSample V) := samplesOf a.chunks

/-- **A fetch pushes the batches of its groups.** -/
theorem fetch_pushed (hmode : cfg.fetchMode = .historicalOnce) (a : PvArchive pb)
    (hrunning : w.running = true) (hpending : w.pendingPvBatches = []) :
    ∃ w', fetchPvSafely pb cfg a.pv w a.pieces (.ok 200) = .ok w' ∧
      Pushed w w' ((groups cfg a.samples).map assemble) := by
  have hread := stream_read a.carries cfg a.pv w
  refine ⟨flushAllPendingBatches (readChunks cfg w a.chunks), by rw [fetchPvSafely, hread], ?_⟩
  unfold groups
  split
  · next hlimit =>
    have hstart : Holds cfg a.source w.pushed w [] ([] : List (ParsedSample V)) :=
      ⟨hrunning, hpending, by simp⟩
    obtain ⟨ended, group, hholds, hcuts⟩ := hstart.readChunks hmode hlimit a.sources
    have hend := hholds.flush
    have hall := hcuts []
    rw [append_nil] at hall
    rw [nil_append, ← hall] at hend
    exact ⟨hend.running, hend.pending, _, hend.pushed, framesOf_eventOf cfg a.source _⟩
  · next hlimit =>
    have hread := readChunks_unbatched hmode hlimit a.chunks hrunning hpending
    rw [flush_idle hread.pending, map_map]
    exact hread

/-- **A run over the queue.** -/
theorem run_pushed (hmode : cfg.fetchMode = .historicalOnce) (queue : List (PvArchive pb)) :
    ∀ {w : Worker H V}, w.running = true → w.pendingPvBatches = [] →
      ∃ w', (queue.map PvArchive.fetch).foldlM
          (fun w f => fetchPvSafely pb cfg f.pv w f.pieces f.response) w = .ok w' ∧
        w'.running = true ∧ w'.pendingPvBatches = [] ∧ ∃ news : List (List (EventBatch V)),
          w'.pushed = w.pushed ++ news.flatten ∧
          List.Forall₂ (fun a new => framesOf new = (groups cfg a.samples).map assemble) queue news := by
  induction queue with
  | nil => exact fun {w} hrunning hpending => ⟨w, rfl, hrunning, hpending, [], by simp, .nil⟩
  | cons a queue ih =>
    intro w hrunning hpending
    obtain ⟨w₁, hw₁, hpushed⟩ := fetch_pushed hmode a hrunning hpending
    obtain ⟨new, hnew, hframes⟩ := hpushed.pushed
    obtain ⟨w₂, hw₂, hrunning₂, hpending₂, news, hnews, hall⟩ := ih hpushed.running hpushed.pending
    refine ⟨w₂, ?_, hrunning₂, hpending₂, new :: news, ?_, .cons hframes hall⟩
    · rw [map_cons, foldlM_cons, PvArchive.fetch, hw₁]
      exact hw₂
    · rw [hnews, hnew, flatten_cons, append_assoc]

theorem historicalOnce_pushed (hmode : cfg.fetchMode = .historicalOnce) (batchFlushIntervalMs : Nat)
    (queue : List (PvArchive pb)) :
    ∃ w', runHistoricalOnce pb cfg batchFlushIntervalMs {} (queue.map PvArchive.fetch) = .ok w' ∧
      w'.pendingPvBatches = [] ∧ ∃ news : List (List (EventBatch V)), w'.pushed = news.flatten ∧
        List.Forall₂ (fun a new => framesOf new = (groups cfg a.samples).map assemble) queue news := by
  obtain ⟨w', hw', -, hpending, news, hnews, hall⟩ := @run_pushed H V pb cfg hmode queue {} rfl rfl
  refine ⟨w', ?_, hpending, news, hnews, hall⟩
  rw [runHistoricalOnce, if_pos (rfl : ({} : Worker H V).running = true), hw']
  simp only [bind, Except.bind, flush_idle hpending, ite_self]

end Run

/-- **A historical run delivers the samples of a PV** exactly when its groups are sound: it pushes
one batch for each group, and the batch holds the samples, within the span, if they are alike and
none is too far from another.  The code looks at the distance from the first sample of the group
only, so one before the first may be too far from one after it. -/
theorem historicalOnce_delivered_iff (m : Messages H V) (cfg : ReaderConfig)
    (hmode : cfg.fetchMode = .historicalOnce) (batchFlushIntervalMs : Nat)
    (queue : List (PvArchive m.protobuf)) :
    ∃ w', runHistoricalOnce m.protobuf cfg batchFlushIntervalMs {} (queue.map PvArchive.fetch) =
        .ok w' ∧
      w'.pendingPvBatches = [] ∧ ∃ news : List (List (EventBatch V)), w'.pushed = news.flatten ∧
        List.Forall₂ (fun a new => Delivered cfg a.samples (framesOf new) ↔
          ∀ group ∈ groups cfg a.samples, Sound cfg group) queue news := by
  obtain ⟨w', hw', hpending, news, hnews, hall⟩ :=
    historicalOnce_pushed hmode batchFlushIntervalMs queue
  refine ⟨w', hw', hpending, news, hnews, hall.imp fun a new hframes => ?_⟩
  rw [hframes]
  exact delivered_iff cfg a.samples

/-! ## 8. Two archives -/

/-- A `PayloadInfo` of a double of the PV `T` in 1970. -/
def secondsHeader : List UInt8 := [0x08, 0x06, 0x12, 0x01, 0x54, 0x18, 0xB2, 0x0F]

/-- What follows the second in a `ScalarDouble` of 1.5. -/
def secondsTail : List UInt8 := [0x10, 0x00, 0x19, 0x00, 0x00, 0x00, 0x00, 0x00, 0x00, 0xF8, 0x3F]

/-- The generated classes on these bytes; a double is its bits. -/
def secondsMessages : Messages String Nat where
  parsePayloadInfo msg := if msg = secondsHeader then some "T" else none
  pvname header := header
  year _ := 1970
  type _ := .scalarDouble
  scalar _
    | tag :: second :: rest =>
      if tag = 0x08 ∧ rest = secondsTail then some ⟨second.toNat, 0, 0x3FF8000000000000⟩ else none
    | _ => none
  vector _ _ := none
  enum _ := none
  enumVector _ := none

def secondsSample (second : UInt8) : ParsedSample Nat where
  epochSeconds := daysBefore 1970 * 86400 + second.toNat
  nanoseconds := 0
  columns := [{ name := "T", values := .scalar .double [0x3FF8000000000000] }]

def secondsChunk (seconds : List UInt8) : Chunk secondsMessages.protobuf where
  header := "T"
  msg := secondsHeader
  nonempty := nofun
  parses := rfl
  samples := seconds.map fun second =>
    { msg := 0x08 :: second :: secondsTail
      nonempty := nofun
      parsed := secondsSample second
      parses := rfl }

/-- Samples at these seconds. -/
def secondsArchive (seconds : List UInt8) : PvArchive secondsMessages.protobuf where
  pv := "T"
  source := "T"
  pieces := [stream newline (chunkLines [secondsChunk seconds])]
  chunks := [secondsChunk seconds]
  carries := ⟨1, by simp⟩
  sources c hc := by
    rw [mem_singleton.mp hc]
    rfl

theorem secondsSample_even (second : UInt8) : Even (secondsSample second).batch :=
  ⟨by simp [secondsSample, ParsedSample.batch, size], by simp [secondsSample, ParsedSample.batch]⟩

/-- Spans below a minute. -/
def minuteConfig (pvSamplesPerBatch : Nat) : ReaderConfig where
  name := "r"
  fetchMode := .historicalOnce
  pvSamplesPerBatch := pvSamplesPerBatch
  maxBatchSpanSec := 60

theorem inOrder_delivered :
    ∃ w', runHistoricalOnce secondsMessages.protobuf (minuteConfig 2) 0 {}
        [(secondsArchive [50, 100, 110]).fetch] = .ok w' ∧
      w'.pendingPvBatches = [] ∧ ∃ news : List (List (EventBatch Nat)), w'.pushed = news.flatten ∧
        List.Forall₂ (fun a new => Delivered (minuteConfig 2) a.samples (framesOf new))
          [secondsArchive [50, 100, 110]] news := by
  obtain ⟨w', hw', hpending, news, hnews, hall⟩ := historicalOnce_delivered_iff secondsMessages
    (minuteConfig 2) rfl 0 [secondsArchive [50, 100, 110]]
  refine ⟨w', hw', hpending, news, hnews, ?_⟩
  cases hall with
  | cons hiff hrest =>
    cases hrest
    refine .cons (hiff.mpr ?_) .nil
    have hgroups : groups (minuteConfig 2) (secondsArchive [50, 100, 110]).samples =
        [[secondsSample 50, secondsSample 100], [secondsSample 110]] := rfl
    rw [hgroups]
    refine forall_mem_cons.mpr ⟨⟨?_, ?_, ?_, ?_⟩, forall_mem_cons.mpr
      ⟨⟨?_, ?_, ?_, ?_⟩, forall_mem_nil _⟩⟩
    · simp [secondsSample_even]
    · simp [secondsSample]
    · simp only [List.head?_cons, Option.mem_some_iff, forall_eq', forall_mem_cons]
      decide
    · simp [secondsSample, nanosOf, ParsedSample.timestamp, minuteConfig]
    · simp [secondsSample_even]
    · simp [secondsSample]
    · simp [minuteConfig]
    · simp [minuteConfig]

/-- **Samples that go back in time** can make a batch as long as the span. -/
theorem backInTime_fails : ¬ ∀ (H V : Type) (m : Messages H V) (cfg : ReaderConfig)
    (batchFlushIntervalMs : Nat) (queue : List (PvArchive m.protobuf)),
    cfg.fetchMode = .historicalOnce → 0 < cfg.maxBatchSpanSec →
    ∃ w', runHistoricalOnce m.protobuf cfg batchFlushIntervalMs {} (queue.map PvArchive.fetch) =
        .ok w' ∧
      ∃ news : List (List (EventBatch V)), w'.pushed = news.flatten ∧
        List.Forall₂ (fun a new => Delivered cfg a.samples (framesOf new)) queue news := by
  intro h
  obtain ⟨w', hw', news, hnews, hall⟩ := h String Nat secondsMessages (minuteConfig 1000) 0
    [secondsArchive [100, 50, 110]] rfl (by decide)
  obtain ⟨w'', hw'', -, news', hnews', hall'⟩ := @historicalOnce_pushed String Nat
    secondsMessages.protobuf (minuteConfig 1000) rfl 0 [secondsArchive [100, 50, 110]]
  obtain rfl := Except.ok.inj (hw'.symm.trans hw'')
  cases hall with
  | @cons _ new _ _ hdelivered hrest =>
    cases hrest
    cases hall' with
    | @cons _ new' _ _ hframes hrest' =>
      cases hrest'
      obtain rfl : new = new' := by simpa using hnews.symm.trans hnews'
      rw [hframes, delivered_iff] at hdelivered
      have hsound := hdelivered [secondsSample 100, secondsSample 50, secondsSample 110]
        mem_cons_self
      exact absurd (hsound.late _ rfl (secondsSample 50) (by simp) (by decide) (secondsSample 110)
        (by simp)) (by decide)

end MldpDriver.Reader.Archiver
