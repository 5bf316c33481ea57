/-
# Which samples a windowed scan returns

The backend promises little: a request for a PV list and whole seconds `[B, E]` returns every
stored sample of those PVs in `[B * 1e9, E * 1e9]` once, and possibly other samples of those PVs
(`AnswersRequest`).  This module counts, under that promise, how often the scan of `WindowScan`
delivers a sample, and states exactly when that is the flat scan over the windows
(`windowScan_flat_iff`).
-/
import MldpDriver.Query.WindowScan

namespace MldpDriver.Query

open List
open Lib.Tiling (Piece evenPieces evenPiecesFrom evenPiece stepCount)
open Lib.Binary64 (toBinary64 toBinary64_mono)

/-! ## 1. Requests and their answers -/

/-- What a list of pushed predicates asks the backend for. -/
structure Request where
  pvs : List String
  beginSeconds : Int
  endSeconds : Int

/-- The request of a shard's predicates. -/
def requestOf (predicates : List Predicate) : Option Request :=
  match predicates.reverse with
  | ⟨"time", .LTE, [.int64 e]⟩ :: ⟨"time", .GTE, [.int64 b]⟩ :: ⟨"pv", .IN, values⟩ :: _ =>
    some ⟨values.filterMap Literal.string?, b, e⟩
  | _ => none

theorem filterMap_string_map (pvs : List String) :
    (pvs.map Literal.string).filterMap Literal.string? = pvs := by
  induction pvs with
  | nil => rfl
  | cons p l ih => simp only [map_cons, filterMap_cons, Literal.string?, ih]

@[simp] theorem requestOf_shardPredicates (others : List Predicate) (pvs : List String)
    (b e : Int) : requestOf (shardPredicates others pvs b e) = some ⟨pvs, b, e⟩ := by
  simp only [requestOf, shardPredicates, reverse_append, reverse_cons,
    reverse_nil, nil_append, cons_append, filterMap_string_map]

def Request.covers (r : Request) (t : Int) : Bool :=
  decide (r.beginSeconds * nsPerSecond ≤ t) && decide (t ≤ r.endSeconds * nsPerSecond)

/-- The samples a request must return. -/
def Request.selects (r : Request) (x : Sample) : Bool := r.pvs.contains x.pv && r.covers x.time

/-- The rows of a list of batches, in order. -/
def batchRows (batches : List (RecordBatch Sample)) : List Sample := batches.flatMap (·.rows)

/-- **The backend's promise** for one request, over what it stores: every stored sample of the
listed PVs in the requested seconds once, and possibly stored samples of those PVs outside. -/
def AnswersRequest (store : List Sample) (r : Request) (batches : List (RecordBatch Sample)) :
    Prop :=
  (∀ b ∈ batches, b.fields = timeSeriesFields) ∧
    ∃ extra : List Sample, (∀ x ∈ extra, x ∈ store ∧ x.pv ∈ r.pvs ∧ r.covers x.time = false) ∧
      (batchRows batches).Perm (store.filter r.selects ++ extra)

/-- A backend that keeps its promise on every request. -/
def Conforms (store : List Sample) (answers : Answers) : Prop :=
  ∀ g r, requestOf g.predicates = some r → AnswersRequest store r (answers g)

/-- `IQueryable::executeStream` of a deterministic backend, drained. -/
abbrev Execute := List Predicate → List (RecordBatch Sample)

/-- A deterministic backend that keeps its promise on every request. -/
def ConformsQuery (store : List Sample) (execute : Execute) : Prop :=
  ∀ predicates r, requestOf predicates = some r → AnswersRequest store r (execute predicates)

variable {store : List Sample}

theorem conforms_of_query {execute : Execute} (h : ConformsQuery store execute) :
    Conforms store fun g => execute g.predicates :=
  fun g r hr => h g.predicates r hr

variable {x : Sample}

theorem AnswersRequest.count_covered {r : Request} {batches : List (RecordBatch Sample)}
    (h : AnswersRequest store r batches) (hx : r.covers x.time = true) :
    (batchRows batches).count x = if x.pv ∈ r.pvs then store.count x else 0 := by
  obtain ⟨-, extra, hextra, hperm⟩ := h
  have hnot : extra.count x = 0 := by
    refine count_eq_zero.mpr fun hmem => ?_
    rw [(hextra x hmem).2.2] at hx
    exact Bool.false_ne_true hx
  rw [hperm.count_eq, count_append, hnot, Nat.add_zero]
  by_cases hpv : x.pv ∈ r.pvs
  · rw [if_pos hpv, List.count_filter (by simp [Request.selects, hpv, hx])]
  · rw [if_neg hpv]
    refine count_eq_zero.mpr fun hmem => hpv ?_
    have := (mem_filter.mp hmem).2
    simp only [Request.selects, Bool.and_eq_true, contains_iff_mem] at this
    exact this.1

theorem AnswersRequest.mem {r : Request} {batches : List (RecordBatch Sample)}
    (h : AnswersRequest store r batches) (hx : x ∈ batchRows batches) :
    x ∈ store ∧ x.pv ∈ r.pvs := by
  obtain ⟨-, extra, hextra, hperm⟩ := h
  rcases mem_append.mp (hperm.mem_iff.mp hx) with hm | hm
  · obtain ⟨hs, hsel⟩ := mem_filter.mp hm
    simp only [Request.selects, Bool.and_eq_true, contains_iff_mem] at hsel
    exact ⟨hs, hsel.1⟩
  · exact ⟨(hextra x hm).1, (hextra x hm).2.1⟩

theorem count_filter_of_not {l : List Sample} {k : Sample → Bool} (h : ¬ k x = true) :
    (l.filter k).count x = 0 :=
  count_eq_zero.mpr fun hm => h (mem_filter.mp hm).2

/-! ## 2. Backends that keep the promise -/

/-- Answers with the samples `keep` selects from the request's PVs. -/
def answerWith (store : List Sample) (keep : Request → Sample → Bool) : Execute := fun predicates =>
  match requestOf predicates with
  | some r => [⟨timeSeriesFields, store.filter fun x => r.pvs.contains x.pv && keep r x⟩]
  | none => []

theorem answerWith_conforms {keep : Request → Sample → Bool}
    (h : ∀ r x, r.covers x.time = true → keep r x = true) :
    ConformsQuery store (answerWith store keep) := by
  intro predicates r hr
  have heq : answerWith store keep predicates =
      [⟨timeSeriesFields, store.filter fun x => r.pvs.contains x.pv && keep r x⟩] := by
    simp only [answerWith, hr]
  rw [heq]
  refine ⟨by simp, (store.filter fun x => r.pvs.contains x.pv && keep r x).filter
    (fun x => !r.covers x.time), ?_, ?_⟩
  · intro x hx
    obtain ⟨hx, hcov⟩ := mem_filter.mp hx
    obtain ⟨hs, hx⟩ := mem_filter.mp hx
    simp only [Bool.and_eq_true, contains_iff_mem] at hx
    exact ⟨hs, hx.1, by simpa using hcov⟩
  · have hsel : store.filter r.selects =
        (store.filter fun x => r.pvs.contains x.pv && keep r x).filter fun x => r.covers x.time := by
      rw [filter_filter]
      refine filter_congr fun x _ => ?_
      cases hc : r.covers x.time with
      | false => simp [Request.selects, hc]
      | true => simp [Request.selects, hc, h r x hc]
    have hrows : ∀ l : List Sample, batchRows [⟨timeSeriesFields, l⟩] = l := fun l => by
      simp [batchRows]
    rw [hsel, hrows]
    exact (filter_append_perm (fun x : Sample => r.covers x.time) _).symm

theorem count_answerWith {s : List Sample} {k : Request → Sample → Bool}
    {predicates : List Predicate} {r : Request} (hr : requestOf predicates = some r) (x : Sample) :
    (batchRows (answerWith s k predicates)).count x =
      if r.pvs.contains x.pv then (if k r x then s.count x else 0) else 0 := by
  have hrows : batchRows (answerWith s k predicates) =
      s.filter fun x => r.pvs.contains x.pv && k r x := by
    simp [answerWith, hr, batchRows]
  rw [hrows]
  by_cases h : (r.pvs.contains x.pv && k r x) = true
  · rw [List.count_filter (p := fun x => r.pvs.contains x.pv && k r x) h]
    simp only [Bool.and_eq_true] at h
    rw [if_pos h.1, if_pos h.2]
  · rw [count_filter_of_not (k := fun x => r.pvs.contains x.pv && k r x) h]
    cases hp : r.pvs.contains x.pv <;> cases hk : k r x <;> simp_all

/-- Returns exactly what was asked for. -/
def exactAnswers (store : List Sample) : Execute := answerWith store fun r x => r.covers x.time

/-- Returns every stored sample of the listed PVs, whatever the seconds. -/
def allAnswers (store : List Sample) : Execute := answerWith store fun _ _ => true

theorem exactAnswers_conforms (store : List Sample) : ConformsQuery store (exactAnswers store) :=
  answerWith_conforms fun _ _ h => h

theorem allAnswers_conforms (store : List Sample) : ConformsQuery store (allAnswers store) :=
  answerWith_conforms fun _ _ _ => rfl

/-! ## 3. What trimming keeps -/

theorem predicateField_time (rows : List Sample) :
    predicateField ⟨timeSeriesFields, rows⟩ "time" = some fun s => .scalar (.timestamp s.time) := by
  simp [predicateField, timeSeriesFields]

/-- The slice a group is trimmed to. -/
def Group.piece (g : Group) : Piece Int := ⟨g.beginNs, g.endNs, g.finalSlice⟩

variable {scan : PhysicalTableScan}

/-- **A delivered batch holds the samples whose rounded time is in the rounded slice.** -/
theorem trim_rows {g : Group} {batch : RecordBatch Sample} (h : batch.fields = timeSeriesFields) :
    (trim scan g batch).rows = batch.rows.filter fun x => g.piece.keeps toBinary64 x.time := by
  have hfield : predicateField batch "time" = some fun s => .scalar (.timestamp s.time) := by
    rw [← predicateField_time batch.rows, ← h]
  have hpass : ∀ x : Sample,
      rowPasses batch (trimPredicates g.beginNs g.endNs g.finalSlice) x =
        g.piece.keeps toBinary64 x.time := by
    intro x
    have hop : (if g.finalSlice then PredicateOp.LTE else .LT) ∈ [PredicateOp.GTE, .LTE, .LT] := by
      split <;> simp
    simp only [rowPasses, trimPredicates, all_cons, all_nil, Bool.and_true,
      predicateTruth_time hfield x _ _ hop, predicateTruth_time hfield x _ .GTE (by simp)]
    cases hf : g.finalSlice <;>
      simp [compareNumeric, Group.piece, Piece.keeps, hf]
  have hrows : (applyFilter batch (trimPredicates g.beginNs g.endNs g.finalSlice)).rows =
      batch.rows.filter fun x => g.piece.keeps toBinary64 x.time := by
    rw [applyFilter_rows]
    exact filter_congr fun x _ => hpass x
  unfold trim
  split
  · rw [qualifyBatchColumns_rows, hrows]
  · exact hrows

theorem delivered_rows {answers : Answers} {g : Group}
    (h : ∀ b ∈ answers g, b.fields = timeSeriesFields) :
    batchRows (delivered scan answers g) =
      (batchRows (answers g)).filter fun x => g.piece.keeps toBinary64 x.time := by
  unfold delivered batchRows
  rw [flatMap_map, filter_flatMap]
  exact flatMap_congr fun b hb => trim_rows (h b hb)

/-! ## 4. The shard of a PV -/

/-- Two elements that satisfy `p` are one when only one does. -/
theorem eq_of_countP_eq_one {α : Type} {l : List α} {p : α → Bool} (h : l.countP p = 1) {a b : α}
    (ha : a ∈ l) (hpa : p a = true) (hb : b ∈ l) (hpb : p b = true) : a = b := by
  rw [countP_eq_length_filter] at h
  obtain ⟨c, hc⟩ := length_eq_one_iff.mp h
  have hsingle : ∀ d ∈ l, p d = true → d = c := by
    intro d hd hpd
    have : d ∈ l.filter p := mem_filter.mpr ⟨hd, hpd⟩
    rw [hc] at this
    exact mem_singleton.mp this
  rw [hsingle a ha hpa, hsingle b hb hpb]

/-- In a list without repetition one element satisfies `p`. -/
theorem countP_eq_one_iff {α : Type} {l : List α} (hnd : l.Nodup) (p : α → Bool) :
    l.countP p = 1 ↔ ∃ a ∈ l, p a = true ∧ ∀ b ∈ l, p b = true → b = a := by
  constructor
  · intro h
    obtain ⟨a, ha, hpa⟩ := countP_pos_iff.mp (show 0 < l.countP p by omega)
    exact ⟨a, ha, hpa, fun b hb hpb => eq_of_countP_eq_one h hb hpb ha hpa⟩
  · rintro ⟨a, ha, hpa, huniq⟩
    rw [countP_eq_length_filter]
    have hrep : l.filter p = List.replicate (l.filter p).length a :=
      eq_replicate_of_mem fun b hb =>
        huniq b (mem_filter.mp hb).1 (mem_filter.mp hb).2
    have hle : (l.filter p).length ≤ 1 := by
      have hnd' := hnd.filter p
      rw [hrep] at hnd'
      exact nodup_replicate.mp hnd'
    have hpos : 0 < (l.filter p).length :=
      length_pos_of_mem (mem_filter.mpr ⟨ha, hpa⟩)
    omega

variable {pvs : List String}
variable {pv : String}

/-- Block `m` holds the names at the positions `m * k, …, m * k + k - 1`. -/
theorem mem_block_iff {k : Nat} (hk : 0 < k) {m : Nat} :
    pv ∈ (pvs.drop (m * k)).take k ↔ ∃ i, pvs[i]? = some pv ∧ i / k = m := by
  rw [mem_iff_getElem?]
  constructor
  · rintro ⟨j, hj⟩
    have hjk : j < k := by
      by_contra hge
      rw [List.getElem?_take, if_neg hge] at hj
      exact Option.some_ne_none _ hj.symm
    rw [List.getElem?_take_of_lt hjk, List.getElem?_drop] at hj
    refine ⟨m * k + j, hj, ?_⟩
    rw [Nat.mul_comm, Nat.mul_add_div hk, Nat.div_eq_of_lt hjk, Nat.add_zero]
  · rintro ⟨i, hi, hm⟩
    have hmod := Nat.div_add_mod i k
    have hlt := Nat.mod_lt i hk
    rw [hm, Nat.mul_comm] at hmod
    exact ⟨i % k, by rw [List.getElem?_take_of_lt hlt, List.getElem?_drop, hmod]; exact hi⟩

theorem block_lt {k : Nat} (hk : 0 < k) {i : Nat} (hi : pvs[i]? = some pv) :
    i / k < (pvs.length + k - 1) / k := by
  have hlt : i < pvs.length := (List.getElem?_eq_some_iff.mp hi).1
  rw [Nat.div_lt_iff_lt_mul hk]
  have hmod := Nat.div_add_mod (pvs.length + k - 1) k
  have hmlt := Nat.mod_lt (pvs.length + k - 1) hk
  have : (pvs.length + k - 1) / k * k = k * ((pvs.length + k - 1) / k) := Nat.mul_comm _ _
  omega

/-- All occurrences of a name lie in one block of `k`. -/
def SameShard (k : Nat) (pvs : List String) (pv : String) : Prop :=
  ∀ i j, pvs[i]? = some pv → pvs[j]? = some pv → i / k = j / k

/-- **A listed PV is in exactly one shard when its occurrences fall in one block.** -/
theorem countP_pvShards_eq_one_iff {k : Nat} (hk : 0 < k) (hpv : pv ∈ pvs) :
    (pvShards k pvs).countP (·.contains pv) = 1 ↔ SameShard k pvs pv := by
  have hmap : (pvShards k pvs).countP (·.contains pv) =
      (List.range ((pvs.length + k - 1) / k)).countP
        fun m => ((pvs.drop (m * k)).take k).contains pv := by
    unfold pvShards
    rw [countP_map]
    rfl
  rw [hmap, countP_eq_one_iff nodup_range]
  simp only [contains_iff_mem, mem_block_iff hk, mem_range]
  constructor
  · rintro ⟨a, -, -, huniq⟩ i j hi hj
    rw [huniq _ (block_lt hk hi) ⟨i, hi, rfl⟩, huniq _ (block_lt hk hj) ⟨j, hj, rfl⟩]
  · intro h
    obtain ⟨i, hi⟩ := mem_iff_getElem?.mp hpv
    refine ⟨i / k, block_lt hk hi, ⟨i, hi, rfl⟩, ?_⟩
    rintro b - ⟨j, hj, rfl⟩
    exact h j i hj hi

theorem countP_pvShards_pos_iff {k : Nat} (hk : 0 < k) :
    0 < (pvShards k pvs).countP (·.contains pv) ↔ pv ∈ pvs := by
  simp only [countP_pos_iff, pvShards, mem_map, mem_range,
    exists_exists_and_eq_and, contains_iff_mem, mem_block_iff hk]
  constructor
  · rintro ⟨m, -, i, hi, -⟩
    exact mem_iff_getElem?.mpr ⟨i, hi⟩
  · intro hmem
    obtain ⟨i, hi⟩ := mem_iff_getElem?.mp hmem
    exact ⟨i / k, block_lt hk hi, i, hi, rfl⟩

/-! ## 5. Counting a sample in the output

The count is a product (`count_delivered`): the number of windows the sample's time rounds into,
times the number of PV shards that hold its PV, times its multiplicity in the store.  So the
slicing itself never loses or doubles a sample that the backend was asked for; what goes wrong
is the request (its whole seconds leave out a sub-second part of a slice), the shards (a PV
listed twice, in two shards) and the comparison of rounded nanoseconds at a window's ends. -/

/-- The time rounds into the rounded window. -/
def roundsInto (w : Window) (t : Int) : Bool :=
  decide (toBinary64 w.1 ≤ toBinary64 t) && decide (toBinary64 t ≤ toBinary64 w.2)

def inWindow (w : Window) (t : Int) : Bool := decide (w.1 ≤ t) && decide (t ≤ w.2)

variable {w : Window}

theorem roundsInto_of_inWindow {t : Int} (h : inWindow w t = true) :
    roundsInto w t = true := by
  simp only [inWindow, roundsInto, Bool.and_eq_true, decide_eq_true_eq] at *
  exact ⟨toBinary64_mono h.1, toBinary64_mono h.2⟩

/-- A sum that takes one value where `p` holds and vanishes elsewhere. -/
theorem sum_map_ite_const {α : Type} (l : List α) (p : α → Bool) (c : Nat) :
    (l.map fun a => if p a then c else 0).sum = l.countP p * c := by
  induction l with
  | nil => simp
  | cons a l ih =>
    rw [map_cons, sum_cons, ih, countP_cons]
    split <;> ring

/-- The parts where `p` holds contribute `c` each, the others nothing. -/
theorem count_flatMap_ite {α : Type} {l : List α} {f : α → List Sample} {p : α → Bool} {c : Nat}
    (h : ∀ a ∈ l, (f a).count x = if p a then c else 0) :
    (l.flatMap f).count x = l.countP p * c := by
  rw [count_flatMap, ← sum_map_ite_const]
  exact congrArg List.sum (map_congr_left h)

/-- How many shards hold a PV. -/
def shardCount (scan : PhysicalTableScan) (pv : String) : Nat :=
  (pvShards scan.windowShards.seriesPerShard (requestedPvValues scan.pushablePredicates)).countP
    (·.contains pv)

/-- The pieces a scan cuts a window into. -/
def slices (scan : PhysicalTableScan) (w : Window) : List (Piece Int) :=
  evenPieces w.1 w.2 scan.windowShards.sliceNs

theorem slices_cut (hs : 0 < scan.windowShards.sliceNs) (hw : w.1 ≤ w.2) :
    Lib.Tiling.Cut w.1 w.2 (slices scan w) :=
  Lib.Tiling.evenPieces_cut hw hs

theorem roundsInto_of_keeps (hs : 0 < scan.windowShards.sliceNs) (hw : w.1 ≤ w.2) {p : Piece Int}
    (hp : p ∈ slices scan w) {t : Int} (hk : p.keeps toBinary64 t = true) :
    roundsInto w t = true := by
  have := (slices_cut hs hw).keeps_bounds toBinary64_mono hp hk
  simpa [roundsInto] using this

section Count

variable {scan : PhysicalTableScan} {answers : Answers} {windows : List Window}

/-- One slice: the shards that hold the PV contribute, when the slice keeps the time. -/
theorem count_slice {p : Piece Int} {c : Nat}
    (hfields : ∀ pvs i, ∀ b ∈ answers (sliceGroup scan w p pvs i), b.fields = timeSeriesFields)
    (hg : ∀ pvs ∈ pvShards scan.windowShards.seriesPerShard
        (requestedPvValues scan.pushablePredicates), ∀ i, p.keeps toBinary64 x.time = true →
      (batchRows (answers (sliceGroup scan w p pvs i))).count x =
        if pvs.contains x.pv then c else 0) :
    (batchRows ((sliceGroups scan w p).flatMap (delivered scan answers))).count x =
      if p.keeps toBinary64 x.time then shardCount scan x.pv * c else 0 := by
  have hrows : batchRows ((sliceGroups scan w p).flatMap (delivered scan answers)) =
      (pvShards scan.windowShards.seriesPerShard
        (requestedPvValues scan.pushablePredicates)).zipIdx.flatMap fun q =>
          batchRows (delivered scan answers (sliceGroup scan w p q.1 q.2)) := by
    simp only [sliceGroups, flatMap_map, batchRows, flatMap_assoc]
  have hkept : ∀ q : List String × Nat,
      batchRows (delivered scan answers (sliceGroup scan w p q.1 q.2)) =
        (batchRows (answers (sliceGroup scan w p q.1 q.2))).filter
          fun x => p.keeps toBinary64 x.time := fun q => delivered_rows (hfields _ _)
  rw [hrows]
  by_cases hk : p.keeps toBinary64 x.time = true
  · have hshard : ∀ q ∈ (pvShards scan.windowShards.seriesPerShard
        (requestedPvValues scan.pushablePredicates)).zipIdx,
        (batchRows (delivered scan answers (sliceGroup scan w p q.1 q.2))).count x =
          if q.1.contains x.pv then c else 0 := by
      intro q hq
      rw [hkept, List.count_filter (p := fun y : Sample => p.keeps toBinary64 y.time) hk]
      exact hg q.1 (fst_mem_of_mem_zipIdx hq) q.2 hk
    have hcount : (pvShards scan.windowShards.seriesPerShard
        (requestedPvValues scan.pushablePredicates)).zipIdx.countP (fun q => q.1.contains x.pv) =
          shardCount scan x.pv := by
      unfold shardCount
      conv_rhs => rw [← zipIdx_map_fst 0 (pvShards _ _), countP_map]
      rfl
    rw [count_flatMap_ite hshard, hcount, if_pos hk]
  · rw [if_neg hk]
    refine count_eq_zero.mpr fun hm => ?_
    obtain ⟨q, -, hq⟩ := mem_flatMap.mp hm
    rw [hkept] at hq
    exact hk (mem_filter.mp hq).2

/-- **The multiplicity of a sample in the output is a product**: windows its time rounds into,
shards that hold its PV, and the multiplicity `c` with which every slice that keeps it was
answered. -/
theorem count_delivered {c : Nat} (hs : 0 < scan.windowShards.sliceNs)
    (hw : ∀ w ∈ windows, w.1 ≤ w.2)
    (hfields : ∀ w p pvs i, ∀ b ∈ answers (sliceGroup scan w p pvs i), b.fields = timeSeriesFields)
    (hg : ∀ w ∈ windows, ∀ p ∈ slices scan w, p.keeps toBinary64 x.time = true →
      ∀ pvs ∈ pvShards scan.windowShards.seriesPerShard
        (requestedPvValues scan.pushablePredicates), ∀ i,
      (batchRows (answers (sliceGroup scan w p pvs i))).count x =
        if pvs.contains x.pv then c else 0) :
    (batchRows ((plannedGroups scan windows).flatMap (delivered scan answers))).count x =
      windows.countP (roundsInto · x.time) * (shardCount scan x.pv * c) := by
  have hrows : batchRows ((plannedGroups scan windows).flatMap (delivered scan answers)) =
      windows.flatMap fun w => (slices scan w).flatMap fun p =>
        batchRows ((sliceGroups scan w p).flatMap (delivered scan answers)) := by
    simp only [plannedGroups, slices, batchRows, flatMap_assoc]
  rw [hrows]
  refine count_flatMap_ite fun w hw' => ?_
  have hslice : ∀ p ∈ slices scan w,
      (batchRows ((sliceGroups scan w p).flatMap (delivered scan answers))).count x =
        if p.keeps toBinary64 x.time then shardCount scan x.pv * c else 0 := fun p hp =>
    count_slice (hfields w p) fun pvs hpvs i hk => hg w hw' p hp hk pvs hpvs i
  rw [count_flatMap_ite hslice, (slices_cut hs (hw w hw')).countP_keeps toBinary64_mono]
  simp only [roundsInto, Bool.and_eq_true, decide_eq_true_eq]
  split <;> simp

end Count

end MldpDriver.Query
