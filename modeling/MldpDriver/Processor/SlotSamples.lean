/-
# What a slot of the input buffer holds

A slot should hold the last samples of its source, up to the depth of the buffer: in `LatestValue`
mode of the last frame, in the other modes of all frames since the last `clear`.
-/
import MldpDriver.Processor.InputBuffer

namespace MldpDriver.Processor

open Bus Lib.Directory List

variable {V : Type}

/-! ## 1. Samples -/

/-- One value of a column, with the type of the column. -/
inductive Cell (V : Type)
  | scalar (kind : ScalarKind) (value : V)
  | bytes (value : List V)
  | array (kind : ArrayKind) (value : List V)

def cells : ColumnValues V → List (Cell V)
  | .scalar kind values => values.map (Cell.scalar kind)
  | .bytes values => values.map Cell.bytes
  | .array kind values => values.map (Cell.array kind)

/-- What the columns hold at one index: names and values, and those of the enum columns. -/
def valuesAt (batch : DataBatch V) (i : Nat) :
    List (String × Option (Cell V)) × List (String × String × Option Int) :=
  (batch.columns.map fun c => (c.name, (cells c.values)[i]?),
    batch.enumColumns.map fun c => (c.name, c.enumId, c.values[i]?))

/-- A timestamp with the values that belong to it. -/
abbrev Sample (V : Type) :=
  TimestampEntry × List (String × Option (Cell V)) × List (String × String × Option Int)

def samplesOf (batch : DataBatch V) : List (Sample V) :=
  batch.timestamps.zipIdx.map fun t => (t.1, valuesAt batch t.2)

/-- Every column has one value for each timestamp. -/
structure WellShaped (batch : DataBatch V) : Prop where
  columns : ∀ c ∈ batch.columns, (cells c.values).length = batch.timestamps.length
  enumColumns : ∀ c ∈ batch.enumColumns, c.values.length = batch.timestamps.length

/-- The last samples. -/
def lastOf {α : Type} (n : Nat) (l : List α) : List α := l.drop (l.length - n)

/-- **A slot holds the last samples that it received**, one value in every column for each. -/
structure Holds (maxDepth : Nat) (received : List (Sample V)) (slot : DataBatch V) : Prop where
  samples : samplesOf slot = lastOf maxDepth received
  shape : WellShaped slot

/-- The type of a column. -/
def kindOf : ColumnValues V → ScalarKind ⊕ Unit ⊕ ArrayKind
  | .scalar kind _ => .inl kind
  | .bytes _ => .inr (.inl ())
  | .array kind _ => .inr (.inr kind)

/-- **A frame fits a slot.** -/
structure Fits (slot frame : DataBatch V) : Prop where
  /-- A frame with samples has no enum columns, and the names that the slot has. -/
  enumColumns : frame.timestamps ≠ [] → frame.enumColumns = []
  names : frame.timestamps ≠ [] → slot.timestamps ≠ [] ∨ slot.columns ≠ [] →
    slot.columns.map DataColumn.name = frame.columns.map DataColumn.name
  /-- Beside samples in the slot the types are the same, or nothing is appended. -/
  kinds : slot.timestamps ≠ [] →
    slot.columns.map (fun c => kindOf c.values) = frame.columns.map (fun c => kindOf c.values) ∨
      frame.timestamps = [] ∧ slot.columns ≠ [] ∧ slot.columns.length ≠ frame.columns.length

/-! ## 2. Appending and dropping -/

theorem length_cells (values : ColumnValues V) : (cells values).length = valueCount values := by
  cases values <;> simp [cells, valueCount]

theorem cells_dropValues (n : Nat) (values : ColumnValues V) :
    cells (dropValues n values) = (cells values).drop n := by
  cases values <;> simp [cells, dropValues]

theorem cells_appendValues (old incoming : ColumnValues V) :
    cells (appendValues old incoming) =
      if kindOf old = kindOf incoming then cells old ++ cells incoming else cells incoming := by
  cases old with
  | scalar kind values =>
    cases incoming with
    | scalar kind' values' =>
      by_cases hk : kind = kind'
      · subst hk
        simp [appendValues, kindOf, cells]
      · simp [appendValues, kindOf, cells, hk]
    | bytes => simp [appendValues, kindOf]
    | array => simp [appendValues, kindOf]
  | bytes values => cases incoming <;> simp [appendValues, kindOf, cells]
  | array kind values =>
    cases incoming with
    | array kind' values' =>
      by_cases hk : kind = kind'
      · subst hk
        simp [appendValues, kindOf, cells]
      · simp [appendValues, kindOf, cells, hk]
    | bytes => simp [appendValues, kindOf]
    | scalar => simp [appendValues, kindOf]

theorem getElem?_samplesOf (batch : DataBatch V) (i : Nat) :
    (samplesOf batch)[i]? = batch.timestamps[i]?.map fun t => (t, valuesAt batch i) := by
  rw [samplesOf, List.getElem?_map, List.getElem?_zipIdx, Option.map_map, Nat.zero_add]
  rfl

@[simp] theorem length_samplesOf (batch : DataBatch V) :
    (samplesOf batch).length = batch.timestamps.length := by
  rw [samplesOf, length_map, length_zipIdx]

theorem samplesOf_append {a b c : DataBatch V} (ht : c.timestamps = a.timestamps ++ b.timestamps)
    (hleft : ∀ i < a.timestamps.length, valuesAt c i = valuesAt a i)
    (hright : ∀ i < b.timestamps.length, valuesAt c (a.timestamps.length + i) = valuesAt b i) :
    samplesOf c = samplesOf a ++ samplesOf b := by
  refine ext_getElem? fun i => ?_
  rw [getElem?_samplesOf, ht]
  rcases Nat.lt_or_ge i a.timestamps.length with hi | hi
  · rw [List.getElem?_append_left hi, List.getElem?_append_left (by simpa using hi),
      getElem?_samplesOf, hleft i hi]
  · obtain ⟨j, rfl⟩ := Nat.exists_eq_add_of_le hi
    rw [List.getElem?_append_right hi, List.getElem?_append_right (by simp),
      length_samplesOf, Nat.add_sub_cancel_left, getElem?_samplesOf]
    rcases Nat.lt_or_ge j b.timestamps.length with hj | hj
    · rw [hright j hj]
    · rw [List.getElem?_eq_none hj]
      rfl

theorem samplesOf_drop {a b : DataBatch V} (n : Nat) (ht : b.timestamps = a.timestamps.drop n)
    (hvalues : ∀ i, valuesAt b i = valuesAt a (n + i)) : samplesOf b = (samplesOf a).drop n := by
  refine ext_getElem? fun i => ?_
  rw [getElem?_samplesOf, ht, List.getElem?_drop, List.getElem?_drop, getElem?_samplesOf, hvalues]

theorem lastOf_append_lastOf {α : Type} (n : Nat) (l m : List α) :
    lastOf n (lastOf n l ++ m) = lastOf n (l ++ m) := by
  rw [lastOf, lastOf, lastOf, ← drop_append_of_le_length (by omega), drop_drop]
  congr 1
  simp only [length_append, length_drop]
  omega

/-! ## 3. Trimming -/

/-- Every column has `n` values. -/
def Long (n : Nat) (columns : List (DataColumn V)) : Prop :=
  ∀ c ∈ columns, (cells c.values).length = n

variable {maxDepth : Nat}
variable {batch : DataBatch V}

theorem trim_of_le (h : batch.timestamps.length ≤ maxDepth) :
    trimOldestSamples maxDepth batch = batch := by
  rw [trimOldestSamples, if_pos (.inr h)]

theorem trim_holds (hmax : 1 ≤ maxDepth) (hshape : WellShaped batch)
    (henums : batch.enumColumns = [] ∨ batch.timestamps.length ≤ maxDepth) :
    Holds maxDepth (samplesOf batch) (trimOldestSamples maxDepth batch) := by
  by_cases hle : batch.timestamps.length ≤ maxDepth
  · rw [trim_of_le hle]
    refine ⟨?_, hshape⟩
    rw [lastOf, length_samplesOf, Nat.sub_eq_zero_of_le hle, drop_zero]
  have henums := henums.resolve_right hle
  have hany : ¬ batch.columns.any fun c =>
      decide (valueCount c.values ≤ batch.timestamps.length - maxDepth) := by
    simp only [any_eq_true, decide_eq_true_eq, not_exists, not_and]
    intro c hc
    rw [← length_cells, hshape.columns c hc]
    omega
  rw [trimOldestSamples, if_neg (by omega), if_neg hany]
  refine ⟨?_, ⟨fun c hc => ?_, by simp [henums]⟩⟩
  · rw [lastOf, length_samplesOf]
    refine samplesOf_drop _ rfl fun i => ?_
    simp only [valuesAt, henums, map_nil, map_map, Prod.mk.injEq, and_true]
    refine map_congr_left fun c _ => ?_
    simp only [Function.comp_apply, cells_dropValues, List.getElem?_drop]
  · obtain ⟨d, hd, rfl⟩ := mem_map.mp hc
    simp only [cells_dropValues, length_drop, hshape.columns d hd]

theorem long_of_trim (hne : (trimOldestSamples maxDepth batch).timestamps ≠ [])
    (hshape : WellShaped (trimOldestSamples maxDepth batch)) :
    Long batch.timestamps.length batch.columns := by
  intro c hc
  have hcolumns := hshape.columns
  rw [trimOldestSamples] at hne hcolumns
  split at hne
  · next hle =>
    rw [if_pos hle] at hcolumns
    exact hcolumns c hc
  · next hle =>
    simp only [if_neg hle] at hne hcolumns
    split at hne
    · exact absurd rfl hne
    · next hany =>
      simp only [if_neg hany] at hcolumns
      have hlength := hcolumns _ (mem_map_of_mem hc)
      have hlong : ¬ valueCount c.values ≤ batch.timestamps.length - maxDepth := fun h =>
        hany (any_eq_true.mpr ⟨c, hc, by simpa using h⟩)
      rw [← length_cells] at hlong
      simp only [cells_dropValues, length_drop] at hlength
      omega

theorem trim_names (maxDepth : Nat) (batch : DataBatch V) :
    (trimOldestSamples maxDepth batch).columns.map DataColumn.name =
        batch.columns.map DataColumn.name ∧
      (trimOldestSamples maxDepth batch).enumColumns = batch.enumColumns := by
  rw [trimOldestSamples]
  split
  · exact ⟨rfl, rfl⟩
  · dsimp only
    split <;> exact ⟨by rw [map_map]; rfl, rfl⟩

/-! ## 4. A frame more -/

/-- A frame at the end of a slot. -/
def joined (slot frame : DataBatch V) : DataBatch V :=
  { slot with
    columns := appendColumns slot.columns frame.columns
    timestamps := slot.timestamps ++ frame.timestamps }

def zipColumns (old incoming : List (DataColumn V)) : List (DataColumn V) :=
  List.zipWith (fun c d => { c with values := appendValues c.values d.values }) old incoming

def columnsAt (columns : List (DataColumn V)) (i : Nat) : List (String × Option (Cell V)) :=
  columns.map fun c => (c.name, (cells c.values)[i]?)

variable {old incoming : List (DataColumn V)}

/-- Columns of the same names and types are appended one by one. -/
theorem zipColumns_spec {r m : Nat} (hlength : old.length = incoming.length) (hold : Long r old)
    (hincoming : Long m incoming)
    (hkinds : 0 < r → old.map (fun c => kindOf c.values) = incoming.map fun c => kindOf c.values)
    (hnames : 0 < m → old.map DataColumn.name = incoming.map DataColumn.name) :
    Long (r + m) (zipColumns old incoming) ∧
      (∀ i < r, columnsAt (zipColumns old incoming) i = columnsAt old i) ∧
      ∀ i < m, columnsAt (zipColumns old incoming) (r + i) = columnsAt incoming i := by
  induction old generalizing incoming with
  | nil =>
    obtain rfl := length_eq_zero_iff.mp hlength.symm
    exact ⟨by simp [Long, zipColumns], fun _ _ => rfl, fun _ _ => rfl⟩
  | cons c old ih =>
    cases incoming with
    | nil => cases hlength
    | cons d incoming =>
      obtain ⟨hc, hold⟩ := forall_mem_cons.mp hold
      obtain ⟨hd, hincoming⟩ := forall_mem_cons.mp hincoming
      obtain ⟨hlong, hleft, hright⟩ := ih (Nat.succ.inj hlength) hold hincoming
        (fun h => (List.cons.inj (hkinds h)).2) fun h => (List.cons.inj (hnames h)).2
      have hcells : cells (appendValues c.values d.values) = cells c.values ++ cells d.values := by
        rw [cells_appendValues]
        split
        · rfl
        · next hne =>
          have hr : r = 0 := by
            by_contra h
            exact hne (List.cons.inj (hkinds (by omega))).1
          rw [length_eq_zero_iff.mp (hc.trans hr), nil_append]
      refine ⟨forall_mem_cons.mpr ⟨?_, hlong⟩, fun i hi => ?_, fun i hi => ?_⟩
      · rw [hcells, length_append, hc, hd]
      · refine congrArg₂ List.cons ?_ (hleft i hi)
        dsimp only
        rw [hcells, List.getElem?_append_left (by omega)]
      · refine congrArg₂ List.cons ?_ (hright i hi)
        dsimp only
        rw [hcells, List.getElem?_append_right (by omega), hc, Nat.add_sub_cancel_left,
          (List.cons.inj (hnames (by omega))).1]

theorem kinds_of_long {r m : Nat} (hr : 0 < r) (hlength : old.length = incoming.length)
    (hincoming : Long m incoming) (hlong : Long (r + m) (zipColumns old incoming)) :
    old.map (fun c => kindOf c.values) = incoming.map fun c => kindOf c.values := by
  induction old generalizing incoming with
  | nil =>
    obtain rfl := length_eq_zero_iff.mp hlength.symm
    rfl
  | cons c old ih =>
    cases incoming with
    | nil => cases hlength
    | cons d incoming =>
      obtain ⟨hd, hincoming⟩ := forall_mem_cons.mp hincoming
      obtain ⟨hhead, hlong⟩ := forall_mem_cons.mp hlong
      refine congrArg₂ List.cons ?_ (ih (Nat.succ.inj hlength) hincoming hlong)
      by_contra hne
      rw [cells_appendValues, if_neg hne, hd] at hhead
      omega

theorem zipColumns_names (hlength : old.length = incoming.length) :
    (zipColumns old incoming).map DataColumn.name = old.map DataColumn.name := by
  induction old generalizing incoming with
  | nil => rfl
  | cons c old ih =>
    cases incoming with
    | nil => cases hlength
    | cons d incoming => exact congrArg (List.cons c.name) (ih (Nat.succ.inj hlength))

theorem long_unique {n n' : Nat} {columns : List (DataColumn V)} (hne : n ≠ n')
    (h : Long n columns) (h' : Long n' columns) : columns = [] := by
  cases columns with
  | nil => rfl
  | cons c columns =>
    exact absurd ((h c (by simp)).symm.trans (h' c (by simp))) hne

theorem appendColumns_nil (incoming : List (DataColumn V)) : appendColumns [] incoming = incoming :=
  rfl

theorem appendColumns_of_length (hne : old ≠ []) :
    appendColumns old incoming =
      if old.length = incoming.length then zipColumns old incoming else old := by
  rw [appendColumns, if_neg (by simpa using hne)]
  rfl

/-- **A frame that fits a slot gives it the samples of the frame.** -/
theorem joined_spec {slot frame : DataBatch V} (hslot : WellShaped slot) (hframe : WellShaped frame)
    (henums : slot.enumColumns = []) (h : Fits slot frame) :
    samplesOf (joined slot frame) = samplesOf slot ++ samplesOf frame ∧
      WellShaped (joined slot frame) := by
  have hr : ∀ {i}, i < slot.timestamps.length → slot.timestamps ≠ [] :=
    fun hi => ne_nil_of_length_pos (by omega)
  have hm : ∀ {i}, i < frame.timestamps.length → frame.timestamps ≠ [] :=
    fun hi => ne_nil_of_length_pos (by omega)
  suffices hcolumns : Long (slot.timestamps.length + frame.timestamps.length)
        (joined slot frame).columns ∧
      (∀ i < slot.timestamps.length,
        columnsAt (joined slot frame).columns i = columnsAt slot.columns i) ∧
      ∀ i < frame.timestamps.length, columnsAt (joined slot frame).columns
        (slot.timestamps.length + i) = columnsAt frame.columns i by
    obtain ⟨hlong, hleft, hright⟩ := hcolumns
    refine ⟨samplesOf_append rfl (fun i hi => ?_) fun i hi => ?_, ⟨fun c hc => ?_, ?_⟩⟩
    · exact congrArg₂ Prod.mk (hleft i hi) rfl
    · refine congrArg₂ Prod.mk (hright i hi) ?_
      rw [joined, henums, h.enumColumns (hm hi)]
      rfl
    · exact (hlong c hc).trans length_append.symm
    · simp [joined, henums]
  rcases eq_or_ne slot.columns [] with hnil | hne
  · rw [joined, hnil, appendColumns_nil]
    by_cases hts : slot.timestamps = []
    · have hzero : slot.timestamps.length = 0 := length_eq_zero_iff.mpr hts
      rw [hzero]
      refine ⟨?_, fun i hi => absurd hi (by omega), fun i _ => ?_⟩
      · rw [Nat.zero_add]
        exact hframe.columns
      · rw [Nat.zero_add]
    · have hframenil : frame.columns = [] := by
        rcases h.kinds hts with hkinds | ⟨-, hne, -⟩
        · simpa [hnil] using hkinds.symm
        · exact absurd hnil hne
      rw [hframenil]
      exact ⟨by simp [Long], fun _ _ => rfl, fun _ _ => rfl⟩
  · rw [joined, appendColumns_of_length hne]
    by_cases hlength : slot.columns.length = frame.columns.length
    · rw [if_pos hlength]
      refine zipColumns_spec hlength hslot.columns hframe.columns (fun hpos => ?_) fun hpos => ?_
      · exact (h.kinds (hr hpos)).resolve_right fun hout => hout.2.2 hlength
      · exact h.names (hm hpos) (.inr hne)
    · rw [if_neg hlength]
      have hzero : frame.timestamps = [] := by
        by_contra hts
        have := congrArg List.length (h.names hts (.inr hne))
        simp only [length_map] at this
        exact hlength this
      rw [hzero, length_nil]
      exact ⟨hslot.columns, fun _ _ => rfl, fun i hi => absurd hi (by omega)⟩

theorem fits_of_holds {received : List (Sample V)} {slot frame : DataBatch V} (hmax : 1 ≤ maxDepth)
    (hslot : Holds maxDepth received slot) (hframe : WellShaped frame)
    (henums : slot.enumColumns = []) (h : Holds maxDepth (received ++ samplesOf frame)
      (trimOldestSamples maxDepth (joined slot frame))) : Fits slot frame := by
  obtain ⟨hnames, hkept⟩ := trim_names maxDepth (joined slot frame)
  have hcount := congrArg List.length h.samples
  have hslotcount := congrArg List.length hslot.samples
  simp only [length_samplesOf, lastOf, length_drop, length_append] at hcount hslotcount
  have hlong : slot.timestamps ≠ [] ∨ frame.timestamps ≠ [] →
      Long (slot.timestamps.length + frame.timestamps.length) (joined slot frame).columns := by
    intro hsome
    rw [← length_append]
    refine long_of_trim (ne_nil_of_length_pos ?_) h.shape
    simp only [← length_pos_iff] at hsome
    omega
  -- the last sample of the frame is in the slot
  have hlast : frame.timestamps ≠ [] → ∃ i k,
      valuesAt (trimOldestSamples maxDepth (joined slot frame)) k = valuesAt frame i := by
    intro hts
    have hlength : 0 < frame.timestamps.length := length_pos_iff.mpr hts
    have hget : (samplesOf (trimOldestSamples maxDepth (joined slot frame))).getLast? =
        (samplesOf frame).getLast? := by
      rw [h.samples, lastOf, List.getLast?_drop, if_neg (by simp; omega), List.getLast?_append]
      rw [List.getLast?_eq_some_getLast (ne_nil_of_length_pos (by simpa using hlength))]
      rfl
    simp only [List.getLast?_eq_getElem?, getElem?_samplesOf] at hget
    rw [List.getElem?_eq_getElem (show (samplesOf frame).length - 1 < frame.timestamps.length by
      simp; omega)] at hget
    obtain ⟨t, -, ht⟩ := Option.map_eq_some_iff.mp hget
    exact ⟨_, _, congrArg Prod.snd ht⟩
  refine ⟨fun hts => ?_, fun hts hsome => ?_, fun hts => ?_⟩
  · obtain ⟨i, k, hvalues⟩ := hlast hts
    have := congrArg Prod.snd hvalues
    rw [valuesAt, hkept.trans henums] at this
    exact map_eq_nil_iff.mp this.symm
  · obtain ⟨i, k, hvalues⟩ := hlast hts
    have hsame : (joined slot frame).columns.map DataColumn.name =
        frame.columns.map DataColumn.name := by
      rw [← hnames]
      simpa [valuesAt, Function.comp_def] using congrArg (fun v => v.1.map Prod.fst) hvalues
    rw [← hsame]
    rcases eq_or_ne slot.columns [] with hnil | hne
    · have hpos := length_pos_iff.mpr (hsome.resolve_right (not_not.mpr hnil))
      have hlong := hlong (.inr hts)
      rw [joined, hnil, appendColumns_nil] at hlong
      rw [joined, hnil, appendColumns_nil]
      exact congrArg _ (long_unique (by omega) hframe.columns hlong).symm
    · rw [joined, appendColumns_of_length hne]
      dsimp only
      split
      · next hlength => exact (zipColumns_names hlength).symm
      · rfl
  · have hpos := length_pos_iff.mpr hts
    have hlong := hlong (.inl hts)
    rcases eq_or_ne slot.columns [] with hnil | hne
    · rw [joined, hnil, appendColumns_nil] at hlong
      exact .inl (by rw [hnil, long_unique (by omega) hframe.columns hlong])
    · rw [joined, appendColumns_of_length hne] at hlong
      dsimp only at hlong
      split at hlong
      · next hlength => exact .inl (kinds_of_long hpos hlength hframe.columns hlong)
      · next hlength =>
        refine .inr ⟨?_, hne, hlength⟩
        by_contra hframets
        have hpos' := length_pos_iff.mpr hframets
        exact hne (long_unique (by omega) hslot.shape.columns hlong)

/-! ## 5. The slots of a buffer -/

@[simp] theorem slot_put (b : InputBuffer V) (source s : String) (batch : DataBatch V) :
    { b with slots := put b.slots source batch }.slot s =
      if s = source then batch else b.slot s := by
  rw [InputBuffer.slot, lookup_put]
  split <;> rfl

theorem addFrame_slot (b : InputBuffer V) (source s : String) (frame : DataBatch V) :
    (b.addFrame source frame).slot s =
      if s = source then trimOldestSamples b.maxDepth (joined (b.slot source) frame)
      else b.slot s :=
  slot_put b source s _

variable {source : String}

/-- **A frame leaves a slot as it should be exactly if it fits.** -/
theorem addFrame_holds_iff {b : InputBuffer V} {received : List (Sample V)} {frame : DataBatch V}
    (hmax : 1 ≤ b.maxDepth) (hslot : Holds b.maxDepth received (b.slot source))
    (henums : (b.slot source).enumColumns = []) (hframe : WellShaped frame) :
    Holds b.maxDepth (received ++ samplesOf frame) ((b.addFrame source frame).slot source) ↔
      Fits (b.slot source) frame := by
  rw [addFrame_slot, if_pos rfl]
  refine ⟨fits_of_holds hmax hslot hframe henums, fun hfits => ?_⟩
  obtain ⟨hsamples, hshape⟩ := joined_spec hslot.shape hframe henums hfits
  have hholds := trim_holds hmax hshape (.inl henums)
  rw [hsamples, hslot.samples] at hholds
  exact ⟨hholds.samples.trans (lastOf_append_lastOf _ _ _), hholds.shape⟩

/-- What happens to a buffer. -/
inductive BufferEvent (V : Type)
  | ingest (source : String) (payload : TimeSeriesPayload V)
  | snapshot (trigger : TriggerPolicy)
  | resetFreshFlags
  | clear

def InputBuffer.after (b : InputBuffer V) : BufferEvent V → InputBuffer V
  | .ingest source payload => b.ingest source payload
  | .snapshot _ => b
  | .resetFreshFlags => b.resetFreshFlags
  | .clear => b.clear

/-- The source is one that was asked for. -/
def InputBuffer.accepts (b : InputBuffer V) (source : String) : Bool :=
  b.requiredSources.isEmpty || b.requiredSources.contains source

/-- The samples that a slot should have the last of: of the last frame in `LatestValue` mode, of all
frames since the last `clear` in the others. -/
def taken (b : InputBuffer V) (source : String) (received : List (Sample V)) :
    BufferEvent V → List (Sample V)
  | .ingest s payload =>
    if s = source ∧ b.accepts s then
      if b.alignment = .latestValue then (payload.frames.getLast?.map samplesOf).getD received
      else received ++ payload.frames.flatMap samplesOf
    else received
  | .clear => []
  | .snapshot _ | .resetFreshFlags => received

/-- Each frame fits the slot as the frames before it left it. -/
def FitAll (source : String) : InputBuffer V → List (DataBatch V) → Prop
  | _, [] => True
  | b, frame :: frames => Fits (b.slot source) frame ∧ FitAll source (b.addFrame source frame) frames

/-- **What a payload must be like.** -/
def Admits (b : InputBuffer V) : BufferEvent V → Prop
  | .ingest source payload => b.accepts source →
    if b.alignment = .latestValue then ∀ last ∈ payload.frames.getLast?,
      last.enumColumns = [] ∨ last.timestamps.length ≤ b.maxDepth
    else FitAll source b payload.frames
  | _ => True

/-- Every step of a run. -/
def AdmitsAll : InputBuffer V → List (BufferEvent V) → Prop
  | _, [] => True
  | b, event :: events => Admits b event ∧ AdmitsAll (b.after event) events

/-- The settings of `b`, and slots as they should be. -/
structure Keeps (b₀ b : InputBuffer V) (received : String → List (Sample V)) : Prop where
  requiredSources : b.requiredSources = b₀.requiredSources
  alignment : b.alignment = b₀.alignment
  maxDepth : b.maxDepth = b₀.maxDepth
  holds : ∀ source, Holds b₀.maxDepth (received source) (b.slot source)
  enumColumns : b.alignment ≠ .latestValue → ∀ source, (b.slot source).enumColumns = []

variable {b₀ b : InputBuffer V} {received : String → List (Sample V)}

theorem holds_empty (maxDepth : Nat) :
    Holds maxDepth ([] : List (Sample V)) ({ timestamps := [] } : DataBatch V) :=
  ⟨drop_nil.symm, by simp, by simp⟩

theorem Keeps.congr {received' : String → List (Sample V)} (h : Keeps b₀ b received)
    (heq : ∀ source, received source = received' source) : Keeps b₀ b received' :=
  funext heq ▸ h

theorem Keeps.addFrame {frame : DataBatch V} (h : Keeps b₀ b received)
    (hmode : b.alignment ≠ .latestValue) (hmax : 1 ≤ b₀.maxDepth) (hframe : WellShaped frame)
    (hfits : Fits (b.slot source) frame) :
    Keeps b₀ (b.addFrame source frame) fun s =>
      if s = source then received s ++ samplesOf frame else received s := by
  refine ⟨h.requiredSources, h.alignment, h.maxDepth, fun s => ?_, fun _ s => ?_⟩
  · by_cases hs : s = source
    · subst hs
      rw [if_pos rfl, ← h.maxDepth, addFrame_holds_iff (by rw [h.maxDepth]; exact hmax)
        (by rw [h.maxDepth]; exact h.holds s) (h.enumColumns hmode s) hframe]
      exact hfits
    · rw [if_neg hs, addFrame_slot, if_neg hs]
      exact h.holds s
  · rw [addFrame_slot]
    split
    · exact (trim_names _ _).2.trans (h.enumColumns hmode source)
    · exact h.enumColumns hmode s

theorem Keeps.addFrames {frames : List (DataBatch V)} (h : Keeps b₀ b received)
    (hmode : b.alignment ≠ .latestValue) (hmax : 1 ≤ b₀.maxDepth)
    (hframes : ∀ frame ∈ frames, WellShaped frame) (hfits : FitAll source b frames) :
    Keeps b₀ (frames.foldl (fun b frame => b.addFrame source frame) b) fun s =>
      if s = source then received s ++ frames.flatMap samplesOf else received s := by
  induction frames generalizing b received with
  | nil => simpa using h
  | cons frame frames ih =>
    obtain ⟨hframe, hframes⟩ := forall_mem_cons.mp hframes
    have hrest := ih (h.addFrame hmode hmax hframe hfits.1) hmode hframes hfits.2
    refine hrest.congr fun s => ?_
    by_cases hs : s = source
    · simp [hs]
    · simp [hs]

/-- The source is seen, if no sources were asked for. -/
def InputBuffer.see (b : InputBuffer V) (source : String) : InputBuffer V :=
  if b.requiredSources.isEmpty then { b with seenSources := b.seenSources.insert source } else b

/-- The slots after a payload with frames. -/
def InputBuffer.store (b : InputBuffer V) (source : String) (frames : List (DataBatch V))
    (last : DataBatch V) : InputBuffer V :=
  if b.alignment = .latestValue then
    { b with slots := put b.slots source (trimOldestSamples b.maxDepth last) }
  else frames.foldl (fun b frame => b.addFrame source frame) b

/-- What `ingest` does, by cases. -/
theorem ingest_eq (b : InputBuffer V) (source : String) (payload : TimeSeriesPayload V) :
    b.ingest source payload =
      if b.accepts source then
        match payload.frames.getLast? with
        | none => b.see source
        | some last =>
          { (b.see source).store source payload.frames last with
            fresh := ((b.see source).store source payload.frames last).fresh.insert source }
      else b := by
  have hguard : (!b.requiredSources.isEmpty && !b.requiredSources.contains source) =
      !b.accepts source := by
    rw [InputBuffer.accepts, Bool.not_or]
  rw [InputBuffer.ingest, hguard]
  cases b.accepts source with
  | false => rfl
  | true =>
    cases payload.frames.getLast? with
    | none => rfl
    | some last =>
      obtain ⟨slots, fresh, requiredSources, seenSources, alignment, maxDepth⟩ := b
      cases requiredSources <;> cases alignment <;> rfl

theorem Keeps.see (h : Keeps b₀ b received) (source : String) : Keeps b₀ (b.see source) received := by
  rw [InputBuffer.see]
  split
  · exact ⟨h.requiredSources, h.alignment, h.maxDepth, h.holds, h.enumColumns⟩
  · exact h

theorem fitAll_congr {frames : List (DataBatch V)} {b b' : InputBuffer V}
    (hslot : ∀ s, b.slot s = b'.slot s) (hmax : b.maxDepth = b'.maxDepth) :
    FitAll source b frames ↔ FitAll source b' frames := by
  induction frames generalizing b b' with
  | nil => exact Iff.rfl
  | cons frame frames ih =>
    have hframe : ∀ s, (b.addFrame source frame).slot s = (b'.addFrame source frame).slot s := by
      intro s
      rw [addFrame_slot, addFrame_slot, hslot, hslot, hmax]
    rw [FitAll, FitAll, hslot, ih hframe hmax]

theorem see_frame (b : InputBuffer V) (source : String) : (b.see source).slots = b.slots ∧
    (b.see source).alignment = b.alignment ∧ (b.see source).maxDepth = b.maxDepth := by
  rw [InputBuffer.see]
  split <;> exact ⟨rfl, rfl, rfl⟩

/-- **A payload.** -/
theorem Keeps.ingest {payload : TimeSeriesPayload V} (h : Keeps b₀ b received)
    (hmax : 1 ≤ b₀.maxDepth) (hframes : ∀ frame ∈ payload.frames, WellShaped frame)
    (hadmits : Admits b (.ingest source payload)) :
    Keeps b₀ (b.ingest source payload) fun s =>
      taken b₀ s (received s) (.ingest source payload) := by
  have haccepts : b₀.accepts source = b.accepts source := by
    rw [InputBuffer.accepts, InputBuffer.accepts, h.requiredSources]
  rw [ingest_eq]
  split
  · next hacc =>
    have hsee := h.see source
    obtain ⟨hslots, hmode, hdepth⟩ := see_frame b source
    have hadmits := hadmits hacc
    cases hlast : payload.frames.getLast? with
    | none =>
      have hnil := List.getLast?_eq_none_iff.mp hlast
      refine hsee.congr fun s => ?_
      rw [taken, hnil]
      split
      · cases b₀.alignment <;> simp
      · rfl
    | some last =>
      suffices hstore : Keeps b₀ ((b.see source).store source payload.frames last) fun s =>
          taken b₀ s (received s) (.ingest source payload) from
        ⟨hstore.requiredSources, hstore.alignment, hstore.maxDepth, hstore.holds,
          hstore.enumColumns⟩
      rw [InputBuffer.store]
      by_cases hlatest : (b.see source).alignment = .latestValue
      · have hlatest₀ := hlatest.symm.trans hsee.alignment
        rw [if_pos (hmode.symm.trans hlatest)] at hadmits
        rw [if_pos hlatest]
        refine ⟨hsee.requiredSources, hsee.alignment, hsee.maxDepth, fun s => ?_,
          fun hne => absurd hlatest hne⟩
        rw [slot_put, taken, haccepts, if_pos hlatest₀.symm, hlast]
        by_cases hs : s = source
        · rw [if_pos hs, if_pos ⟨hs.symm, hacc⟩, hsee.maxDepth]
          rw [← h.maxDepth] at hmax ⊢
          exact trim_holds hmax (hframes last (mem_of_getLast? hlast)) (hadmits last hlast)
        · rw [if_neg hs, if_neg fun hout => hs hout.1.symm]
          exact hsee.holds s
      · rw [if_neg fun hb => hlatest (hmode.trans hb)] at hadmits
        have hfit := (fitAll_congr (b := b.see source) (fun s => by
          rw [InputBuffer.slot, hslots, InputBuffer.slot]) hdepth).mpr hadmits
        rw [if_neg hlatest]
        refine (hsee.addFrames hlatest hmax hframes hfit).congr fun s => ?_
        rw [taken, haccepts, if_neg fun hb => hlatest (hsee.alignment.trans hb)]
        simp [hacc, eq_comm]
  · next hacc =>
    refine h.congr fun s => ?_
    rw [taken, haccepts, if_neg fun hout => hacc hout.2]

/-- **In every run whose frames fit, every slot holds the last samples that its source received.**
A frame FITS a slot if, where both have samples, their columns have the same names and types, and
if it has no enum columns, which are never appended; a frame that is added leaves the slot as it
should be exactly if it fits (`addFrame_holds_iff`). -/
theorem slots_hold {events : List (BufferEvent V)} (hnew : b.Empty) (hmax : 1 ≤ b.maxDepth)
    (hshape : ∀ source payload, .ingest source payload ∈ events →
      ∀ frame ∈ payload.frames, WellShaped frame)
    (hadmits : AdmitsAll b events) (source : String) :
    Holds b.maxDepth (events.foldl (taken b source) []) ((events.foldl .after b).slot source) := by
  suffices h : ∀ b' received, Keeps b b' received → AdmitsAll b' events →
      Keeps b (events.foldl .after b') fun s => events.foldl (taken b s) (received s) by
    refine (h b (fun _ => []) ⟨rfl, rfl, rfl, fun s => ?_, fun _ s => ?_⟩ hadmits).holds source
    · rw [InputBuffer.slot, hnew.slots]
      exact holds_empty _
    · rw [InputBuffer.slot, hnew.slots]
      rfl
  clear hadmits
  intro b' received hb' hadmits
  induction events generalizing b' received with
  | nil => exact hb'
  | cons event events ih =>
    have htail := fun source payload hmem =>
      hshape source payload (mem_cons_of_mem event hmem)
    suffices hstep : Keeps b (b'.after event) fun s => taken b s (received s) event from
      ih htail _ _ hstep hadmits.2
    cases event with
    | ingest source payload =>
      exact hb'.ingest hmax (hshape source payload mem_cons_self) hadmits.1
    | snapshot => exact hb'
    | resetFreshFlags =>
      exact ⟨hb'.requiredSources, hb'.alignment, hb'.maxDepth, hb'.holds, hb'.enumColumns⟩
    | clear =>
      exact ⟨hb'.requiredSources, hb'.alignment, hb'.maxDepth, fun _ => holds_empty _,
        fun _ _ => rfl⟩

/-! ## 6. A column that comes later -/

/-- A buffer of four samples for source `s`. -/
def fourDeep : InputBuffer Nat where
  requiredSources := ["s"]
  alignment := .allUpdated
  maxDepth := 4

/-- A sample of one column. -/
def oneColumn (second : Nat) : DataBatch Nat where
  timestamps := [⟨second, 0⟩]
  columns := [⟨"x", .scalar .double [second], []⟩]

/-- A sample of two columns. -/
def twoColumns (second : Nat) : DataBatch Nat where
  timestamps := [⟨second, 0⟩]
  columns := [⟨"x", .scalar .double [second], []⟩, ⟨"y", .scalar .double [second], []⟩]

theorem oneColumn_wellShaped (second : Nat) : WellShaped (oneColumn second) :=
  ⟨by simp [oneColumn, cells], by simp [oneColumn]⟩

def delivery (frames : List (DataBatch Nat)) : List (BufferEvent Nat) :=
  [.ingest "s" { rootSourceName := "s", frames := frames }]

/-- Three samples in two deliveries; the slot keeps the last two. -/
def threeSamples : List (BufferEvent Nat) :=
  delivery [oneColumn 1, oneColumn 2] ++ delivery [oneColumn 3]

def twoDeep : InputBuffer Nat := { fourDeep with maxDepth := 2 }

theorem twoDeep_holds :
    Holds 2 (threeSamples.foldl (taken twoDeep "s") [])
      ((threeSamples.foldl .after twoDeep).slot "s") := by
  have hlater : ∀ slot : DataBatch Nat, ∀ second,
      slot.columns.map DataColumn.name = ["x"] →
      slot.columns.map (fun c => kindOf c.values) = [.inl .double] → Fits slot (oneColumn second) :=
    fun _ _ hnames hkinds => ⟨fun _ => rfl, fun _ _ => hnames, fun _ => .inl hkinds⟩
  have hadmits : AdmitsAll twoDeep threeSamples := by
    refine ⟨fun _ => ?_, fun _ => ?_, trivial⟩
    · rw [if_neg (by decide)]
      exact ⟨⟨fun _ => rfl, fun _ hsome => absurd hsome (by decide), fun hts => absurd rfl hts⟩,
        hlater _ 2 rfl rfl, trivial⟩
    · rw [if_neg (by decide)]
      exact ⟨hlater _ 3 rfl rfl, trivial⟩
  refine slots_hold (b := twoDeep) ⟨rfl, rfl, rfl⟩ (by decide) ?_ hadmits "s"
  intro source payload hmem frame hframe
  have hof : ∃ second, frame = oneColumn second := by
    simp only [threeSamples, delivery, cons_append, nil_append, mem_cons,
      BufferEvent.ingest.injEq, not_mem_nil, or_false] at hmem
    rcases hmem with ⟨-, rfl⟩ | ⟨-, rfl⟩
    · rcases mem_cons.mp hframe with rfl | hframe
      · exact ⟨1, rfl⟩
      · exact ⟨2, mem_singleton.mp hframe⟩
    · exact ⟨3, mem_singleton.mp hframe⟩
  obtain ⟨second, rfl⟩ := hof
  exact oneColumn_wellShaped second

/-- **The second sample has a column more, and its values are dropped.** -/
theorem laterColumn_not_holds :
    WellShaped (oneColumn 1) ∧ WellShaped (twoColumns 2) ∧
      ¬ Holds 4 ((delivery [oneColumn 1, twoColumns 2]).foldl (taken fourDeep "s") [])
        (((delivery [oneColumn 1, twoColumns 2]).foldl .after fourDeep).slot "s") := by
  refine ⟨oneColumn_wellShaped 1, ⟨by simp [twoColumns, cells], by simp [twoColumns]⟩, fun h => ?_⟩
  have hslot : ((delivery [oneColumn 1, twoColumns 2]).foldl .after fourDeep).slot "s" =
      { oneColumn 1 with timestamps := [⟨1, 0⟩, ⟨2, 0⟩] } := rfl
  rw [hslot] at h
  exact absurd (h.shape.columns _ mem_cons_self) (by decide)

end MldpDriver.Processor
