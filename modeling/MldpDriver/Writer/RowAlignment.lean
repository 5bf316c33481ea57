/-
# Rows and timestamps in the HDF5 files

Every column dataset of a group should have one row for each row of `timestamps`, the value sampled
at that time (`Aligned`).  The writer keeps this for a batch that is one SAMPLING of its source: the
columns of all its frames together have one row for each timestamp of the first frame, every column
the group has is among them and a new one joins only a group without timestamps (`OneSampling`), and
the file is not rotated while columns are still to come (`Balanced`).
-/
import MldpDriver.Lib.Run
import MldpDriver.Writer.HDF5Writer

namespace MldpDriver.Writer

open Bus Lib.AppendTable Lib.Run List

variable {V : Type}

/-! ## 1. Alignment -/

/-- **One row for each timestamp**, and each row the value sampled at its timestamp. -/
structure RowsMatch (times rows : List (StoredRow V)) : Prop where
  length : rows.length = times.length
  row : ∀ (i : Nat) (r t : StoredRow V), rows[i]? = some r → times[i]? = some t →
    r.time = t.time ∧ r.cell = r.sampled

/-- Every column dataset of a group matches its timestamps. -/
def Aligned (group : H5Group V) : Prop :=
  ∀ name d, name ≠ "timestamps" → group name = some d →
    RowsMatch (rowsOf group "timestamps") d.rows

/-- All groups of all files, open and closed. -/
structure HDF5Files.AllAligned (s : HDF5Files V) : Prop where
  current : ∀ source, Aligned (s.current source)
  closed : ∀ file ∈ s.closed, ∀ source, Aligned (file source)

theorem rowsMatch_iff {times rows : List (StoredRow V)} : RowsMatch times rows ↔
    rows.map (·.time) = times.map (·.time) ∧ ∀ r ∈ rows, r.cell = r.sampled := by
  constructor
  · rintro ⟨hlen, hrow⟩
    refine ⟨ext_getElem (by simpa using hlen) fun i hi hi' => ?_, fun r hr => ?_⟩
    · simp only [length_map] at hi hi'
      simp only [getElem_map]
      exact (hrow i _ _ (List.getElem?_eq_getElem hi) (List.getElem?_eq_getElem hi')).1
    · obtain ⟨i, hi, rfl⟩ := mem_iff_getElem.mp hr
      have hi' : i < times.length := hlen ▸ hi
      exact (hrow i _ _ (List.getElem?_eq_getElem hi) (List.getElem?_eq_getElem hi')).2
  · rintro ⟨htimes, hcells⟩
    refine ⟨by simpa using congrArg List.length htimes, fun i r t hr ht => ⟨?_, ?_⟩⟩
    · have hmap : (rows.map (·.time))[i]? = (times.map (·.time))[i]? := by rw [htimes]
      rw [List.getElem?_map, List.getElem?_map, hr, ht] at hmap
      exact Option.some.inj hmap
    · exact hcells r (mem_of_getElem? hr)

theorem RowsMatch.append {times rows times' rows' : List (StoredRow V)} (h : RowsMatch times rows)
    (h' : RowsMatch times' rows') : RowsMatch (times ++ times') (rows ++ rows') := by
  rw [rowsMatch_iff] at *
  refine ⟨by simp [h.1, h'.1], fun r hr => ?_⟩
  rcases mem_append.mp hr with hr | hr
  · exact h.2 r hr
  · exact h'.2 r hr

theorem aligned_empty : Aligned (fun _ => none : H5Group V) := by
  intro name d _ h
  cases h

theorem aligned_update {file : H5File V} (h : ∀ source, Aligned (file source)) {source : String}
    {group : H5Group V} (hg : Aligned group) :
    ∀ other, Aligned (Function.update file source group other) := by
  intro other
  by_cases ho : other = source
  · subst ho
    rwa [Function.update_self]
  · rw [Function.update_of_ne ho]
    exact h other

/-- **A rotation closes aligned files.** -/
theorem HDF5Files.AllAligned.rotate {s : HDF5Files V} (h : s.AllAligned) (mode : HDF5Mode)
    (source : String) : (s.rotate mode source).AllAligned := by
  have hnone : ∀ _ : String, Aligned (fun _ => none : H5Group V) := fun _ => aligned_empty
  cases mode with
  | perSource =>
    refine ⟨aligned_update h.current aligned_empty, fun file hf => ?_⟩
    rcases mem_append.mp hf with hf | hf
    · exact h.closed file hf
    · rw [mem_singleton.mp hf]
      exact aligned_update hnone (h.current source)
  | merge =>
    refine ⟨hnone, fun file hf => ?_⟩
    rcases mem_append.mp hf with hf | hf
    · exact h.closed file hf
    · rw [mem_singleton.mp hf]
      exact h.current

/-! ## 2. One sampling -/

/-- The columns are one sampling at the timestamps, for a group as it is. -/
structure OneSampling (lib : Hdf5 V) (group : H5Group V) (timestamps : List TimestampEntry)
    (columns : List (H5Chunk V)) : Prop where
  /-- No column changes its type or its width. -/
  fits : Fits group (timestampChunk lib timestamps :: columns)
  /-- No column is named like the timestamps. -/
  names : ∀ c ∈ columns, c.key ≠ "timestamps"
  /-- Every column of the group and of the batch has just one unchanged value for each timestamp. -/
  rows : ∀ name, name ≠ "timestamps" → (group name ≠ none ∨ ∃ c ∈ columns, c.key = name) →
    (chunkRows name columns).map (·.time) = timestamps.map some ∧
      ∀ r ∈ chunkRows name columns, r.cell = r.sampled
  /-- A new column joins only a group without timestamps. -/
  fresh : ∀ c ∈ columns, group c.key = none → rowsOf group "timestamps" = []

/-- **One sampling keeps a group aligned.** -/
theorem OneSampling.aligned {lib : Hdf5 V} {group : H5Group V} {timestamps : List TimestampEntry}
    {columns : List (H5Chunk V)} (h : OneSampling lib group timestamps columns)
    (hg : Aligned group) :
    Aligned (appendAll lib.mismatch group (timestampChunk lib timestamps :: columns)).1 := by
  obtain ⟨-, hrows, hsome⟩ := @appendAll_fits _ _ _ _ _ lib.mismatch _ _ h.fits
  intro name d hname hd
  have hkey : (timestampChunk lib timestamps).key = "timestamps" := rfl
  have hne : ¬ (timestampChunk lib timestamps).key = name := fun he => hname (he ▸ hkey.symm ▸ rfl)
  have htimes := hrows "timestamps"
  have hcolumn := hrows name
  rw [chunkRows_cons, if_pos hkey, chunkRows_of_not_mem h.names, append_nil] at htimes
  rw [chunkRows_cons, if_neg hne, nil_append, rowsOf, hd, Option.elim_some] at hcolumn
  rw [htimes, hcolumn]
  have hpresent : group name ≠ none ∨ ∃ c ∈ columns, c.key = name := by
    rcases (hsome name).mp (by simp [hd]) with hg | ⟨c, hc, hcn⟩
    · exact Or.inl hg
    · rcases mem_cons.mp hc with rfl | hc
      · exact absurd hcn hne
      · exact Or.inr ⟨c, hc, hcn⟩
  obtain ⟨htime, hcell⟩ := h.rows name hname hpresent
  have hnew : RowsMatch (timestampChunk lib timestamps).rows (chunkRows name columns) := by
    refine rowsMatch_iff.mpr ⟨?_, hcell⟩
    rw [htime]
    simp [timestampChunk]
  cases hold : group name with
  | some d₀ =>
    have hrow : rowsOf group name = d₀.rows := by simp [rowsOf, hold]
    rw [hrow]
    exact (hg name d₀ hname hold).append hnew
  | none =>
    -- a new column: the group had no timestamps
    have hempty : rowsOf group "timestamps" = [] := by
      rcases hpresent with hp | ⟨c, hc, rfl⟩
      · exact absurd hold hp
      · exact h.fresh c hc hold
    have hrow : rowsOf group name = [] := by simp [rowsOf, hold]
    rw [hempty, hrow]
    exact hnew

/-- What a frame writes to columns; a frame without timestamps is skipped. -/
def frameWrites (lib : Hdf5 V) (frame : DataBatch V) : Option (List (H5Chunk V)) :=
  if frame.timestamps.isEmpty then some [] else frameChunks lib frame

/-- **A batch the writer can write.**  Either no frame has a timestamp, or up to the last column
written after the first frame with timestamps there is no rotation, and the columns of these frames
are one sampling at the timestamps of the first. -/
inductive Balanced (lib : Hdf5 V) (mode : HDF5Mode) (source : String) (group : H5Group V) :
    List (DataBatch V × Bool) → Prop
  | empty (frames : List (DataBatch V × Bool)) (h : ∀ p ∈ frames, p.1.timestamps = []) :
      Balanced lib mode source group frames
  | sampling (skipped : List (DataBatch V × Bool)) (first : DataBatch V) (due : Bool)
      (during after : List (DataBatch V × Bool)) (columns : List (List (H5Chunk V)))
      (hskipped : ∀ p ∈ skipped, p.1.timestamps = [])
      (hfirst : first.timestamps ≠ [])
      (hsource : mode = .merge → plainName source = true)
      (hduring : ∀ p ∈ during, rotates mode p.1 p.2 = false)
      (hafter : ∀ p ∈ after, frameWrites lib p.1 = some [])
      (hcolumns : (first :: during.map Prod.fst).mapM (frameWrites lib) = some columns)
      (hsampling : OneSampling lib
        (if (skipped ++ [(first, due)]).any (fun p => rotates mode p.1 p.2) then fun _ => none
          else group) first.timestamps columns.flatten) :
      Balanced lib mode source group (skipped ++ (first, due) :: (during ++ after))

/-! ## 3. The frames of a batch -/

/-- The files with another group for a source. -/
def HDF5Files.put (s : HDF5Files V) (source : String) (group : H5Group V) : HDF5Files V :=
  { s with current := Function.update s.current source group }

@[simp] theorem HDF5Files.put_current (s : HDF5Files V) (source : String) (group : H5Group V) :
    (s.put source group).current source = group := by
  simp [HDF5Files.put]

@[simp] theorem HDF5Files.put_lastTsBatchSeq (s : HDF5Files V) (source : String)
    (group : H5Group V) : (s.put source group).lastTsBatchSeq = s.lastTsBatchSeq := rfl

@[simp] theorem HDF5Files.put_put (s : HDF5Files V) (source : String) (group group' : H5Group V) :
    (s.put source group).put source group' = s.put source group' := by
  simp [HDF5Files.put]

@[simp] theorem HDF5Files.put_self (s : HDF5Files V) (source : String) :
    s.put source (s.current source) = s := by
  simp [HDF5Files.put]

/-- The files after the rotations that come with a frame. -/
def rotatedBy (mode : HDF5Mode) (source : String) (p : DataBatch V × Bool) (s : HDF5Files V) :
    HDF5Files V :=
  if rotates mode p.1 p.2 then s.rotate mode source else s

@[simp] theorem rotatedBy_lastTsBatchSeq (mode : HDF5Mode) (source : String)
    (p : DataBatch V × Bool) (s : HDF5Files V) :
    (rotatedBy mode source p s).lastTsBatchSeq = s.lastTsBatchSeq := by
  unfold rotatedBy
  split
  · cases mode <;> rfl
  · rfl

theorem rotatedBy_current (mode : HDF5Mode) (source : String) (p : DataBatch V × Bool)
    (s : HDF5Files V) : (rotatedBy mode source p s).current source =
      if rotates mode p.1 p.2 then fun _ => none else s.current source := by
  unfold rotatedBy
  split
  · cases mode <;> simp [HDF5Files.rotate, H5Files.rotate]
  · rfl

theorem HDF5Files.AllAligned.rotatedBy {s : HDF5Files V} (h : s.AllAligned) (mode : HDF5Mode)
    (source : String) (p : DataBatch V × Bool) : (rotatedBy mode source p s).AllAligned := by
  unfold Writer.rotatedBy
  split
  · exact h.rotate mode source
  · exact h

section Frames

variable {lib : Hdf5 V} {mode : HDF5Mode} {source : String} {batchSeq : Nat}

theorem writeFrames_append (frames more : List (DataBatch V × Bool)) (s : HDF5Files V) :
    s.writeFrames lib mode source batchSeq (frames ++ more) =
      match s.writeFrames lib mode source batchSeq frames with
      | .done s => s.writeFrames lib mode source batchSeq more
      | .threw s => .threw s
      | .undefined => .undefined := by
  induction frames generalizing s with
  | nil => rfl
  | cons p frames ih =>
    obtain ⟨frame, due⟩ := p
    simp only [cons_append, HDF5Files.writeFrames]
    cases s.writeFrame lib mode source batchSeq frame due with
    | done s' => exact ih s'
    | threw s' => rfl
    | undefined => rfl

theorem writeFrame_of_timestamps (hsource : mode = .merge → plainName source = true)
    {p : DataBatch V × Bool} (hp : p.1.timestamps ≠ []) (s : HDF5Files V) :
    s.writeFrame lib mode source batchSeq p.1 p.2 =
      (rotatedBy mode source p s).append lib source batchSeq p.1 := by
  have hempty : p.1.timestamps.isEmpty = false := by simpa using hp
  have hplain : ¬ (mode = .merge ∧ plainName source = false) := fun ⟨hm, hn⟩ => by
    rw [hsource hm] at hn
    cases hn
  rw [HDF5Files.writeFrame, hempty, if_neg hplain]
  rfl

theorem writeFrame_of_empty {p : DataBatch V × Bool} (hp : p.1.timestamps = []) (s : HDF5Files V) :
    s.writeFrame lib mode source batchSeq p.1 p.2 = .done (rotatedBy mode source p s) := by
  have hempty : p.1.timestamps.isEmpty = true := by simp [hp]
  rw [HDF5Files.writeFrame, hempty]
  rfl

/-- **A frame after the timestamps of its batch** only appends its columns. -/
theorem writeFrame_columns (hsource : mode = .merge → plainName source = true)
    {p : DataBatch V × Bool} {s : HDF5Files V} {columns : List (H5Chunk V)}
    (hlast : s.lastTsBatchSeq source = some batchSeq) (hw : frameWrites lib p.1 = some columns)
    (hok : (appendAll lib.mismatch ((rotatedBy mode source p s).current source) columns).2 = true) :
    s.writeFrame lib mode source batchSeq p.1 p.2 = .done ((rotatedBy mode source p s).put source
      (appendAll lib.mismatch ((rotatedBy mode source p s).current source) columns).1) := by
  by_cases hp : p.1.timestamps = []
  · have hnone : columns = [] := by simpa [frameWrites, hp, eq_comm] using hw
    subst hnone
    rw [writeFrame_of_empty hp]
    simp [appendAll]
  · have hchunks : frameChunks lib p.1 = some columns := by simpa [frameWrites, hp] using hw
    rw [writeFrame_of_timestamps hsource hp]
    have hl : (rotatedBy mode source p s).lastTsBatchSeq source = some batchSeq := by
      simpa using hlast
    generalize rotatedBy mode source p s = s' at hok hl ⊢
    obtain ⟨group, hgroup⟩ : ∃ group, appendAll lib.mismatch (s'.current source) columns =
        (group, true) := ⟨_, Prod.ext rfl hok⟩
    have hself : Function.update s'.lastTsBatchSeq source (some batchSeq) = s'.lastTsBatchSeq := by
      rw [← hl, Function.update_eq_self]
    simp [HDF5Files.append, hchunks, hl, hself, appendAll, hgroup, HDF5Files.put]

/-- **The first frame with timestamps** appends them, then its columns. -/
theorem writeFrame_first (hsource : mode = .merge → plainName source = true)
    {p : DataBatch V × Bool} {s : HDF5Files V} {columns : List (H5Chunk V)}
    (hp : p.1.timestamps ≠ []) (hlast : s.lastTsBatchSeq source ≠ some batchSeq)
    (hw : frameWrites lib p.1 = some columns)
    (hok : (appendAll lib.mismatch ((rotatedBy mode source p s).current source)
      (timestampChunk lib p.1.timestamps :: columns)).2 = true) :
    s.writeFrame lib mode source batchSeq p.1 p.2 = .done
      { (rotatedBy mode source p s).put source
          (appendAll lib.mismatch ((rotatedBy mode source p s).current source)
            (timestampChunk lib p.1.timestamps :: columns)).1 with
        lastTsBatchSeq := Function.update s.lastTsBatchSeq source (some batchSeq) } := by
  have hchunks : frameChunks lib p.1 = some columns := by simpa [frameWrites, hp] using hw
  rw [writeFrame_of_timestamps hsource hp]
  have hl : (rotatedBy mode source p s).lastTsBatchSeq = s.lastTsBatchSeq := by simp
  rw [← hl] at hlast ⊢
  generalize rotatedBy mode source p s = s' at hok hlast ⊢
  rw [← singleton_append, appendAll_append] at hok ⊢
  cases htimes : appendAll lib.mismatch (s'.current source) [timestampChunk lib p.1.timestamps] with
  | mk group ok =>
    rw [htimes] at hok
    cases ok with
    | false => simp at hok
    | true =>
      obtain ⟨group', hgroup'⟩ : ∃ group', appendAll lib.mismatch group columns = (group', true) :=
        ⟨_, Prod.ext rfl (by simpa using hok)⟩
      simp [HDF5Files.append, hchunks, hlast, htimes, hgroup', HDF5Files.put]

/-- **Frames after the timestamps of their batch**, without a rotation: the columns are appended in
order. -/
theorem writeFrames_columns (hsource : mode = .merge → plainName source = true)
    (frames : List (DataBatch V × Bool)) {s : HDF5Files V} {columns : List (List (H5Chunk V))}
    (hlast : s.lastTsBatchSeq source = some batchSeq)
    (hrotate : ∀ p ∈ frames, rotates mode p.1 p.2 = false)
    (hw : (frames.map Prod.fst).mapM (frameWrites lib) = some columns)
    (hok : (appendAll lib.mismatch (s.current source) columns.flatten).2 = true) :
    s.writeFrames lib mode source batchSeq frames =
      .done (s.put source (appendAll lib.mismatch (s.current source) columns.flatten).1) := by
  induction frames generalizing s columns with
  | nil =>
    obtain rfl : columns = [] := by simpa using hw.symm
    simp [HDF5Files.writeFrames, appendAll]
  | cons p frames ih =>
    rw [map_cons, mapM_cons] at hw
    obtain ⟨cs, hcs, hw⟩ := Option.bind_eq_some_iff.mp hw
    obtain ⟨css, hcss, hw⟩ := Option.bind_eq_some_iff.mp hw
    obtain rfl : cs :: css = columns := Option.some.inj hw
    have hstay : rotatedBy mode source p s = s := by
      simp [rotatedBy, hrotate p mem_cons_self]
    rw [flatten_cons, appendAll_append] at hok ⊢
    by_cases hfirst : (appendAll lib.mismatch (s.current source) cs).2 = true
    · rw [if_pos hfirst] at hok ⊢
      have hwrite := writeFrame_columns hsource hlast hcs (by rw [hstay]; exact hfirst)
      rw [hstay] at hwrite
      have hrest := ih (s := s.put source (appendAll lib.mismatch (s.current source) cs).1)
        (by simpa using hlast) (fun q hq => hrotate q (mem_cons_of_mem _ hq)) hcss
        (by simpa using hok)
      rw [HDF5Files.writeFrames, hwrite]
      simpa using hrest
    · rw [if_neg hfirst] at hok
      exact absurd hok hfirst

/-- **Frames that write nothing** only rotate. -/
theorem writeFrames_idle (frames : List (DataBatch V × Bool)) {s : HDF5Files V} (hs : s.AllAligned)
    (hlast : (∀ p ∈ frames, p.1.timestamps = []) ∨
      (mode = .merge → plainName source = true) ∧ s.lastTsBatchSeq source = some batchSeq)
    (h : ∀ p ∈ frames, frameWrites lib p.1 = some []) :
    ∃ s', s.writeFrames lib mode source batchSeq frames = .done s' ∧ s'.AllAligned ∧
      s'.lastTsBatchSeq = s.lastTsBatchSeq ∧
      s'.current source = if frames.any (fun p => rotates mode p.1 p.2) then fun _ => none
        else s.current source := by
  induction frames generalizing s with
  | nil => exact ⟨s, rfl, hs, rfl, rfl⟩
  | cons p frames ih =>
    have hwrite : s.writeFrame lib mode source batchSeq p.1 p.2 =
        .done (rotatedBy mode source p s) := by
      rcases hlast with hempty | ⟨hsource, hlast⟩
      · exact writeFrame_of_empty (hempty p mem_cons_self) s
      · rw [writeFrame_columns hsource hlast (h p mem_cons_self) rfl]
        simp [appendAll]
    obtain ⟨s', hrest, haligned, hkeep, hcurrent⟩ := ih (hs.rotatedBy mode source p)
      (hlast.imp (fun h q hq => h q (mem_cons_of_mem _ hq)) (by simp))
      (fun q hq => h q (mem_cons_of_mem _ hq))
    refine ⟨s', ?_, haligned, by simpa using hkeep, ?_⟩
    · rw [HDF5Files.writeFrames, hwrite]
      exact hrest
    · rw [hcurrent, rotatedBy_current, any_cons]
      cases rotates mode p.1 p.2 <;> cases frames.any (fun p => rotates mode p.1 p.2) <;> rfl

theorem frameWrites_of_empty {frame : DataBatch V} (h : frame.timestamps = []) :
    frameWrites lib frame = some [] := by
  simp [frameWrites, h]

/-- **A balanced batch keeps the files aligned.** -/
theorem Balanced.writeFrames {frames : List (DataBatch V × Bool)} {s : HDF5Files V}
    (h : Balanced lib mode source (s.current source) frames) (hs : s.AllAligned)
    (hlast : s.lastTsBatchSeq source ≠ some batchSeq) :
    ∃ s', s.writeFrames lib mode source batchSeq frames = .done s' ∧ s'.AllAligned ∧
      (s'.lastTsBatchSeq = s.lastTsBatchSeq ∨
        s'.lastTsBatchSeq = Function.update s.lastTsBatchSeq source (some batchSeq)) := by
  generalize hgroup : s.current source = group at h
  cases h with
  | empty _ hempty =>
    obtain ⟨s', hdone, haligned, hkeep, -⟩ := @writeFrames_idle _ lib mode source batchSeq frames s
      hs (Or.inl hempty) fun p hp => frameWrites_of_empty (hempty p hp)
    exact ⟨s', hdone, haligned, Or.inl hkeep⟩
  | sampling skipped first due during after columns hskipped hfirst hsource hduring hafter hcolumns
      hsampling =>
    -- the skipped frames
    obtain ⟨s₁, hdone₁, hs₁, hkeep₁, hcurrent₁⟩ := @writeFrames_idle _ lib mode source batchSeq
      skipped s hs (Or.inl hskipped) fun p hp => frameWrites_of_empty (hskipped p hp)
    -- the timestamps and the columns
    rw [mapM_cons] at hcolumns
    obtain ⟨cs, hcs, hcolumns⟩ := Option.bind_eq_some_iff.mp hcolumns
    obtain ⟨css, hcss, hcolumns⟩ := Option.bind_eq_some_iff.mp hcolumns
    obtain rfl : cs :: css = columns := Option.some.inj hcolumns
    have hopen : (rotatedBy mode source (first, due) s₁).current source =
        if (skipped ++ [(first, due)]).any (fun p => rotates mode p.1 p.2) then fun _ => none
        else group := by
      rw [rotatedBy_current, hcurrent₁, hgroup, any_append]
      cases hr : rotates mode first due <;>
        cases skipped.any (fun p => rotates mode p.1 p.2) <;> simp [hr]
    rw [← hopen] at hsampling
    have hall := (@appendAll_fits _ _ _ _ _ lib.mismatch _ _ hsampling.fits).1
    have haligned := hsampling.aligned (by exact (hs₁.rotatedBy mode source _).current source)
    rw [flatten_cons, ← cons_append, appendAll_append] at hall haligned
    by_cases hok : (appendAll lib.mismatch ((rotatedBy mode source (first, due) s₁).current source)
        (timestampChunk lib first.timestamps :: cs)).2 = true
    · rw [if_pos hok] at hall haligned
      have hwrite := @writeFrame_first _ lib mode source batchSeq hsource (first, due) s₁ cs hfirst
        (by rwa [hkeep₁]) hcs hok
      generalize (appendAll lib.mismatch ((rotatedBy mode source (first, due) s₁).current source)
        (timestampChunk lib first.timestamps :: cs)).1 = group₁ at hall haligned hwrite
      set s₂ : HDF5Files V :=
        { (rotatedBy mode source (first, due) s₁).put source group₁ with
          lastTsBatchSeq := Function.update s₁.lastTsBatchSeq source (some batchSeq) } with hs₂
      have hcurrent₂ : s₂.current source = group₁ := by simp [hs₂, HDF5Files.put]
      have hlast₂ : s₂.lastTsBatchSeq source = some batchSeq := by simp [hs₂]
      -- the other columns
      have hdone₃ := writeFrames_columns hsource during hlast₂ hduring hcss (by rwa [hcurrent₂])
      rw [hcurrent₂] at hdone₃
      set s₃ := s₂.put source (appendAll lib.mismatch group₁ css.flatten).1 with hs₃
      have hcurrent₃ : s₃.current =
          Function.update (rotatedBy mode source (first, due) s₁).current source
            (appendAll lib.mismatch group₁ css.flatten).1 := by
        simp [hs₃, hs₂, HDF5Files.put]
      have haligned₃ : s₃.AllAligned :=
        ⟨hcurrent₃ ▸ aligned_update (hs₁.rotatedBy mode source _).current haligned,
          (hs₁.rotatedBy mode source (first, due)).closed⟩
      -- the frames that write nothing
      obtain ⟨s', hdone', haligned', hkeep', -⟩ := @writeFrames_idle _ lib mode source batchSeq
        after s₃ haligned₃ (Or.inr ⟨hsource, hlast₂⟩) hafter
      refine ⟨s', ?_, haligned', Or.inr (hkeep'.trans ?_)⟩
      · rw [writeFrames_append, hdone₁]
        simp only
        rw [HDF5Files.writeFrames, hwrite]
        simp only
        rw [writeFrames_append, hdone₃]
        exact hdone'
      · show Function.update s₁.lastTsBatchSeq source (some batchSeq) = _
        rw [hkeep₁]
    · rw [if_neg hok] at hall
      exact absurd hall hok

end Frames

/-! ## 4. Runs -/

/-- The batch numbers: those of queued batches differ, and are not written yet. -/
structure HDF5Writer.Numbered (w : HDF5Writer V) : Prop where
  queued : ∀ item ∈ w.queue, item.batchSeq < w.nextBatchSeq
  distinct : (w.queue.map (·.batchSeq)).Nodup
  written : ∀ source batchSeq, w.files.lastTsBatchSeq source = some batchSeq →
    batchSeq < w.nextBatchSeq ∧ batchSeq ∉ w.queue.map (·.batchSeq)

theorem HDF5Writer.Numbered.push {w : HDF5Writer V} (h : w.Numbered) (source : String)
    (frames : List (DataBatch V)) :
    HDF5Writer.Numbered { w with
      queue := w.queue ++ [⟨w.nextBatchSeq, source, frames⟩]
      nextBatchSeq := w.nextBatchSeq + 1 } := by
  have hnew : w.nextBatchSeq ∉ w.queue.map (·.batchSeq) := fun hmem => by
    obtain ⟨item, hitem, he⟩ := mem_map.mp hmem
    exact absurd (h.queued item hitem) (by omega)
  refine ⟨fun item hitem => ?_, ?_, fun other batchSeq hlast => ?_⟩
  · rcases mem_append.mp hitem with hitem | hitem
    · exact Nat.lt_succ_of_lt (h.queued item hitem)
    · rw [mem_singleton.mp hitem]
      exact Nat.lt_succ_self _
  · simp only [map_append, map_cons, map_nil]
    refine List.nodup_append.mpr ⟨h.distinct, by simp, fun a ha b hb hab => hnew ?_⟩
    rwa [← mem_singleton.mp hb, ← hab]
  · obtain ⟨hlt, hnot⟩ := h.written other batchSeq hlast
    refine ⟨Nat.lt_succ_of_lt hlt, ?_⟩
    simp only [map_append, map_cons, map_nil, mem_append, mem_singleton,
      not_or]
    exact ⟨hnot, by omega⟩

theorem HDF5Writer.Numbered.taken {w : HDF5Writer V} (h : w.Numbered) {position : Nat}
    {item : HDF5QueueItem V} (hitem : w.queue[position]? = some item) :
    item.batchSeq ∉ (w.queue.eraseIdx position).map (·.batchSeq) := by
  obtain ⟨hlt, rfl⟩ := List.getElem?_eq_some_iff.mp hitem
  have hd := h.distinct
  have hsplit : w.queue =
      w.queue.take position ++ w.queue[position] :: w.queue.drop (position + 1) := by
    simp
  rw [hsplit, map_append, map_cons, List.nodup_append, nodup_cons] at hd
  obtain ⟨-, ⟨hafter, -⟩, hbefore⟩ := hd
  rw [eraseIdx_eq_take_drop_succ, map_append, mem_append]
  rintro (hmem | hmem)
  · exact hbefore _ hmem _ mem_cons_self rfl
  · exact hafter hmem

theorem HDF5Writer.Numbered.erase {w : HDF5Writer V} (h : w.Numbered) {position : Nat}
    {item : HDF5QueueItem V} (hitem : w.queue[position]? = some item) {files : HDF5Files V}
    (hfiles : files.lastTsBatchSeq = w.files.lastTsBatchSeq ∨ files.lastTsBatchSeq =
      Function.update w.files.lastTsBatchSeq item.source (some item.batchSeq)) :
    HDF5Writer.Numbered { w with files, queue := w.queue.eraseIdx position } := by
  have hsub := eraseIdx_sublist w.queue position
  refine ⟨fun it hit => h.queued it (hsub.subset hit), h.distinct.sublist (hsub.map _),
    fun source batchSeq hlast => ?_⟩
  have hold : w.files.lastTsBatchSeq source = some batchSeq →
      batchSeq < w.nextBatchSeq ∧ batchSeq ∉ (w.queue.eraseIdx position).map (·.batchSeq) :=
    fun hl => ⟨(h.written source batchSeq hl).1, fun hmem =>
      (h.written source batchSeq hl).2 ((hsub.map _).subset hmem)⟩
  rcases hfiles with hf | hf
  · exact hold (hf ▸ hlast)
  · change files.lastTsBatchSeq source = some batchSeq at hlast
    rw [hf] at hlast
    by_cases hs : source = item.source
    · subst hs
      rw [Function.update_self] at hlast
      obtain rfl := Option.some.inj hlast
      exact ⟨h.queued item (mem_of_getElem? hitem), h.taken hitem⟩
    · rw [Function.update_of_ne hs] at hlast
      exact hold hlast

/-- The guard: a batch that is taken from the queue is one sampling of its source.  Pushing a batch
needs no guard, since nothing is written then. -/
def balancedStep (lib : Hdf5 V) (mode : HDF5Mode) (w : HDF5Writer V) : HDF5Action V → Prop
  | .process position due => ∀ item, w.queue[position]? = some item →
      Balanced lib mode item.source (w.files.current item.source) (item.frames.zip due)
  | _ => True

/-- What runs keep. -/
structure HDF5Writer.Sound (w : HDF5Writer V) : Prop where
  numbered : w.Numbered
  aligned : w.files.AllAligned

theorem HDF5Writer.Sound.step {lib : Hdf5 V} {mode : HDF5Mode} {w w' : HDF5Writer V}
    {a : HDF5Action V} (h : w.Sound) (hok : balancedStep lib mode w a)
    (hstep : w.step lib mode a = some w') : w'.Sound := by
  cases a with
  | push source frames =>
    obtain rfl := Option.some.inj hstep
    exact ⟨h.numbered.push source frames, h.aligned⟩
  | drop position =>
    rw [HDF5Writer.step] at hstep
    split at hstep
    · rename_i hlt
      obtain rfl := Option.some.inj hstep
      exact ⟨h.numbered.erase (List.getElem?_eq_getElem hlt) (Or.inl rfl), h.aligned⟩
    · cases hstep
  | process position due =>
    obtain ⟨item, hitem, hstep⟩ := Option.bind_eq_some_iff.mp hstep
    split at hstep
    · have hlast : w.files.lastTsBatchSeq item.source ≠ some item.batchSeq := fun hl =>
        (h.numbered.written _ _ hl).2 (mem_map.mpr ⟨item, mem_of_getElem? hitem, rfl⟩)
      obtain ⟨files, hdone, haligned, hkeep⟩ := (hok item hitem).writeFrames h.aligned hlast
      rw [hdone] at hstep
      obtain rfl := Option.some.inj hstep
      exact ⟨h.numbered.erase hitem hkeep, haligned⟩
    · cases hstep

/-- **Rows stay aligned with timestamps** as long as every batch written is one sampling of its
source, by induction over the run.  The timestamps of a batch are written once, so a batch with one
frame for each sample, as the archiver reader sends them, already breaks it
(`hdf5_rows_misaligned`). -/
theorem hdf5_rows_aligned (lib : Hdf5 V) (mode : HDF5Mode) (w : HDF5Writer V)
    (hrun : Runs (HDF5Writer.step lib mode) (balancedStep lib mode) {} w) : w.files.AllAligned := by
  have hstart : HDF5Writer.Sound ({} : HDF5Writer V) := by
    refine ⟨⟨?_, ?_, ?_⟩, ⟨fun _ => aligned_empty, ?_⟩⟩ <;> simp
  exact (hrun.keeps (fun _ _ _ h hok hstep => h.step hok hstep) hstart).aligned

/-- A library that stores integers as they are and refuses rows of another type. -/
def plainHdf5 : Hdf5 Int := ⟨id, id, fun _ => rfl, fun d _ => (d, false)⟩

/-- One sample of two columns, in two frames. -/
def splitFrames : List (DataBatch Int) :=
  [{ timestamps := [⟨1, 0⟩], columns := [⟨"a", .scalar .int64 [10], []⟩] },
    { timestamps := [⟨1, 0⟩], columns := [⟨"b", .scalar .int64 [20], []⟩] }]

theorem splitFrames_balanced :
    Balanced plainHdf5 .perSource "pv" (fun _ => none) (splitFrames.zip [false, false]) := by
  refine Balanced.sampling [] _ _ [_] [] _ (by simp) (by decide) (by simp) (by decide) (by simp)
    rfl ⟨⟨fun _ => .scalar .int64, by decide⟩, by decide, fun name _ hname => ?_, by decide⟩
  obtain hname | ⟨c, hc, rfl⟩ := hname
  · cases hname rfl
  · revert c
    decide

/-- A sample split over two frames of a batch gives one row. -/
theorem hdf5_rows_aligned_split : ∃ w : HDF5Writer Int, (w.files.current "pv" "b").isSome ∧
    w.files.AllAligned :=
  ⟨_, rfl, hdf5_rows_aligned plainHdf5 .perSource _
    ((Relation.ReflTransGen.refl.tail ⟨.push "pv" splitFrames, trivial, rfl⟩).tail
      ⟨.process 0 [false, false], fun _ h => Option.some.inj h ▸ splitFrames_balanced, rfl⟩)⟩

/-- Two samples of a column, one frame each. -/
def sampleFrames : List (DataBatch Int) :=
  [{ timestamps := [⟨1, 0⟩], columns := [⟨"a", .scalar .int64 [10], []⟩] },
    { timestamps := [⟨2, 0⟩], columns := [⟨"a", .scalar .int64 [20], []⟩] }]

/-- **Not for every batch**: of two samples, one frame each, the second is without a timestamp. -/
theorem hdf5_rows_misaligned : ¬ ∀ (lib : Hdf5 Int) (mode : HDF5Mode) (w : HDF5Writer Int),
    Runs (HDF5Writer.step lib mode) anyStep {} w → w.files.AllAligned := by
  intro hall
  obtain ⟨w, hrun, htimes, hrows⟩ : ∃ w : HDF5Writer Int,
      Runs (HDF5Writer.step plainHdf5 .perSource) anyStep {} w ∧
        (rowsOf (w.files.current "pv") "timestamps").length = 1 ∧
        ∃ d, w.files.current "pv" "a" = some d ∧ d.rows.length = 2 :=
    ⟨_, (Relation.ReflTransGen.refl.tail ⟨.push "pv" sampleFrames, trivial, rfl⟩).tail
      ⟨.process 0 [false, false], trivial, rfl⟩, rfl, _, rfl, rfl⟩
  obtain ⟨d, hd, hlength⟩ := hrows
  have hmatch := (hall _ _ w hrun).current "pv" "a" d (by decide) hd
  have hequal := hmatch.length
  omega

end MldpDriver.Writer
