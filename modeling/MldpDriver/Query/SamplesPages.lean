/-
# Pages of samples

A page of `querySamples` has timestamps and one column for each PV of the page, whose values are
those at the first timestamps; a value that is not set stands for a sample that is absent or
filtered out.  `SamplesLongRecordBatchStream` turns a page into rows: one bucket for each column,
with its set values only, decoded by the decoder of the bucket queries.

The protobuf case of a value (`value_case`) is a parameter, since `DataValue` keeps a structure and
an image as their bytes.  The names of the cases and the predicates on a column are the source's.
-/
import MldpDriver.Query.MLDPQueryClient
import MldpDriver.Query.MldpBidiRecordBatchStream

namespace MldpDriver.Query.Samples

open Bus List
open Lib.Loop (okOr mapM_eq_ok_iff)

variable {V : Type}

/-! ## 1. The kind of a column -/

/-- `DataValue::ValueCase`, of a value that is set. -/
inductive ValueCase
  | stringValue
  | booleanValue
  | uintValue
  | ulongValue
  | intValue
  | longValue
  | floatValue
  | doubleValue
  | byteArrayValue
  | timestampValue
  | arrayValue
  | structureValue
  | imageValue

def dataValueKind : ValueCase → String
  | .stringValue => "string"
  | .booleanValue => "bool"
  | .uintValue => "uint32"
  | .ulongValue => "uint64"
  | .intValue => "int32"
  | .longValue => "int64"
  | .floatValue => "float"
  | .doubleValue => "double"
  | .byteArrayValue => "binary"
  | .timestampValue => "timestamp"
  | .arrayValue => "array"
  | .structureValue => "structure"
  | .imageValue => "image"

variable (valueCase : DataValue V → ValueCase)

/-- One turn of the loop of `dataValuesKind`. -/
def kindStep (kind : Option String) : Option (DataValue V) → Except String (Option String)
  | none => .ok kind
  | some value =>
    let candidate := dataValueKind (valueCase value)
    match kind with
    | none => .ok (some candidate)
    | some k =>
      if k ≠ candidate then .error "MLDP column contains mixed data types" else .ok (some k)

/-- The kind of the set values; nothing when none is set. -/
def dataValuesKind (values : List (Option (DataValue V))) : Except String (Option String) :=
  values.foldlM (kindStep valueCase) none

/-! ## 2. Predicates on a column -/

structure DataColumn (V : Type) where
  name : String
  metadata : ColumnMetadata
  dataValues : List (Option (DataValue V))

/-- What a column name has after a prefix. -/
def afterPrefix (lead : String) (column : String) : Option String :=
  if lead.toList.isPrefixOf column.toList then
    some (String.ofList (column.toList.drop lead.length))
  else none

/-- One predicate on the metadata and the kind of a column. -/
def matchesColumnMetadataPredicate (metadata : ColumnMetadata) (kind : Option String)
    (p : Predicate) : Except String Bool :=
  if p.column == "column_type" then
    match kind with
    | none => .ok false
    | some k => matchesStringPredicate p k
  else if p.column == "tag" then metadata.tags.anyM (matchesStringPredicate p)
  else
    match afterPrefix "attributes." p.column, afterPrefix "provenance." p.column with
    | some key, _ => metadata.attributes.anyM fun (name, value) =>
      if name == key then matchesStringPredicate p value else .ok false
    | none, some key =>
      let value := if key == "source" then metadata.source
        else if key == "process" then metadata.process else ""
      if value.isEmpty then .ok false else matchesStringPredicate p value
    | none, none => .ok true

/-- The first predicate that fails ends the loop. -/
def matchesColumnMetadataPredicates (metadata : ColumnMetadata) (kind : Option String)
    (predicates : List Predicate) : Except String Bool :=
  predicates.foldlM (fun holds p =>
    if holds then matchesColumnMetadataPredicate metadata kind p else .ok false) true

def matchesColumnPredicates (predicates : List Predicate) (column : DataColumn V) :
    Except String Bool := do
  let named ← matchesPvNamePredicates column.name predicates
  if named then
    let kind ← dataValuesKind valueCase column.dataValues
    matchesColumnMetadataPredicates column.metadata kind predicates
  else .ok false

/-! ## 3. Pages and their long form -/

/-- A page: at most one column for a PV, and no column with more values than timestamps. -/
structure SamplesPage (V : Type) where
  timestamps : List TimestampEntry
  columns : List (DataColumn V)
  names_nodup : (columns.map (·.name)).Nodup
  named : ∀ column ∈ columns, column.name ≠ ""
  fits : ∀ column ∈ columns, column.dataValues.length ≤ timestamps.length

variable (predicates : List Predicate)

/-- The samples that a column has at timestamps. -/
def presentSamples (timestamps : List TimestampEntry) (values : List (Option (DataValue V))) :
    List (TimestampEntry × DataValue V) :=
  (timestamps.zip values).filterMap fun tv => tv.2.map (tv.1, ·)

def bucketOf (timestamps : List TimestampEntry) (column : DataColumn V) : DataBucket V where
  pvName := column.name
  dataTimestamps :=
    some (.timestampList ((presentSamples timestamps column.dataValues).map (·.1)))
  dataValues :=
    some (.dataColumn ((presentSamples timestamps column.dataValues).map (·.2)) column.metadata)

/-- The buckets of a page; a column without a sample has none. -/
def pageBuckets (page : SamplesPage V) : List (DataBucket V) :=
  (page.columns.filter fun column =>
    !(presentSamples page.timestamps column.dataValues).isEmpty).map (bucketOf page.timestamps)

/-- The predicates as the bucket decoder checks them. -/
def bucketCheck : BucketCheck V := fun name metadata values =>
  matchesColumnPredicates valueCase predicates ⟨name, metadata, values.map some⟩

/-- `SamplesLongRecordBatchStream`, drained: the batches it returns. -/
def samplesLongBatches : List (SamplesPage V) → Except String (List (List (DecodedRow V)))
  | [] => .ok []
  | page :: pages =>
    if (pageBuckets page).isEmpty then samplesLongBatches pages
    else do
      let batch ← decodeDataBucketsToBatch (bucketCheck valueCase predicates) (pageBuckets page)
      let rest ← samplesLongBatches pages
      .ok (if batch.isEmpty then rest else batch :: rest)

/-! ## 4. Kinds -/

theorem foldlM_kindStep_iff (values : List (Option (DataValue V))) (start kind : Option String) :
    values.foldlM (kindStep valueCase) start = .ok kind ↔
      (∀ v, some v ∈ values → kind = some (dataValueKind (valueCase v))) ∧
        (start ≠ none → kind = start) ∧
          (start = none → kind ≠ none → ∃ v, some v ∈ values) := by
  induction values generalizing start with
  | nil =>
    simp only [foldlM_nil, pure, Except.pure, Except.ok.injEq, not_mem_nil,
      false_imp_iff, implies_true, true_and, exists_false]
    cases start with
    | none => simp [eq_comm]
    | some k => simp [eq_comm]
  | cons value values ih =>
    rw [foldlM_cons]
    cases value with
    | none =>
      have hstep : kindStep valueCase start none = .ok start := rfl
      simp only [hstep, bind, Except.bind, ih, mem_cons, reduceCtorEq, false_or]
    | some v =>
      cases start with
      | none =>
        have hstep : kindStep valueCase none (some v) =
          .ok (some (dataValueKind (valueCase v))) := rfl
        simp only [hstep, bind, Except.bind, ih, mem_cons, Option.some.injEq]
        constructor
        · rintro ⟨hall, hstart, -⟩
          have hv := hstart (by simp)
          refine ⟨?_, by simp, fun _ _ => ⟨v, .inl rfl⟩⟩
          rintro w (rfl | hw)
          · exact hv
          · exact hall w hw
        · rintro ⟨hall, -, -⟩
          exact ⟨fun w hw => hall w (.inr hw), fun _ => hall v (.inl rfl), by simp⟩
      | some k =>
        by_cases hk : k = dataValueKind (valueCase v)
        · have hstep : kindStep valueCase (some k) (some v) = .ok (some k) := by
            simp [kindStep, hk]
          simp only [hstep, bind, Except.bind, ih, mem_cons, Option.some.injEq]
          constructor
          · rintro ⟨hall, hstart, -⟩
            have hkind := hstart (by simp)
            refine ⟨?_, fun _ => hkind, by simp⟩
            rintro w (rfl | hw)
            · rw [hkind, hk]
            · exact hall w hw
          · rintro ⟨hall, hstart, -⟩
            exact ⟨fun w hw => hall w (.inr hw), hstart, by simp⟩
        · have hstep : kindStep valueCase (some k) (some v) =
              .error "MLDP column contains mixed data types" := by
            simp [kindStep, hk]
          simp only [hstep, bind, Except.bind, reduceCtorEq, false_iff]
          rintro ⟨hall, hstart, -⟩
          have hv := hall v mem_cons_self
          rw [hstart (by simp)] at hv
          exact hk (Option.some.inj hv)

/-- **When a column has a kind**, and which. -/
theorem dataValuesKind_ok_iff (values : List (Option (DataValue V))) (kind : Option String) :
    dataValuesKind valueCase values = .ok kind ↔
      (∀ v, some v ∈ values → kind = some (dataValueKind (valueCase v))) ∧
        (kind ≠ none → ∃ v, some v ∈ values) := by
  rw [dataValuesKind, foldlM_kindStep_iff]
  simp

theorem dataValuesKind_of_subset {values part : List (Option (DataValue V))}
    {kind : Option String} (h : dataValuesKind valueCase values = .ok kind)
    (hsub : part ⊆ values) (hset : ∃ v, some v ∈ part) :
    dataValuesKind valueCase part = .ok kind := by
  rw [dataValuesKind_ok_iff] at h ⊢
  exact ⟨fun v hv => h.1 v (hsub hv), fun _ => hset⟩

variable {valueCase predicates}
variable {column : DataColumn V}

theorem matchesColumnPredicates_of_subset {part : List (Option (DataValue V))} {keep : Bool}
    (h : matchesColumnPredicates valueCase predicates column = .ok keep)
    (hsub : part ⊆ column.dataValues) (hset : ∃ v, some v ∈ part) :
    matchesColumnPredicates valueCase predicates { column with dataValues := part } =
      .ok keep := by
  unfold matchesColumnPredicates at h ⊢
  cases hname : matchesPvNamePredicates column.name predicates with
  | error e => simp [hname, bind, Except.bind] at h
  | ok named =>
    cases named with
    | false => simpa [hname, bind, Except.bind] using h
    | true =>
      cases hkind : dataValuesKind valueCase column.dataValues with
      | error e => simp [hname, hkind, bind, Except.bind] at h
      | ok kind =>
        have hpart := dataValuesKind_of_subset valueCase hkind hsub hset
        simpa [hname, hkind, hpart, bind, Except.bind] using h

/-! ## 5. What the long form has -/

variable {timestamps : List TimestampEntry}
variable {values : List (Option (DataValue V))}

theorem map_presentSamples (h : values.length ≤ timestamps.length) :
    (presentSamples timestamps values).map (·.2) = values.filterMap id := by
  induction values generalizing timestamps with
  | nil => simp [presentSamples]
  | cons value values ih =>
    cases timestamps with
    | nil => exact absurd h (Nat.not_succ_le_zero _)
    | cons t timestamps =>
      have hrest := ih (Nat.le_of_succ_le_succ h)
      unfold presentSamples at hrest ⊢
      cases value with
      | none => simpa using hrest
      | some v => simpa using hrest

theorem presentSamples_isEmpty_iff (h : values.length ≤ timestamps.length) :
    (presentSamples timestamps values).isEmpty = true ↔ ∀ v, some v ∉ values := by
  rw [List.isEmpty_iff, ← map_eq_nil_iff, map_presentSamples h, filterMap_eq_nil_iff]
  constructor
  · intro hnone v hv
    cases hnone (some v) hv
  · intro hunset value hvalue
    cases value with
    | none => rfl
    | some v => exact absurd hvalue (hunset v)

theorem dataValuesKind_filterMap (values : List (Option (DataValue V))) :
    dataValuesKind valueCase ((values.filterMap id).map some) =
      dataValuesKind valueCase values := by
  unfold dataValuesKind
  generalize none = start
  induction values generalizing start with
  | nil => rfl
  | cons value values ih =>
    cases value with
    | none => exact ih start
    | some v =>
      change (kindStep valueCase start (some v) >>= fun next =>
        ((values.filterMap id).map some).foldlM (kindStep valueCase) next) = _
      rw [funext ih, foldlM_cons]

/-- The rows of a column of a page. -/
def sampleRows (timestamps : List TimestampEntry) (column : DataColumn V) :
    List (DecodedRow V) :=
  (presentSamples timestamps column.dataValues).map fun tv =>
    ⟨column.name, timestampToNanoseconds tv.1, tv.2, column.metadata⟩

/-- A bucket with a column of data values, one for each of a list of timestamps. -/
theorem decodeBucket_dataColumn (check : BucketCheck V) {name : String} (hname : name ≠ "")
    (metadata : ColumnMetadata) (samples : List (TimestampEntry × DataValue V)) :
    decodeBucket check ⟨name, some (.timestampList (samples.map (·.1))),
        some (.dataColumn (samples.map (·.2)) metadata)⟩ =
      (check name metadata (samples.map (·.2))).map fun keep =>
        if keep then samples.map fun tv => ⟨name, timestampToNanoseconds tv.1, tv.2, metadata⟩
        else [] := by
  have hlength : ¬((samples.map (·.1)).map timestampToNanoseconds).length ≠
      (samples.map (·.2)).length := by
    rw [length_map, length_map, length_map]
    exact not_not_intro rfl
  have hzip : (((samples.map (·.1)).map timestampToNanoseconds).zip (samples.map (·.2))).map
      (fun tv => (⟨name, tv.1, tv.2, metadata⟩ : DecodedRow V)) =
        samples.map fun tv => ⟨name, timestampToNanoseconds tv.1, tv.2, metadata⟩ := by
    induction samples with
    | nil => rfl
    | cons sample samples ih =>
      simp only [map_cons, zip_cons_cons, List.cons.injEq, true_and]
      exact ih (by simp)
  rw [decodeBucket, if_neg hname]
  simp only [bucketTimestamps, decodeValues]
  change (if ((samples.map (·.1)).map timestampToNanoseconds).length ≠ (samples.map (·.2)).length
    then _ else _) = _
  rw [if_neg hlength]
  cases check name metadata (samples.map (·.2)) with
  | error e => rfl
  | ok keep =>
    cases keep with
    | false => rfl
    | true => exact congrArg Except.ok hzip

theorem bucketCheck_presentSamples (hfits : column.dataValues.length ≤ timestamps.length) :
    bucketCheck valueCase predicates column.name column.metadata
        ((presentSamples timestamps column.dataValues).map (·.2)) =
      matchesColumnPredicates valueCase predicates column := by
  rw [bucketCheck, map_presentSamples hfits, matchesColumnPredicates, dataValuesKind_filterMap]
  rfl

theorem decodeBucket_bucketOf (hname : column.name ≠ "")
    (hfits : column.dataValues.length ≤ timestamps.length) :
    decodeBucket (bucketCheck valueCase predicates) (bucketOf timestamps column) =
      (matchesColumnPredicates valueCase predicates column).map fun keep =>
        if keep then sampleRows timestamps column else [] := by
  rw [bucketOf, decodeBucket_dataColumn _ hname, bucketCheck_presentSamples hfits]
  rfl

variable (valueCase predicates) in
/-- The rows of a page: those of the columns that pass the predicates. -/
def pageRows (page : SamplesPage V) : List (DecodedRow V) :=
  page.columns.flatMap fun column =>
    if okOr false (matchesColumnPredicates valueCase predicates column) then
      sampleRows page.timestamps column
    else []

variable (valueCase predicates) in
/-- The predicates have an answer for every column with a sample. -/
def Answered (page : SamplesPage V) : Prop :=
  ∀ column ∈ page.columns, (∃ v, some v ∈ column.dataValues) →
    ∃ keep, matchesColumnPredicates valueCase predicates column = .ok keep

theorem map_isOk_iff {β γ : Type} {x : Except String β} (f : β → γ) :
    (∃ out, x.map f = .ok out) ↔ ∃ b, x = .ok b := by
  cases x with
  | error e => simp [Except.map]
  | ok b => simp [Except.map]

theorem okOr_map {β : Type} (x : Except String Bool) (rows : List β) :
    okOr [] (x.map fun keep => if keep then rows else []) = if okOr false x then rows else [] := by
  cases x with
  | error e => rfl
  | ok keep => rfl

theorem sampleRows_eq_nil (h : (presentSamples timestamps column.dataValues).isEmpty = true) :
    sampleRows timestamps column = [] := by
  rw [sampleRows, List.isEmpty_iff.mp h, map_nil]

theorem decodable_iff (page : SamplesPage V) :
    (∀ bucket ∈ pageBuckets page, ∃ out,
      decodeBucket (bucketCheck valueCase predicates) bucket = .ok out) ↔
        Answered valueCase predicates page := by
  unfold pageBuckets
  rw [forall_mem_map]
  refine forall_congr' fun column => ?_
  rw [mem_filter]
  constructor
  · intro h hc ⟨v, hv⟩
    have hsample : ¬(presentSamples page.timestamps column.dataValues).isEmpty = true :=
      fun hempty => (presentSamples_isEmpty_iff (page.fits column hc)).mp hempty v hv
    have hout := h ⟨hc, by simpa using hsample⟩
    rwa [decodeBucket_bucketOf (page.named column hc) (page.fits column hc), map_isOk_iff] at hout
  · rintro h ⟨hc, hsample⟩
    rw [decodeBucket_bucketOf (page.named column hc) (page.fits column hc), map_isOk_iff]
    refine h hc (by_contra fun hunset => ?_)
    rw [(presentSamples_isEmpty_iff (page.fits column hc)).mpr fun v hv => hunset ⟨v, hv⟩]
      at hsample
    cases hsample

/-- A column without a sample has no bucket and no row. -/
theorem flatten_decoded {columns : List (DataColumn V)}
    (hname : ∀ column ∈ columns, column.name ≠ "")
    (hfits : ∀ column ∈ columns, column.dataValues.length ≤ timestamps.length) :
    (((columns.filter fun column =>
        !(presentSamples timestamps column.dataValues).isEmpty).map (bucketOf timestamps)).map
      fun bucket => okOr [] (decodeBucket (bucketCheck valueCase predicates) bucket)).flatten =
    columns.flatMap fun column =>
      if okOr false (matchesColumnPredicates valueCase predicates column) then
        sampleRows timestamps column
      else [] := by
  induction columns with
  | nil => rfl
  | cons column columns ih =>
    rw [forall_mem_cons] at hname hfits
    have hrest := ih hname.2 hfits.2
    rw [flatMap_cons, ← hrest]
    cases hempty : (presentSamples timestamps column.dataValues).isEmpty with
    | true =>
      rw [filter_cons_of_neg (by simp [hempty]), sampleRows_eq_nil hempty, ite_self,
        nil_append]
    | false =>
      rw [filter_cons_of_pos (by simp [hempty]), map_cons, map_cons,
        flatten_cons, decodeBucket_bucketOf hname.1 hfits.1, okOr_map]

/-- **The rows of a page are those its buckets decode to.** -/
theorem decode_pageBuckets {page : SamplesPage V} {rows : List (DecodedRow V)} :
    decodeDataBucketsToBatch (bucketCheck valueCase predicates) (pageBuckets page) = .ok rows ↔
      Answered valueCase predicates page ∧ pageRows valueCase predicates page = rows := by
  have hrows := @flatten_decoded V valueCase predicates _ _ page.named page.fits
  rw [← decodable_iff, pageRows, ← hrows, decodeDataBucketsToBatch]
  cases hdecode : (pageBuckets page).mapM (decodeBucket (bucketCheck valueCase predicates)) with
  | ok out =>
    obtain ⟨hall, hout⟩ := (mapM_eq_ok_iff []).mp hdecode
    rw [← hout]
    constructor
    · intro h
      exact ⟨hall, Except.ok.inj h⟩
    · rintro ⟨-, rfl⟩
      rfl
  | error e =>
    constructor
    · intro h
      cases h
    · rintro ⟨hall, -⟩
      rw [(mapM_eq_ok_iff []).mpr ⟨hall, rfl⟩] at hdecode
      cases hdecode

theorem pageRows_of_no_bucket {page : SamplesPage V} (h : (pageBuckets page).isEmpty = true) :
    Answered valueCase predicates page ∧ pageRows valueCase predicates page = [] := by
  rw [← decode_pageBuckets, List.isEmpty_iff.mp h]
  rfl

/-- **The long form of the pages**: it has the rows of every page whose predicates have an
answer. -/
theorem samplesLongBatches_ok_iff {pages : List (SamplesPage V)} {rows : List (DecodedRow V)} :
    (samplesLongBatches valueCase predicates pages).map List.flatten = .ok rows ↔
      (∀ page ∈ pages, Answered valueCase predicates page) ∧
        pages.flatMap (pageRows valueCase predicates) = rows := by
  induction pages generalizing rows with
  | nil => simp [samplesLongBatches, Except.map]
  | cons page pages ih =>
    rw [samplesLongBatches, forall_mem_cons, flatMap_cons]
    by_cases hempty : (pageBuckets page).isEmpty = true
    · obtain ⟨hanswered, hnil⟩ := @pageRows_of_no_bucket V valueCase predicates page hempty
      rw [if_pos hempty, ih, hnil, nil_append]
      exact ⟨fun h => ⟨⟨hanswered, h.1⟩, h.2⟩, fun h => ⟨h.1.2, h.2⟩⟩
    · rw [if_neg hempty]
      cases hdecode : decodeDataBucketsToBatch (bucketCheck valueCase predicates)
          (pageBuckets page) with
      | error e =>
        constructor
        · intro h
          cases h
        · rintro ⟨⟨hanswered, -⟩, -⟩
          rw [decode_pageBuckets.mpr ⟨hanswered, rfl⟩] at hdecode
          cases hdecode
      | ok batch =>
        obtain ⟨hanswered, hbatch⟩ := decode_pageBuckets.mp hdecode
        have hflatten : ∀ rest : List (List (DecodedRow V)),
            (if batch.isEmpty then rest else batch :: rest).flatten = batch ++ rest.flatten := by
          intro rest
          cases batch <;> rfl
        cases hrest : samplesLongBatches valueCase predicates pages with
        | error e =>
          rw [hrest] at ih
          constructor
          · intro h
            cases h
          · rintro ⟨⟨-, hall⟩, -⟩
            cases ih.mpr ⟨hall, rfl⟩
        | ok rest =>
          rw [hrest] at ih
          obtain ⟨hall, hrows⟩ := ih.mp rfl
          rw [hbatch, hrows, ← hflatten]
          constructor
          · intro h
            exact ⟨⟨hanswered, hall⟩, Except.ok.inj h⟩
          · rintro ⟨-, h⟩
            exact congrArg Except.ok h

end MldpDriver.Query.Samples
