/-
# The wide table of one shard

A scan of `mldp.time_series_table` reads the pages of `querySamples` and puts them into one batch: a
time column and a column for each PV.  The values a PV has in the pages are put one after the other
and filled up with nulls at the end, so they stand at the right times only where every page before
a page with a sample of the PV has as many values of it as timestamps.

This module has the merge, what the batch should be (`Faithful`), the condition on the pages
(`Aligned`), and the samples of both forms PV by PV.  The condition has a second half about the
predicates on metadata: the long form checks a column on every page, the wide table once, with the
metadata of the first page that has the PV.

A row count is a `Nat` (the code casts it to an `int`).
-/
import MldpDriver.Lib.PaddedPages
import MldpDriver.Lib.StableSort
import MldpDriver.Query.SamplesPages

namespace MldpDriver.Query.Samples

open Bus List
open Lib.Loop (okOr)
open Lib.PaddedPages
open Lib.StableSort (stableSort)

variable {V : Type} (valueCase : DataValue V → ValueCase) (predicates : List Predicate)

/-! ## 1. Merging -/

/-- A column of a page joins the columns read before; the first one of a name gives it its
metadata. -/
def mergeColumn (merged : List (DataColumn V)) (column : DataColumn V) : List (DataColumn V) :=
  match merged with
  | [] => [column]
  | m :: ms =>
    if m.name = column.name then
      { m with
        metadata := if m.name = "" then column.metadata else m.metadata
        dataValues := m.dataValues ++ column.dataValues } :: ms
    else m :: mergeColumn ms column

def mergePages (pages : List (SamplesPage V)) : List (DataColumn V) :=
  pages.foldl (fun merged page => page.columns.foldl mergeColumn merged) []

def timestampsNs (pages : List (SamplesPage V)) : List Int :=
  pages.flatMap fun page => page.timestamps.map timestampToNanoseconds

/-- `std::string` compares bytes. -/
def nameLess (a b : String) : Bool :=
  a.toUTF8.toList.lex b.toUTF8.toList fun x y => x.toNat.blt y.toNat

/-- Explicit PVs keep request order; selector-chosen PVs are sorted by name. -/
def orderedPvs (pvs : List String) (merged : List (DataColumn V)) : List String :=
  if pvs.isEmpty then stableSort nameLess (merged.map (·.name)) else pvs

def selectColumn (merged : List (DataColumn V)) (pv : String) :
    Except String (Option (DataColumn V)) :=
  match merged.find? (·.name == pv) with
  | none => .ok none
  | some column => do
    let keep ← matchesColumnPredicates valueCase predicates column
    .ok (if keep then some column else none)

/-! ## 2. The batch -/

inductive NativeType
  | null
  | utf8
  | boolean
  | uint32
  | uint64
  | int32
  | int64
  | float32
  | float64
  | binary
  | timestamp
  deriving DecidableEq

def dataValueArrowType : ValueCase → NativeType
  | .stringValue => .utf8
  | .booleanValue => .boolean
  | .uintValue => .uint32
  | .ulongValue => .uint64
  | .intValue => .int32
  | .longValue => .int64
  | .floatValue => .float32
  | .doubleValue => .float64
  | .byteArrayValue => .binary
  | .arrayValue => .binary
  | .structureValue => .binary
  | .imageValue => .binary
  | .timestampValue => .timestamp

structure WideColumn (V : Type) where
  name : String
  type : NativeType
  metadata : ColumnMetadata
  values : List (Option (DataValue V))
  deriving DecidableEq

structure WideTable (V : Type) where
  time : List Int
  columns : List (WideColumn V)

def typeStep (name : String) (type : NativeType) : Option (DataValue V) → Except String NativeType
  | none => .ok type
  | some value =>
    let candidate := dataValueArrowType (valueCase value)
    if type = .null then .ok candidate
    else if type = candidate then .ok type
    else .error ("MLDP queryTable PV column '" ++ name ++ "' contains mixed data types")

/-- A column of the batch: the values, then trailing nulls. -/
def wideColumn (rows : Nat) (column : DataColumn V) : Except String (WideColumn V) :=
  if rows < column.dataValues.length then
    .error ("MLDP queryTable PV column '" ++ column.name ++ "' has more values than timestamps")
  else do
    let type ← column.dataValues.foldlM (typeStep valueCase column.name) .null
    .ok ⟨column.name, type, column.metadata, pad rows column.dataValues⟩

/-- `executeStream` of one shard of `mldp.time_series_table`; without a column there is no
batch. -/
def wideTable (pages : List (SamplesPage V)) : Except String (Option (WideTable V)) := do
  let pvs ← requestedPvs predicates
  let merged := mergePages pages
  let found ← (orderedPvs pvs merged).mapM (selectColumn valueCase predicates merged)
  let columns := found.filterMap id
  if columns.isEmpty then .ok none
  else do
    let wide ← columns.mapM (wideColumn valueCase (timestampsNs pages).length)
    .ok (some ⟨timestampsNs pages, wide⟩)

/-! ## 3. What is merged -/

def SamplesPage.columnOf (page : SamplesPage V) (pv : String) : Option (DataColumn V) :=
  page.columns.find? (·.name == pv)

/-- The values of a PV in a page, none when the page does not have it. -/
def SamplesPage.valuesOf (page : SamplesPage V) (pv : String) : List (Option (DataValue V)) :=
  (page.columnOf pv).elim [] (·.dataValues)

def firstColumn (pages : List (SamplesPage V)) (pv : String) : Option (DataColumn V) :=
  pages.findSome? (·.columnOf pv)

/-- The column of a PV over all pages. -/
def mergedColumn (pages : List (SamplesPage V)) (pv : String) : Option (DataColumn V) :=
  (firstColumn pages pv).map fun column =>
    { column with dataValues := pages.flatMap (·.valuesOf pv) }

/-- A column, and one that joins it. -/
def absorb : Option (DataColumn V) → Option (DataColumn V) → Option (DataColumn V)
  | none, column => column
  | some m, none => some m
  | some m, some column => some { m with dataValues := m.dataValues ++ column.dataValues }

theorem absorb_none (m : Option (DataColumn V)) : absorb m none = m := by
  cases m <;> rfl

variable {column : DataColumn V}

theorem find_mergeColumn (hname : column.name ≠ "") (merged : List (DataColumn V)) (pv : String) :
    (mergeColumn merged column).find? (·.name == pv) =
      absorb (merged.find? (·.name == pv)) (if column.name = pv then some column else none) := by
  induction merged with
  | nil =>
    by_cases h : column.name = pv
    · simp [mergeColumn, absorb, h]
    · simp [mergeColumn, absorb, h]
  | cons m ms ih =>
    rw [mergeColumn]
    by_cases hm : m.name = column.name
    · have hne : m.name ≠ "" := hm ▸ hname
      rw [if_pos hm, if_neg hne]
      by_cases h : column.name = pv
      · simp [absorb, hm, h]
      · simp [hm, h, absorb_none]
    · rw [if_neg hm]
      by_cases h : m.name = pv
      · have hpv : column.name ≠ pv := fun hc => hm (h.trans hc.symm)
        simp [h, hpv, absorb_none]
      · simp only [List.find?_cons, beq_false_of_ne h, ih]

theorem find_foldl_mergeColumn {columns : List (DataColumn V)}
    (hnodup : (columns.map (·.name)).Nodup) (hname : ∀ column ∈ columns, column.name ≠ "")
    (merged : List (DataColumn V)) (pv : String) :
    (columns.foldl mergeColumn merged).find? (·.name == pv) =
      absorb (merged.find? (·.name == pv)) (columns.find? (·.name == pv)) := by
  induction columns generalizing merged with
  | nil => rw [foldl_nil, List.find?_nil, absorb_none]
  | cons column columns ih =>
    rw [map_cons, nodup_cons] at hnodup
    rw [forall_mem_cons] at hname
    rw [foldl_cons, ih hnodup.2 hname.2, find_mergeColumn hname.1]
    by_cases h : column.name = pv
    · have hrest : columns.find? (·.name == pv) = none := by
        refine List.find?_eq_none.mpr fun c hc => ?_
        rw [beq_iff_eq]
        intro heq
        exact hnodup.1 (h ▸ heq ▸ mem_map_of_mem hc)
      rw [if_pos h, hrest, absorb_none, List.find?_cons_of_pos (by simpa using h)]
    · rw [if_neg h, absorb_none, List.find?_cons_of_neg (by simpa using h)]

theorem foldl_absorb_some (pages : List (SamplesPage V)) (m : DataColumn V) (pv : String) :
    pages.foldl (fun m page => absorb m (page.columnOf pv)) (some m) =
      some { m with dataValues := m.dataValues ++ pages.flatMap (·.valuesOf pv) } := by
  induction pages generalizing m with
  | nil => simp
  | cons page pages ih =>
    rw [foldl_cons, flatMap_cons, SamplesPage.valuesOf]
    cases page.columnOf pv with
    | none => exact ih m
    | some column => rw [absorb, ih, Option.elim_some, append_assoc]

theorem foldl_absorb (pages : List (SamplesPage V)) (pv : String) :
    pages.foldl (fun m page => absorb m (page.columnOf pv)) none = mergedColumn pages pv := by
  induction pages with
  | nil => rfl
  | cons page pages ih =>
    rw [foldl_cons, mergedColumn, firstColumn, List.findSome?_cons, flatMap_cons,
      SamplesPage.valuesOf]
    cases page.columnOf pv with
    | none => exact ih
    | some column => exact foldl_absorb_some pages column pv

/-- **The merged columns**: each PV with the metadata of its first page and the values of all. -/
theorem find_mergePages (pages : List (SamplesPage V)) (pv : String) :
    (mergePages pages).find? (·.name == pv) = mergedColumn pages pv := by
  have hfold : ∀ merged : List (DataColumn V),
      (pages.foldl (fun merged page => page.columns.foldl mergeColumn merged) merged).find?
          (·.name == pv) =
        pages.foldl (fun m page => absorb m (page.columnOf pv))
          (merged.find? (·.name == pv)) := by
    induction pages with
    | nil => exact fun _ => rfl
    | cons page pages ih =>
      intro merged
      rw [foldl_cons, foldl_cons, ih,
        find_foldl_mergeColumn page.names_nodup page.named]
      rfl
  rw [mergePages, hfold, List.find?_nil, foldl_absorb]

theorem nodup_mergeColumn {merged : List (DataColumn V)} (h : (merged.map (·.name)).Nodup)
    (column : DataColumn V) : ((mergeColumn merged column).map (·.name)).Nodup := by
  have hnames : (mergeColumn merged column).map (·.name) =
      if column.name ∈ merged.map (·.name) then merged.map (·.name)
      else merged.map (·.name) ++ [column.name] := by
    clear h
    induction merged with
    | nil => rfl
    | cons m ms ih =>
      rw [mergeColumn]
      by_cases hm : m.name = column.name
      · simp [hm]
      · have hm' : ¬column.name = m.name := fun h => hm h.symm
        rw [if_neg hm, map_cons, ih]
        simp only [map_cons, mem_cons, hm', false_or]
        split <;> rfl
  rw [hnames]
  split
  case isTrue => exact h
  case isFalse hmem =>
    refine List.nodup_append.mpr
      ⟨h, nodup_cons.mpr ⟨not_mem_nil, nodup_nil⟩, fun a ha b hb => ?_⟩
    rw [mem_singleton.mp hb]
    exact fun heq => hmem (heq ▸ ha)

theorem nodup_mergePages (pages : List (SamplesPage V)) :
    ((mergePages pages).map (·.name)).Nodup := by
  have hcolumns : ∀ (columns merged : List (DataColumn V)), (merged.map (·.name)).Nodup →
      ((columns.foldl mergeColumn merged).map (·.name)).Nodup := by
    intro columns
    induction columns with
    | nil => exact fun _ h => h
    | cons column columns ih => exact fun merged h => ih _ (nodup_mergeColumn h column)
  have hpages : ∀ merged : List (DataColumn V), (merged.map (·.name)).Nodup →
      ((pages.foldl (fun merged page => page.columns.foldl mergeColumn merged) merged).map
        (·.name)).Nodup := by
    induction pages with
    | nil => exact fun _ h => h
    | cons page pages ih => exact fun merged h => ih _ (hcolumns page.columns merged h)
  exact hpages [] nodup_nil

/-! ## 4. What the batch should be -/

/-- The value a page gives for a PV at its `i`-th timestamp. -/
def SamplesPage.valueAt (page : SamplesPage V) (pv : String) (i : Nat) : Option (DataValue V) :=
  (page.valuesOf pv).getD i none

/-- The values the pages give for a PV, timestamp by timestamp. -/
def given (pages : List (SamplesPage V)) (pv : String) : List (Option (DataValue V)) :=
  pages.flatMap fun page => (List.range page.timestamps.length).map (page.valueAt pv)

/-- The samples of a column: time, PV and value of the cells that are not null. -/
def cellRows (time : List Int) (pv : String) (values : List (Option (DataValue V))) :
    List (Int × String × DataValue V) :=
  (time.zip values).filterMap fun tv => tv.2.map fun v => (tv.1, pv, v)

def WideTable.rows (table : WideTable V) : List (Int × String × DataValue V) :=
  table.columns.flatMap fun column => cellRows table.time column.name column.values

def sampleOf (row : DecodedRow V) : Int × String × DataValue V :=
  (row.timestamp, row.pv, row.value)

/-- The batch shows the pages: their timestamps, every value at its timestamp, and the samples of
the long form. -/
structure Faithful (pages : List (SamplesPage V)) (table : Option (WideTable V)) : Prop where
  time : ∀ t ∈ table, t.time = timestampsNs pages
  lengths : ∀ t ∈ table, ∀ column ∈ t.columns, column.values.length = t.time.length
  cells : ∀ t ∈ table, ∀ column ∈ t.columns, column.values = given pages column.name
  long : ∃ batches, samplesLongBatches valueCase predicates pages = .ok batches ∧
    (table.elim [] (·.rows)).Perm (batches.flatten.map sampleOf)

/-- The metadata of the first page that has the PV. -/
def firstMetadata (pages : List (SamplesPage V)) (pv : String) : ColumnMetadata :=
  (firstColumn pages pv).elim {} (·.metadata)

/-- A column with a sample passes the predicates with its own metadata if and only if it does with
that of the first page; if it does, the earlier pages have a value of the PV at all their
timestamps. -/
def Aligned (pages : List (SamplesPage V)) : Prop :=
  ∀ before page after, pages = before ++ page :: after →
    ∀ column ∈ page.columns, (∃ v, some v ∈ column.dataValues) →
      let first := { column with metadata := firstMetadata pages column.name }
      matchesColumnPredicates valueCase predicates column =
          matchesColumnPredicates valueCase predicates first ∧
        (matchesColumnPredicates valueCase predicates first = .ok true →
          ∀ earlier ∈ before, (earlier.valuesOf column.name).length = earlier.timestamps.length)

variable {valueCase predicates}

/-! ## 5. The pages of one PV -/

variable {page : SamplesPage V}

theorem SamplesPage.columnOf_mem (h : column ∈ page.columns) :
    page.columnOf column.name = some column := by
  have hnodup := page.names_nodup
  rw [SamplesPage.columnOf]
  generalize page.columns = columns at h hnodup
  induction columns with
  | nil => cases h
  | cons c columns ih =>
    rw [map_cons, nodup_cons] at hnodup
    rcases mem_cons.mp h with rfl | h
    · rw [List.find?_cons_of_pos (by simp)]
    · have hne : c.name ≠ column.name := fun heq => hnodup.1 (heq ▸ mem_map_of_mem h)
      rw [List.find?_cons_of_neg (by simpa using hne), ih h hnodup.2]

variable {pv : String}

theorem SamplesPage.columnOf_eq_some (h : page.columnOf pv = some column) :
    column ∈ page.columns ∧ column.name = pv :=
  ⟨List.mem_of_find?_eq_some h, by simpa using List.find?_some h⟩

theorem SamplesPage.valuesOf_mem (h : column ∈ page.columns) :
    page.valuesOf column.name = column.dataValues := by
  rw [SamplesPage.valuesOf, columnOf_mem h, Option.elim_some]

theorem SamplesPage.length_valuesOf (page : SamplesPage V) (pv : String) :
    (page.valuesOf pv).length ≤ page.timestamps.length := by
  rw [SamplesPage.valuesOf]
  cases hcolumn : page.columnOf pv with
  | none => exact Nat.zero_le _
  | some column => exact page.fits column (columnOf_eq_some hcolumn).1

/-- The pages as the library sees them: places, and the values of one PV. -/
def pagesOf (pages : List (SamplesPage V)) (pv : String) : List (Page (DataValue V)) :=
  pages.map fun page => (page.timestamps.length, page.valuesOf pv)

theorem pagesOf_fit (pages : List (SamplesPage V)) (pv : String) :
    ∀ p ∈ pagesOf pages pv, p.2.length ≤ p.1 := by
  rw [pagesOf, forall_mem_map]
  exact fun page _ => page.length_valuesOf pv

theorem length_timestampsNs (pages : List (SamplesPage V)) (pv : String) :
    (timestampsNs pages).length = places (pagesOf pages pv) := by
  induction pages with
  | nil => rfl
  | cons page pages ih =>
    rw [timestampsNs] at ih
    rw [timestampsNs, flatMap_cons, length_append, ih, length_map]
    rfl

variable {pages : List (SamplesPage V)}

theorem pad_mergedColumn (h : mergedColumn pages pv = some column) :
    pad (timestampsNs pages).length column.dataValues = joined (pagesOf pages pv) := by
  obtain ⟨first, -, rfl⟩ := Option.map_eq_some_iff.mp h
  rw [joined, length_timestampsNs pages pv, pagesOf, flatMap_map]

theorem given_eq_placed (pages : List (SamplesPage V)) (pv : String) :
    given pages pv = placed (pagesOf pages pv) := by
  rw [given, placed, pagesOf, flatMap_map]
  exact flatMap_congr fun page _ => (pad_eq_map (page.length_valuesOf pv)).symm

theorem length_given (pages : List (SamplesPage V)) (pv : String) :
    (given pages pv).length = (timestampsNs pages).length := by
  rw [given_eq_placed, length_placed (pagesOf_fit pages pv), length_timestampsNs pages pv]

/-- The merged column is as long as the time column, and has every value at its timestamp exactly
when the pages before one with a sample are full. -/
theorem merged_eq_given_iff (h : mergedColumn pages pv = some column) :
    pad (timestampsNs pages).length column.dataValues = given pages pv ↔
      ∀ before page after, pages = before ++ page :: after →
        (∃ v, some v ∈ page.valuesOf pv) →
          ∀ earlier ∈ before, (earlier.valuesOf pv).length = earlier.timestamps.length := by
  rw [pad_mergedColumn h, given_eq_placed, joined_eq_placed_iff (pagesOf_fit pages pv)]
  constructor
  · intro hfull before page after hpages hset earlier hearlier
    have hsplit : pagesOf pages pv = pagesOf before pv ++
        (page.timestamps.length, page.valuesOf pv) :: pagesOf after pv := by
      rw [hpages, pagesOf, map_append, map_cons]
      rfl
    exact hfull _ _ _ hsplit hset _ (mem_map_of_mem hearlier)
  · intro hfull before p after hsplit hset q hq
    obtain ⟨before', rest, hpages, rfl, hrest⟩ := map_eq_append_iff.mp hsplit
    obtain ⟨page, after', rfl, rfl, -⟩ := map_eq_cons_iff.mp hrest
    obtain ⟨earlier, hearlier, rfl⟩ := mem_map.mp hq
    exact hfull before' page after' hpages hset earlier hearlier

/-! ## 6. Samples by PV and page -/

variable {row : Int × String × DataValue V}

theorem mem_cellRows {time : List Int} {values : List (Option (DataValue V))}
    (h : row ∈ cellRows time pv values) : row.2.1 = pv := by
  obtain ⟨tv, -, hrow⟩ := mem_filterMap.mp h
  obtain ⟨v, -, rfl⟩ := Option.map_eq_some_iff.mp hrow
  rfl

theorem cellRows_append {time time' : List Int} {values values' : List (Option (DataValue V))}
    (h : time.length = values.length) (pv : String) :
    cellRows (time ++ time') pv (values ++ values') =
      cellRows time pv values ++ cellRows time' pv values' := by
  rw [cellRows, zip_append h, filterMap_append]
  rfl

/-- The samples a page has for a PV. -/
def SamplesPage.samplesOf (page : SamplesPage V) (pv : String) :
    List (Int × String × DataValue V) :=
  cellRows (page.timestamps.map timestampToNanoseconds) pv (page.valuesOf pv)

theorem SamplesPage.samplesOf_eq_nil_iff (page : SamplesPage V) (pv : String) :
    page.samplesOf pv = [] ↔ ¬∃ v, some v ∈ page.valuesOf pv := by
  have hfits := page.length_valuesOf pv
  rw [samplesOf, cellRows, filterMap_eq_nil_iff]
  constructor
  · rintro h ⟨v, hv⟩
    obtain ⟨i, hi, hget⟩ := getElem_of_mem hv
    have hi' : i < (page.timestamps.map timestampToNanoseconds).length := by
      rw [length_map]
      omega
    have hmem := getElem_mem (l := (page.timestamps.map timestampToNanoseconds).zip
      (page.valuesOf pv)) (n := i) (by rw [length_zip]; omega)
    have hnone := h _ hmem
    rw [getElem_zip, hget] at hnone
    cases hnone
  · intro h tv htv
    cases hvalue : tv.2 with
    | none => rfl
    | some v => exact absurd ⟨v, hvalue ▸ (of_mem_zip htv).2⟩ h

theorem cellRows_given (pages : List (SamplesPage V)) (pv : String) :
    cellRows (timestampsNs pages) pv (given pages pv) = pages.flatMap (·.samplesOf pv) := by
  induction pages with
  | nil => rfl
  | cons page pages ih =>
    have hlength : (page.timestamps.map timestampToNanoseconds).length =
        ((List.range page.timestamps.length).map (page.valueAt pv)).length := by
      rw [length_map, length_map, length_range]
    rw [timestampsNs, given] at ih ⊢
    rw [flatMap_cons, flatMap_cons, cellRows_append hlength, ih, flatMap_cons]
    have hpage : cellRows (page.timestamps.map timestampToNanoseconds) pv
        ((List.range page.timestamps.length).map (page.valueAt pv)) = page.samplesOf pv := by
      have hpad := pad_eq_map (page.length_valuesOf pv)
      rw [show (List.range page.timestamps.length).map (page.valueAt pv) = _ from hpad.symm]
      exact filterMap_zip_pad _ _ _ fun t v => (t, pv, v)
    rw [hpage]

variable (valueCase predicates) in
/-- The samples of a PV that the long form has for a page. -/
def longPart (pv : String) (page : SamplesPage V) : List (Int × String × DataValue V) :=
  (page.columnOf pv).elim [] fun column =>
    if okOr false (matchesColumnPredicates valueCase predicates column) then page.samplesOf pv
    else []

variable (valueCase predicates) in
/-- The column of a PV in the batch, if it has one. -/
def keptColumn (pages : List (SamplesPage V)) (pv : String) : Option (DataColumn V) :=
  (mergedColumn pages pv).filter fun column =>
    okOr false (matchesColumnPredicates valueCase predicates column)

variable (valueCase predicates) in
/-- The samples of a PV in the batch. -/
def widePart (pages : List (SamplesPage V)) (pv : String) : List (Int × String × DataValue V) :=
  (keptColumn valueCase predicates pages pv).elim [] fun column =>
    cellRows (timestampsNs pages) pv (pad (timestampsNs pages).length column.dataValues)

theorem mem_longPart (h : row ∈ longPart valueCase predicates pv page) : row.2.1 = pv := by
  rw [longPart] at h
  cases hcolumn : page.columnOf pv with
  | none =>
    rw [hcolumn] at h
    cases h
  | some column =>
    rw [hcolumn, Option.elim_some] at h
    split at h
    · exact mem_cellRows h
    · cases h

theorem mem_widePart (h : row ∈ widePart valueCase predicates pages pv) :
    row.2.1 = pv := by
  rw [widePart] at h
  cases hcolumn : keptColumn valueCase predicates pages pv with
  | none =>
    rw [hcolumn] at h
    cases h
  | some column =>
    rw [hcolumn, Option.elim_some] at h
    exact mem_cellRows h

theorem map_sampleRows (h : column ∈ page.columns) :
    (sampleRows page.timestamps column).map sampleOf = page.samplesOf column.name := by
  rw [SamplesPage.samplesOf, SamplesPage.valuesOf_mem h, sampleRows, presentSamples, cellRows,
    map_map, zip_map_left, filterMap_map, map_filterMap]
  congr 1
  funext tv
  obtain ⟨t, value⟩ := tv
  cases value <;> rfl

theorem pageRows_perm (page : SamplesPage V) {pvs : List String} (hnodup : pvs.Nodup)
    (hsub : ∀ column ∈ page.columns, column.name ∈ pvs) :
    ((pageRows valueCase predicates page).map sampleOf).Perm
      (pvs.flatMap fun pv => longPart valueCase predicates pv page) := by
  have hcolumns : (pageRows valueCase predicates page).map sampleOf =
      (page.columns.map (·.name)).flatMap fun pv => longPart valueCase predicates pv page := by
    rw [pageRows, map_flatMap, flatMap_map]
    refine flatMap_congr fun column hc => ?_
    rw [longPart, SamplesPage.columnOf_mem hc, Option.elim_some, ← map_sampleRows hc]
    split <;> rfl
  rw [hcolumns]
  refine flatMap_perm_of_subset _ page.names_nodup hnodup ?_ ?_
  · intro pv hpv
    obtain ⟨column, hc, rfl⟩ := mem_map.mp hpv
    exact hsub column hc
  · intro pv _ hpv
    have hnone : page.columnOf pv = none := by
      refine List.find?_eq_none.mpr fun column hc => ?_
      rw [beq_iff_eq]
      exact fun heq => hpv (heq ▸ mem_map_of_mem hc)
    rw [longPart, hnone, Option.elim_none]

variable (valueCase predicates) in
theorem long_perm (pages : List (SamplesPage V)) {pvs : List String} (hnodup : pvs.Nodup)
    (hsub : ∀ page ∈ pages, ∀ column ∈ page.columns, column.name ∈ pvs) :
    ((pages.flatMap (pageRows valueCase predicates)).map sampleOf).Perm
      (pvs.flatMap fun pv => pages.flatMap (longPart valueCase predicates pv)) := by
  rw [map_flatMap]
  have hpages : (pages.flatMap fun page =>
      (pageRows valueCase predicates page).map sampleOf).Perm
        (pages.flatMap fun page => pvs.flatMap fun pv => longPart valueCase predicates pv page) :=
    List.Perm.flatMap_left pages fun page hp => pageRows_perm page hnodup (hsub page hp)
  exact hpages.trans (flatMap_swap (fun page pv => longPart valueCase predicates pv page) pages pvs)

end MldpDriver.Query.Samples
