/-
# When the wide table shows its pages

What a scan of the wide table returns is computed column by column (`wideTable_ok`).
-/
import MldpDriver.Query.WideMerge

namespace MldpDriver.Query.Samples

open Bus List
open Lib.Loop (okOr okOr_ok mapM_eq_ok_iff)
open Lib.PaddedPages
open Lib.StableSort (stableSort stableSort_perm)

variable {V : Type} {valueCase : DataValue V → ValueCase} {predicates : List Predicate}

/-! ## 1. What the scan computes -/

theorem nodup_eraseDups (names : List String) : names.eraseDups.Nodup := by
  induction hn : names.length using Nat.strongRecOn generalizing names with
  | ind n ih =>
    cases names with
    | nil => exact nodup_nil
    | cons name names =>
      rw [eraseDups_cons, nodup_cons]
      constructor
      · rw [mem_eraseDups, mem_filter]
        simp
      · refine ih _ ?_ _ rfl
        rw [← hn, length_cons]
        exact Nat.lt_succ_of_le (length_filter_le _ _)

variable {pvs : List String}

theorem nodup_requestedPvs (h : requestedPvs predicates = .ok pvs) :
    pvs.Nodup := by
  rw [requestedPvs] at h
  cases hnames : (predicates.filter isPvListPredicate).mapM predicateStrings with
  | error e =>
    rw [hnames] at h
    cases h
  | ok names =>
    rw [hnames] at h
    exact Except.ok.inj h ▸ nodup_eraseDups names.flatten

/-- The names of the columns, in the order of the batch: each once, and all of the pages. -/
theorem orderedPvs_spec (hpvs : requestedPvs predicates = .ok pvs) (pages : List (SamplesPage V))
    (hsub : pvs ≠ [] → ∀ page ∈ pages, ∀ column ∈ page.columns, column.name ∈ pvs) :
    (orderedPvs pvs (mergePages pages)).Nodup ∧
      ∀ page ∈ pages, ∀ column ∈ page.columns,
        column.name ∈ orderedPvs pvs (mergePages pages) := by
  rw [orderedPvs]
  cases hempty : pvs.isEmpty with
  | false =>
    rw [if_neg Bool.false_ne_true]
    exact ⟨nodup_requestedPvs hpvs, hsub (by simpa [List.isEmpty_iff] using hempty)⟩
  | true =>
    rw [if_pos rfl]
    have hperm := stableSort_perm nameLess ((mergePages pages).map (·.name))
    refine ⟨hperm.symm.nodup (nodup_mergePages pages), fun page hp column hc => ?_⟩
    have hfind : ((mergePages pages).find? (·.name == column.name)).isSome = true := by
      rw [find_mergePages, mergedColumn, Option.isSome_map, firstColumn, List.findSome?_isSome_iff]
      exact ⟨page, hp, by rw [SamplesPage.columnOf_mem hc]; rfl⟩
    obtain ⟨merged, hmem, hname⟩ := List.find?_isSome.mp hfind
    exact hperm.mem_iff.mpr (mem_map.mpr ⟨merged, hmem, by simpa using hname⟩)

variable {pages : List (SamplesPage V)}
variable {column : DataColumn V}
variable {pv : String}

theorem mergedColumn_name (h : mergedColumn pages pv = some column) :
    column.name = pv := by
  obtain ⟨first, hfirst, rfl⟩ := Option.map_eq_some_iff.mp h
  obtain ⟨page, -, hcolumn⟩ := List.exists_of_findSome?_eq_some hfirst
  exact (SamplesPage.columnOf_eq_some hcolumn).2

theorem selectColumn_ok_iff (pages : List (SamplesPage V)) (pv : String) :
    (∃ found, selectColumn valueCase predicates (mergePages pages) pv = .ok found) ↔
      ∀ column, mergedColumn pages pv = some column →
        ∃ keep, matchesColumnPredicates valueCase predicates column = .ok keep := by
  rw [selectColumn, find_mergePages]
  cases mergedColumn pages pv with
  | none => simp
  | some column =>
    cases hmatch : matchesColumnPredicates valueCase predicates column with
    | error e => simp [hmatch, bind, Except.bind]
    | ok keep => simp [hmatch, bind, Except.bind]

theorem okOr_selectColumn (pages : List (SamplesPage V)) (pv : String) :
    okOr none (selectColumn valueCase predicates (mergePages pages) pv) =
      keptColumn valueCase predicates pages pv := by
  rw [selectColumn, find_mergePages, keptColumn]
  cases mergedColumn pages pv with
  | none => rfl
  | some column =>
    rw [Option.filter_some]
    change okOr none (matchesColumnPredicates valueCase predicates column >>= fun keep =>
      .ok (if keep then some column else none)) = _
    cases matchesColumnPredicates valueCase predicates column with
    | error e => rfl
    | ok keep => cases keep <;> rfl

theorem wideColumn_ok {rows : Nat} {wide : WideColumn V}
    (h : wideColumn valueCase rows column = .ok wide) :
    wide.name = column.name ∧ wide.values = pad rows column.dataValues := by
  rw [wideColumn] at h
  split at h
  · cases h
  · cases htype : column.dataValues.foldlM (typeStep valueCase column.name) .null with
    | error e =>
      rw [htype] at h
      cases h
    | ok type =>
      rw [htype] at h
      obtain rfl := Except.ok.inj h
      exact ⟨rfl, rfl⟩

variable {table : Option (WideTable V)}

/-- **What a scan returns**: the kept columns in order, each filled up at its end. -/
theorem wideTable_ok (hpvs : requestedPvs predicates = .ok pvs)
    (h : wideTable valueCase predicates pages = .ok table) :
    (∀ pv ∈ orderedPvs pvs (mergePages pages), ∀ column, mergedColumn pages pv = some column →
      ∃ keep, matchesColumnPredicates valueCase predicates column = .ok keep) ∧
    (∀ t ∈ table, t.time = timestampsNs pages) ∧
    (table.elim [] (·.columns)).map (fun column => (column.name, column.values)) =
      ((orderedPvs pvs (mergePages pages)).filterMap (keptColumn valueCase predicates pages)).map
        fun column => (column.name, pad (timestampsNs pages).length column.dataValues) := by
  rw [wideTable, hpvs] at h
  change ((orderedPvs pvs (mergePages pages)).mapM
    (selectColumn valueCase predicates (mergePages pages)) >>= _) = _ at h
  cases hfound : (orderedPvs pvs (mergePages pages)).mapM
      (selectColumn valueCase predicates (mergePages pages)) with
  | error e =>
    rw [hfound] at h
    cases h
  | ok found =>
    obtain ⟨hall, hkept⟩ := (mapM_eq_ok_iff none).mp hfound
    have hcolumns : found.filterMap id = (orderedPvs pvs (mergePages pages)).filterMap
        (keptColumn valueCase predicates pages) := by
      rw [← hkept, filterMap_map]
      exact filterMap_congr fun pv _ => okOr_selectColumn pages pv
    refine ⟨fun pv hpv => (selectColumn_ok_iff pages pv).mp (hall pv hpv), ?_⟩
    rw [hfound] at h
    change (if (found.filterMap id).isEmpty = true then _ else _) = _ at h
    rw [hcolumns] at h
    generalize (orderedPvs pvs (mergePages pages)).filterMap
      (keptColumn valueCase predicates pages) = columns at h ⊢
    split at h
    case isTrue hempty =>
      obtain rfl := Except.ok.inj h
      rw [List.isEmpty_iff.mp hempty]
      exact ⟨fun _ ht => (by cases ht), rfl⟩
    case isFalse =>
      cases hwide : columns.mapM (wideColumn valueCase (timestampsNs pages).length) with
      | error e =>
        rw [hwide] at h
        cases h
      | ok wide =>
        rw [hwide] at h
        obtain rfl := Except.ok.inj h
        refine ⟨fun t ht => Option.some.inj ht ▸ rfl, ?_⟩
        obtain ⟨hall, hout⟩ := (mapM_eq_ok_iff ⟨"", .null, {}, []⟩).mp hwide
        rw [Option.elim_some, ← hout, map_map]
        refine map_congr_left fun column hc => ?_
        obtain ⟨out, hcolumn⟩ := hall column hc
        obtain ⟨hname, hvalues⟩ := wideColumn_ok hcolumn
        rw [Function.comp_apply, hcolumn, okOr_ok, hname, hvalues]

/-! ## 2. When the batch shows the pages -/

theorem flatMap_filterMap_elim {α β γ : Type} (f : α → Option β) (g : β → List γ) (as : List α) :
    (as.filterMap f).flatMap g = as.flatMap fun a => (f a).elim [] g := by
  induction as with
  | nil => rfl
  | cons a as ih =>
    rw [flatMap_cons, ← ih]
    cases h : f a with
    | none => rw [filterMap_cons_none h, Option.elim_none, nil_append]
    | some b => rw [filterMap_cons_some h, flatMap_cons, Option.elim_some]

theorem keptColumn_eq_some (h : keptColumn valueCase predicates pages pv = some column) :
    mergedColumn pages pv = some column ∧
      okOr false (matchesColumnPredicates valueCase predicates column) = true :=
  Option.filter_eq_some_iff.mp h

theorem wideTable_rows (hpvs : requestedPvs predicates = .ok pvs)
    (h : wideTable valueCase predicates pages = .ok table) :
    table.elim [] (·.rows) = (orderedPvs pvs (mergePages pages)).flatMap
      (widePart valueCase predicates pages) := by
  obtain ⟨-, htime, hcolumns⟩ := wideTable_ok hpvs h
  have hrows : table.elim [] (·.rows) = ((table.elim [] (·.columns)).map fun column =>
      (column.name, column.values)).flatMap fun column =>
        cellRows (timestampsNs pages) column.1 column.2 := by
    cases table with
    | none => rfl
    | some t =>
      rw [Option.elim_some, Option.elim_some, WideTable.rows, htime t rfl, flatMap_map]
  rw [hrows, hcolumns, flatMap_map, flatMap_filterMap_elim]
  refine flatMap_congr fun pv _ => ?_
  rw [widePart]
  cases hkept : keptColumn valueCase predicates pages pv with
  | none => rfl
  | some column =>
    rw [Option.elim_some, Option.elim_some, mergedColumn_name (keptColumn_eq_some hkept).1]

variable {page : SamplesPage V}
variable {merged : DataColumn V}

theorem valuesOf_subset (hp : page ∈ pages) (h : mergedColumn pages pv = some merged) :
    page.valuesOf pv ⊆ merged.dataValues := by
  obtain ⟨first, -, rfl⟩ := Option.map_eq_some_iff.mp h
  exact fun v hv => mem_flatMap.mpr ⟨page, hp, hv⟩

theorem mergedColumn_of_mem (hp : page ∈ pages) (hc : column ∈ page.columns) :
    ∃ merged, mergedColumn pages column.name = some merged ∧
      { merged with dataValues := column.dataValues } =
        { column with metadata := firstMetadata pages column.name } := by
  have hfirst : (firstColumn pages column.name).isSome = true := by
    rw [firstColumn, List.findSome?_isSome_iff]
    exact ⟨page, hp, by rw [SamplesPage.columnOf_mem hc]; rfl⟩
  obtain ⟨first, hfirst⟩ := Option.isSome_iff_exists.mp hfirst
  have hmerged : mergedColumn pages column.name =
      some { first with dataValues := pages.flatMap (·.valuesOf column.name) } := by
    rw [mergedColumn, hfirst]
    rfl
  refine ⟨_, hmerged, ?_⟩
  have hname := mergedColumn_name hmerged
  rw [firstMetadata, hfirst, Option.elim_some]
  exact congrArg (fun name => (⟨name, first.metadata, column.dataValues⟩ : DataColumn V)) hname

/-- The predicates on a column of a page with the metadata of the first page have the answer of the
merged column. -/
theorem matches_first (hp : page ∈ pages) (hc : column ∈ page.columns)
    (hset : ∃ v, some v ∈ column.dataValues)
    (hmerged : mergedColumn pages column.name = some merged) {keep : Bool}
    (hkeep : matchesColumnPredicates valueCase predicates merged = .ok keep) :
    matchesColumnPredicates valueCase predicates
      { column with metadata := firstMetadata pages column.name } = .ok keep := by
  obtain ⟨merged', hmerged', heq⟩ := mergedColumn_of_mem hp hc
  obtain rfl : merged = merged' := Option.some.inj (hmerged.symm.trans hmerged')
  rw [← heq]
  refine matchesColumnPredicates_of_subset hkeep ?_ hset
  exact SamplesPage.valuesOf_mem hc ▸ valuesOf_subset hp hmerged

theorem kept_given (hpvs : requestedPvs predicates = .ok pvs)
    (h : wideTable valueCase predicates pages = .ok table) :
    (∀ t ∈ table, ∀ column ∈ t.columns, column.values = given pages column.name) ↔
      ∀ pv ∈ orderedPvs pvs (mergePages pages), ∀ merged,
        keptColumn valueCase predicates pages pv = some merged →
          pad (timestampsNs pages).length merged.dataValues = given pages pv := by
  obtain ⟨-, -, hcolumns⟩ := wideTable_ok hpvs h
  have htable : (∀ t ∈ table, ∀ column ∈ t.columns, column.values = given pages column.name) ↔
      ∀ c ∈ (table.elim [] (·.columns)).map fun column => (column.name, column.values),
        c.2 = given pages c.1 := by
    rw [forall_mem_map]
    cases table with
    | none => simp
    | some t => simp
  rw [htable, hcolumns, forall_mem_map]
  simp only [mem_filterMap, forall_exists_index, and_imp]
  constructor
  · intro hall pv hpv merged hkept
    have hmerged := hall merged pv hpv hkept
    rwa [mergedColumn_name (keptColumn_eq_some hkept).1] at hmerged
  · intro hall merged pv hpv hkept
    rw [mergedColumn_name (keptColumn_eq_some hkept).1]
    exact hall pv hpv merged hkept

variable (valueCase predicates) in
theorem length_longPart_le (pv : String) (page : SamplesPage V) :
    (longPart valueCase predicates pv page).length ≤ (page.samplesOf pv).length := by
  rw [longPart]
  cases page.columnOf pv with
  | none => exact Nat.zero_le _
  | some column =>
    rw [Option.elim_some]
    split
    · exact Nat.le_refl _
    · exact Nat.zero_le _

/-- **The batch has the samples of the long form** when both judge every column alike. -/
theorem widePart_eq (hanswer : ∀ merged, mergedColumn pages pv = some merged →
      ∃ keep, matchesColumnPredicates valueCase predicates merged = .ok keep)
    (hsame : ∀ page ∈ pages, ∀ column ∈ page.columns, column.name = pv →
      (∃ v, some v ∈ column.dataValues) → ∀ merged, mergedColumn pages pv = some merged →
        matchesColumnPredicates valueCase predicates column =
          matchesColumnPredicates valueCase predicates merged)
    (hgiven : ∀ merged, keptColumn valueCase predicates pages pv = some merged →
      pad (timestampsNs pages).length merged.dataValues = given pages pv) :
    widePart valueCase predicates pages pv =
      pages.flatMap (longPart valueCase predicates pv) := by
  have hpage : ∀ page ∈ pages, longPart valueCase predicates pv page =
      if (keptColumn valueCase predicates pages pv).isSome then page.samplesOf pv else [] := by
    intro page hp
    by_cases hset : ∃ v, some v ∈ page.valuesOf pv
    · rw [longPart]
      cases hcolumn : page.columnOf pv with
      | none =>
        rw [SamplesPage.valuesOf, hcolumn] at hset
        obtain ⟨v, hv⟩ := hset
        cases hv
      | some column =>
        obtain ⟨hc, rfl⟩ := SamplesPage.columnOf_eq_some hcolumn
        rw [SamplesPage.valuesOf_mem hc] at hset
        obtain ⟨merged, hmerged, -⟩ := mergedColumn_of_mem hp hc
        rw [Option.elim_some, hsame page hp column hc rfl hset merged hmerged, keptColumn, hmerged,
          Option.filter_some]
        split <;> rfl
    · have hnil := (page.samplesOf_eq_nil_iff pv).mpr hset
      have hle := length_longPart_le valueCase predicates pv page
      rw [hnil, length_nil, Nat.le_zero] at hle
      rw [eq_nil_of_length_eq_zero hle, hnil, ite_self]
  rw [flatMap_congr hpage, widePart]
  cases hkept : keptColumn valueCase predicates pages pv with
  | none => simp
  | some merged =>
    rw [Option.elim_some, hgiven merged hkept, cellRows_given]
    rfl

theorem keptColumn_of_answer {keep : Bool} (hmerged : mergedColumn pages pv = some merged)
    (hkeep : matchesColumnPredicates valueCase predicates merged = .ok keep) :
    keptColumn valueCase predicates pages pv = if keep then some merged else none := by
  rw [keptColumn, hmerged, Option.filter_some, hkeep, okOr_ok]

theorem longPart_of_answer (hc : column ∈ page.columns) {keep : Bool}
    (hkeep : matchesColumnPredicates valueCase predicates column = .ok keep) :
    longPart valueCase predicates column.name page =
      if keep then page.samplesOf column.name else [] := by
  rw [longPart, SamplesPage.columnOf_mem hc, Option.elim_some, hkeep, okOr_ok]

/-- The samples of one PV are the same only if the pages with a sample are judged as the merged
column is. -/
theorem judged_alike (hp : page ∈ pages) (hc : column ∈ page.columns)
    (hset : ∃ v, some v ∈ column.dataValues)
    (hmerged : mergedColumn pages column.name = some merged) {keep keep' : Bool}
    (hkeep : matchesColumnPredicates valueCase predicates merged = .ok keep)
    (hkeep' : matchesColumnPredicates valueCase predicates column = .ok keep')
    (hgiven : ∀ merged, keptColumn valueCase predicates pages column.name = some merged →
      pad (timestampsNs pages).length merged.dataValues = given pages column.name)
    (hperm : (widePart valueCase predicates pages column.name).Perm
      (pages.flatMap (longPart valueCase predicates column.name))) : keep' = keep := by
  have hkept := keptColumn_of_answer hmerged hkeep
  have hpart := longPart_of_answer hc hkeep'
  have hsamples : page.samplesOf column.name ≠ [] := by
    rw [ne_eq, page.samplesOf_eq_nil_iff, SamplesPage.valuesOf_mem hc]
    exact not_not_intro hset
  cases keep with
  | false =>
    have hnil : pages.flatMap (longPart valueCase predicates column.name) = [] := by
      rw [widePart, hkept] at hperm
      exact perm_nil.mp hperm.symm
    cases keep' with
    | false => rfl
    | true => exact absurd (hpart.symm.trans (flatMap_eq_nil_iff.mp hnil page hp)) hsamples
  | true =>
    have hlength : (pages.flatMap (longPart valueCase predicates column.name)).length =
        (pages.flatMap (·.samplesOf column.name)).length := by
      rw [← hperm.length_eq, widePart, hkept, if_pos rfl, Option.elim_some, hgiven merged hkept,
        cellRows_given]
    have hpage := length_eq_of_flatMap (fun page _ => length_longPart_le _ _ column.name page) hlength
      page hp
    cases keep' with
    | true => rfl
    | false =>
      rw [hpart] at hpage
      exact absurd (eq_nil_of_length_eq_zero hpage.symm) hsamples

/-! ## 3. The condition -/

variable (valueCase predicates) in
/-- A scan of requested PVs that returned. -/
structure Scan (pvs : List String) (pages : List (SamplesPage V))
    (table : Option (WideTable V)) : Prop where
  requested : requestedPvs predicates = .ok pvs
  columns : pvs ≠ [] → ∀ page ∈ pages, ∀ column ∈ page.columns, column.name ∈ pvs
  returned : wideTable valueCase predicates pages = .ok table

section

variable {pvs : List String} {pages : List (SamplesPage V)} {table : Option (WideTable V)}

theorem Scan.answer (h : Scan valueCase predicates pvs pages table) {page : SamplesPage V}
    (hp : page ∈ pages) {column : DataColumn V} (hc : column ∈ page.columns) :
    ∃ merged keep, mergedColumn pages column.name = some merged ∧
      matchesColumnPredicates valueCase predicates merged = .ok keep := by
  obtain ⟨hanswer, -, -⟩ := wideTable_ok h.requested h.returned
  obtain ⟨-, hnames⟩ := orderedPvs_spec h.requested pages h.columns
  obtain ⟨merged, hmerged, -⟩ := mergedColumn_of_mem hp hc
  obtain ⟨keep, hkeep⟩ := hanswer column.name (hnames page hp column hc) merged hmerged
  exact ⟨merged, keep, hmerged, hkeep⟩

theorem Scan.aligned_of_faithful (h : Scan valueCase predicates pvs pages table)
    (hfaithful : Faithful valueCase predicates pages table) :
    Aligned valueCase predicates pages := by
  obtain ⟨hnodup, hnames⟩ := orderedPvs_spec h.requested pages h.columns
  have hlong := long_perm valueCase predicates pages hnodup hnames
  obtain ⟨batches, hbatches, hperm⟩ := hfaithful.long
  obtain ⟨hanswered, hflatten⟩ := samplesLongBatches_ok_iff.mp (congrArg _ hbatches)
  rw [wideTable_rows h.requested h.returned, ← hflatten] at hperm
  intro before page after hpages column hc hset
  have hp : page ∈ pages := hpages ▸ mem_append_right before mem_cons_self
  have hpv := hnames page hp column hc
  have hgiven := (kept_given h.requested h.returned).mp hfaithful.cells column.name hpv
  obtain ⟨merged, keep, hmerged, hkeep⟩ := h.answer hp hc
  obtain ⟨keep', hkeep'⟩ := hanswered page hp column hc hset
  have hfirst := matches_first hp hc hset hmerged hkeep
  have hpart := perm_of_flatMap_perm (fun row => row.2.1) hnodup
    (fun pv _ row hrow => mem_widePart hrow)
    (fun pv _ row hrow => by
      obtain ⟨page, -, hrow⟩ := mem_flatMap.mp hrow
      exact mem_longPart hrow) (hperm.trans hlong) hpv
  obtain rfl := judged_alike hp hc hset hmerged hkeep hkeep' hgiven hpart
  refine ⟨hkeep'.trans hfirst.symm, fun htrue => ?_⟩
  obtain rfl := Except.ok.inj (hfirst.symm.trans htrue)
  have hkept := keptColumn_of_answer hmerged hkeep
  have hset' := (SamplesPage.valuesOf_mem hc).symm ▸ hset
  exact (merged_eq_given_iff hmerged).mp (hgiven merged hkept) before page after hpages hset'

theorem Scan.same_of_aligned (h : Scan valueCase predicates pvs pages table)
    (haligned : Aligned valueCase predicates pages) {page : SamplesPage V} (hp : page ∈ pages)
    {column : DataColumn V} (hc : column ∈ page.columns)
    (hset : ∃ v, some v ∈ column.dataValues) {merged : DataColumn V}
    (hmerged : mergedColumn pages column.name = some merged) :
    matchesColumnPredicates valueCase predicates column =
      matchesColumnPredicates valueCase predicates merged := by
  obtain ⟨before, after, hpages⟩ := append_of_mem hp
  obtain ⟨merged', keep, hmerged', hkeep⟩ := h.answer hp hc
  obtain rfl := Option.some.inj (hmerged'.symm.trans hmerged)
  rw [(haligned before page after hpages column hc hset).1,
    matches_first hp hc hset hmerged hkeep, hkeep]

theorem Scan.given_of_aligned (h : Scan valueCase predicates pvs pages table)
    (haligned : Aligned valueCase predicates pages) {pv : String} {merged : DataColumn V}
    (hkept : keptColumn valueCase predicates pages pv = some merged) :
    pad (timestampsNs pages).length merged.dataValues = given pages pv := by
  obtain ⟨hmerged, htrue⟩ := keptColumn_eq_some hkept
  refine (merged_eq_given_iff hmerged).mpr fun before page after hpages hset => ?_
  have hp : page ∈ pages := hpages ▸ mem_append_right before mem_cons_self
  rw [SamplesPage.valuesOf] at hset
  cases hcolumn : page.columnOf pv with
  | none =>
    rw [hcolumn] at hset
    obtain ⟨v, hv⟩ := hset
    cases hv
  | some column =>
    obtain ⟨hc, rfl⟩ := SamplesPage.columnOf_eq_some hcolumn
    rw [hcolumn] at hset
    obtain ⟨merged', keep, hmerged', hkeep⟩ := h.answer hp hc
    obtain rfl := Option.some.inj (hmerged'.symm.trans hmerged)
    rw [hkeep, okOr_ok] at htrue
    exact (haligned before page after hpages column hc hset).2
      (matches_first hp hc hset hmerged (htrue ▸ hkeep))

theorem Scan.faithful_of_aligned (h : Scan valueCase predicates pvs pages table)
    (haligned : Aligned valueCase predicates pages) :
    Faithful valueCase predicates pages table := by
  obtain ⟨hanswer, htime, -⟩ := wideTable_ok h.requested h.returned
  obtain ⟨hnodup, hnames⟩ := orderedPvs_spec h.requested pages h.columns
  have hvalues := (kept_given h.requested h.returned).mpr fun _ _ _ hkept =>
    h.given_of_aligned haligned hkept
  have hanswered : ∀ page ∈ pages, Answered valueCase predicates page := by
    intro page hp column hc hset
    obtain ⟨merged, keep, hmerged, hkeep⟩ := h.answer hp hc
    exact ⟨keep, (h.same_of_aligned haligned hp hc hset hmerged).trans hkeep⟩
  have hparts : (orderedPvs pvs (mergePages pages)).flatMap
      (widePart valueCase predicates pages) =
        (orderedPvs pvs (mergePages pages)).flatMap fun pv =>
          pages.flatMap (longPart valueCase predicates pv) :=
    flatMap_congr fun pv hpv => widePart_eq (hanswer pv hpv)
      (fun page hp column hc hname hset merged hmerged =>
        h.same_of_aligned haligned hp hc hset (hname ▸ hmerged))
      fun merged hkept => h.given_of_aligned haligned hkept
  have hrun := samplesLongBatches_ok_iff.mpr ⟨hanswered, rfl⟩
  refine ⟨htime, fun t ht column hc => ?_, hvalues, ?_⟩
  · rw [hvalues t ht column hc, htime t ht, length_given]
  · cases hbatches : samplesLongBatches valueCase predicates pages with
    | error e =>
      rw [hbatches] at hrun
      cases hrun
    | ok batches =>
      rw [hbatches] at hrun
      refine ⟨batches, rfl, ?_⟩
      rw [wideTable_rows h.requested h.returned, hparts, Except.ok.inj hrun]
      exact (long_perm valueCase predicates pages hnodup hnames).symm

end

/-- **The batch has every value at its timestamp and the samples of the long form exactly when the
pages are aligned.** A column is padded at its end only: a PV that is missing from a last page
keeps its place, one that is missing from a first page has its values beside the times of that
page. -/
theorem wideTable_faithful_iff (valueCase : DataValue V → ValueCase) (predicates : List Predicate)
    (pvs : List String) (pages : List (SamplesPage V)) (table : Option (WideTable V))
    (h : Scan valueCase predicates pvs pages table) :
    Faithful valueCase predicates pages table ↔ Aligned valueCase predicates pages :=
  ⟨h.aligned_of_faithful, h.faithful_of_aligned⟩

def caseOf : DataValue Int → ValueCase
  | .intValue _ => .intValue
  | _ => .doubleValue

def intColumn (name : String) (values : List Int) : DataColumn Int :=
  ⟨name, {}, values.map fun n => some (.intValue n)⟩

theorem intColumn_fits {name : String} {n : Int} {seconds : Nat} :
    (intColumn name [n]).dataValues.length ≤ [(⟨seconds, 0⟩ : TimestampEntry)].length :=
  Nat.le_refl 1

/-- A page with both PVs at one time. -/
def bothPage (seconds : Nat) (a b : Int) : SamplesPage Int where
  timestamps := [⟨seconds, 0⟩]
  columns := [intColumn "A" [a], intColumn "B" [b]]
  names_nodup := (by decide : (["A", "B"] : List String).Nodup)
  named := by
    intro column hc
    rcases mem_cons.mp hc with rfl | hc
    · exact (by decide : "A" ≠ "")
    · exact mem_singleton.mp hc ▸ (by decide : "B" ≠ "")
  fits := by
    intro column hc
    rcases mem_cons.mp hc with rfl | hc
    · exact intColumn_fits
    · exact mem_singleton.mp hc ▸ intColumn_fits

/-- A page with one PV at one time. -/
def onePage (seconds : Nat) (name : String) (n : Int) (hname : name ≠ "") : SamplesPage Int where
  timestamps := [⟨seconds, 0⟩]
  columns := [intColumn name [n]]
  names_nodup := nodup_cons.mpr ⟨not_mem_nil, nodup_nil⟩
  named := fun _ hc => mem_singleton.mp hc ▸ hname
  fits := fun _ hc => mem_singleton.mp hc ▸ intColumn_fits

def predicatesAB : List Predicate := [⟨"pv", .IN, [.string "A", .string "B"]⟩]

/-- PV `B` is missing from the second page only. -/
def endsEarly : List (SamplesPage Int) := [bothPage 1 10 20, onePage 2 "A" 11 (by decide)]

/-- PV `B` is missing from the first page. -/
def startsLate : List (SamplesPage Int) :=
  [onePage 1 "A" 10 (by decide), onePage 2 "B" 20 (by decide)]

theorem endsEarly_scan : Scan caseOf predicatesAB ["A", "B"] endsEarly
    (some ⟨[1000000000, 2000000000],
      [⟨"A", .int32, {}, [some (.intValue 10), some (.intValue 11)]⟩,
        ⟨"B", .int32, {}, [some (.intValue 20), none]⟩]⟩) where
  requested := rfl
  columns := by decide
  returned := rfl

theorem endsEarly_aligned : Aligned caseOf predicatesAB endsEarly := by
  intro before page after hpages column hc _
  rcases before with _ | ⟨earlier, before⟩
  · obtain ⟨rfl, -⟩ := List.cons.inj hpages
    refine ⟨?_, fun _ earlier hearlier => absurd hearlier not_mem_nil⟩
    rcases mem_cons.mp hc with rfl | hc
    · rfl
    · exact mem_singleton.mp hc ▸ rfl
  · obtain ⟨rfl, hrest⟩ := List.cons.inj hpages
    rcases before with _ | ⟨earlier, before⟩
    · obtain ⟨rfl, -⟩ := List.cons.inj hrest
      obtain rfl := mem_singleton.mp hc
      exact ⟨rfl, fun _ earlier hearlier => mem_singleton.mp hearlier ▸ rfl⟩
    · cases before <;> cases (List.cons.inj hrest).2

/-- A PV that ends early keeps its place. -/
theorem endsEarly_faithful : Aligned caseOf predicatesAB endsEarly ∧
    ∃ table, Scan caseOf predicatesAB ["A", "B"] endsEarly table ∧
      Faithful caseOf predicatesAB endsEarly table :=
  ⟨endsEarly_aligned, _, endsEarly_scan, (wideTable_faithful_iff caseOf predicatesAB ["A", "B"]
    endsEarly _ endsEarly_scan).mpr endsEarly_aligned⟩

/-- A PV that starts late does not: its value at the second timestamp is shown at the first. -/
theorem startsLate_not_faithful :
    ∃ table, wideTable caseOf predicatesAB startsLate = .ok table ∧
      ¬Faithful caseOf predicatesAB startsLate table := by
  refine ⟨some ⟨[1000000000, 2000000000],
    [⟨"A", .int32, {}, [some (.intValue 10), none]⟩,
      ⟨"B", .int32, {}, [some (.intValue 20), none]⟩]⟩, rfl, fun hfaithful => ?_⟩
  have hcells := hfaithful.cells _ rfl ⟨"B", .int32, {}, [some (.intValue 20), none]⟩ (by decide)
  exact absurd hcells (by decide)

end MldpDriver.Query.Samples
