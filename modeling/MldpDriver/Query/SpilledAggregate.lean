/-
# A spilled aggregation and the one in memory

Spilling keeps each group together with all its rows, in their order, so no aggregate of a group
can come out differently.  The types of the columns can: every hand settles its own.
-/
import MldpDriver.Query.GroupedColumns

namespace MldpDriver.Query.Aggregate

open scoped List
open Lib.KeySplit
open Lib.Loop

variable {D X : Type} {m n : Nat}

/-! ## 1. The outcome of an aggregation -/

/-- The batches that have rows. -/
def withRows (batches : List (EvaluatedBatch D X m n)) : List (EvaluatedBatch D X m n) :=
  batches.filter fun batch => !batch.rows.isEmpty

/-- The hands of an aggregation. -/
def hands (lib : ValueLib D X) (settings : SpillSettings)
    (overBudget : List (TypedRow D X m n) → Bool) (batches : List (EvaluatedBatch D X m n)) :
    List (List (TypedRow D X m n)) :=
  dealt lib settings overBudget kMaxDepth (withRows batches)

variable {lib : ValueLib D X} {calls : Fin n → AggregateCall} {settings : SpillSettings}
  {overBudget : List (TypedRow D X m n) → Bool}
variable {batches : List (EvaluatedBatch D X m n)}

theorem withRows_rows_ne_nil :
    ∀ batch ∈ withRows batches, batch.rows ≠ [] := fun batch hbatch => by
  simpa [List.isEmpty_iff] using (List.mem_filter.mp hbatch).2

theorem rowsOfBatches_withRows (batches : List (EvaluatedBatch D X m n)) :
    rowsOfBatches (withRows batches) = rowsOfBatches batches := by
  induction batches with
  | nil => rfl
  | cons batch batches ih =>
    have hcons : rowsOfBatches (batch :: batches) = batch.typedRows ++ rowsOfBatches batches :=
      List.flatMap_cons ..
    rw [hcons, ← ih, withRows, List.filter_cons]
    split
    · exact List.flatMap_cons ..
    · rename_i hempty
      have hrows : batch.rows = [] := by simpa using hempty
      rw [EvaluatedBatch.typedRows, hrows]
      rfl

variable {gs : List (InMemoryGroups D X m n × List (TypedRow D X m n))}
variable {sets : List (List (TypedRow D X m n))}
variable {outputs : List (OutputBatch D X m n)}

theorem mapM_finish_iff (h : List.Forall₂ (Holds lib calls) gs sets) :
    gs.mapM (fun g => g.1.finish lib calls) = some outputs ↔
      (∀ rows ∈ sets, ∀ k ∈ groupKeys lib rows, Built lib calls (settled lib calls rows) rows k) ∧
        sets.map (outputOf lib calls) = outputs := by
  induction h generalizing outputs with
  | nil => simp
  | @cons g rows gs sets hholds _ ih =>
    rw [mapM_cons_eq_some, List.forall_mem_cons, List.map_cons]
    constructor
    · rintro ⟨o, os, ho, hos, rfl⟩
      obtain ⟨hbuilt, rfl⟩ := (hholds.2.finish_iff o).mp ho
      obtain ⟨hbuilts, rfl⟩ := ih.mp hos
      exact ⟨⟨hbuilt, hbuilts⟩, rfl⟩
    · rintro ⟨⟨hbuilt, hbuilts⟩, rfl⟩
      exact ⟨_, _, (hholds.2.finish_iff _).mpr ⟨hbuilt, rfl⟩, ih.mpr ⟨hbuilts, rfl⟩, rfl⟩

theorem describable_of_holds (h : List.Forall₂ (Holds lib calls) gs sets) :
    ∀ rows ∈ sets, Describable lib calls rows := by
  induction h with
  | nil => simp
  | cons hholds _ ih =>
    exact List.forall_mem_cons.mpr ⟨exists_describes_iff.mp ⟨_, hholds.2⟩, ih⟩

/-- **The outcome of an aggregation**: the output of each hand. -/
theorem aggregate_eq_some_iff :
    aggregate lib settings calls overBudget batches = some outputs ↔
      HandsAgree lib settings overBudget 0 (withRows batches) ∧
      (∀ rows ∈ hands lib settings overBudget batches, Describable lib calls rows ∧
        ∀ k ∈ groupKeys lib rows, Built lib calls (settled lib calls rows) rows k) ∧
      (hands lib settings overBudget batches).map (outputOf lib calls) = outputs := by
  have hne : ∀ batch ∈ withRows batches, batch.rows ≠ [] := withRows_rows_ne_nil
  unfold aggregate
  constructor
  · intro h
    obtain ⟨gs, hgs, hfinish⟩ := Option.bind_eq_some_iff.mp h
    obtain ⟨sets, hsets, hholds⟩ := aggregateBatches_simulates kMaxDepth hne hgs
    obtain ⟨hagree, rfl⟩ := (aggregateBatches_rows_iff 3 _ sets).mp hsets
    obtain ⟨hbuilt, houtputs⟩ := (mapM_finish_iff hholds).mp hfinish
    exact ⟨hagree, fun rows hrows => ⟨describable_of_holds hholds rows hrows, hbuilt rows hrows⟩,
      houtputs⟩
  · rintro ⟨hagree, hrows, houtputs⟩
    have hsets := (aggregateBatches_rows_iff 3 (withRows batches) _).mpr ⟨hagree, rfl⟩
    obtain ⟨gs, hgs⟩ := aggregateBatches_follows kMaxDepth hne hsets fun rows h => (hrows rows h).1
    obtain ⟨sets, hsets', hholds⟩ := aggregateBatches_simulates kMaxDepth hne hgs
    obtain rfl := Option.some.inj (hsets.symm.trans hsets')
    refine Option.bind_eq_some_iff.mpr ⟨gs, hgs, (mapM_finish_iff hholds).mpr
      ⟨fun rows h => (hrows rows h).2, houtputs⟩⟩

/-! ## 2. The hands and the whole -/

theorem dealt_of_noFreeze {remaining : Nat} (h : freezesAfter settings overBudget batches = none) :
    dealt lib settings overBudget remaining batches = [rowsOfBatches batches] := by
  cases remaining with
  | zero => rfl
  | succ remaining => rw [dealt, h]

theorem hands_rowsOf :
    ∀ rows ∈ hands lib settings overBudget batches, ∀ k ∈ groupKeys lib rows,
      rowsOf (typedKey lib) rows k = rowsOf (typedKey lib) (rowsOfBatches batches) k := by
  intro rows hrows k hk
  rw [← rowsOfBatches_withRows]
  by_cases hm : m = 0
  · have hnone : freezesAfter settings overBudget (withRows batches) = none :=
      if_neg (by simp [hm])
    rw [hands, dealt_of_noFreeze hnone, List.mem_singleton] at hrows
    rw [hrows]
  · rw [groupKeys, if_neg hm, mem_firstRows_keys] at hk
    obtain ⟨t, ht, rfl⟩ := List.mem_map.mp hk
    exact (dealt_splits kMaxDepth (withRows batches)).rowsOf_eq rows hrows t ht

theorem hands_groupKeys (batches : List (EvaluatedBatch D X m n)) :
    (hands lib settings overBudget batches).flatMap (groupKeys lib) ~
      groupKeys lib (rowsOfBatches batches) := by
  rw [← rowsOfBatches_withRows]
  by_cases hm : m = 0
  · have hnone : freezesAfter settings overBudget (withRows batches) = none :=
      if_neg (by simp [hm])
    rw [hands, dealt_of_noFreeze hnone, List.flatMap_singleton]
  · have hkeys : groupKeys (m := m) (n := n) lib = fun rows =>
        (firstRows (typedKey lib) rows).map (typedKey lib) := funext fun rows => if_neg hm
    have hsplits : Splits (typedKey lib) (rowsOfBatches (withRows batches))
        (dealt lib settings overBudget kMaxDepth (withRows batches)) :=
      dealt_splits kMaxDepth (withRows batches)
    have hperm := hsplits.firstRows_perm.map (typedKey lib)
    rw [List.map_flatMap] at hperm
    rw [hkeys]
    exact hperm

theorem hands_keys_subset :
    ∀ rows ∈ hands lib settings overBudget batches, ∀ k ∈ groupKeys lib rows,
      k ∈ groupKeys lib (rowsOfBatches batches) := fun rows hrows _ hk =>
  (hands_groupKeys batches).mem_iff.mp (List.mem_flatMap.mpr ⟨rows, hrows, hk⟩)

section congr

variable {rows rows' : List (TypedRow D X m n)} {k : List UInt8}

theorem groupState_congr (h : rowsOf (typedKey lib) rows k = rowsOf (typedKey lib) rows' k)
    (j : Fin n) : groupState lib calls rows j k = groupState lib calls rows' j k := by
  rw [groupState, groupState, keyState, keyState, h]

theorem keyValues_congr (h : rowsOf (typedKey lib) rows k = rowsOf (typedKey lib) rows' k) :
    keyValues lib rows k = keyValues lib rows' k := by
  rw [keyValues, keyValues, h]

theorem built_congr (s : SettledColumns m n)
    (h : rowsOf (typedKey lib) rows k = rowsOf (typedKey lib) rows' k) :
    Built lib calls s rows k ↔ Built lib calls s rows' k := by
  simp only [Built, keyCell, aggregateCell, keyValues_congr h, groupState_congr h]

theorem keyRow_congr (s : SettledColumns m n)
    (h : rowsOf (typedKey lib) rows k = rowsOf (typedKey lib) rows' k) :
    keyRow lib calls s rows k = keyRow lib calls s rows' k := by
  simp only [keyRow, keyCell, aggregateCell, keyValues_congr h, groupState_congr h]

end congr

/-! ## 3. Same result -/

/-- **The same result**: the same rows up to their order, and the same types wherever there are
rows. -/
def SameResult (outputs reference : List (OutputBatch D X m n)) : Prop :=
  outputs.flatMap OutputBatch.rows ~ reference.flatMap OutputBatch.rows ∧
    ∀ o ∈ outputs, o.rowCount ≠ 0 → ∀ r ∈ reference, r.rowCount ≠ 0 → o.types = r.types

/-- **Every hand settles the types of the whole.** Types are settled by the values present, and a
hand without rows settles nothing that matters. -/
def TypesAgree (lib : ValueLib D X) (settings : SpillSettings) (calls : Fin n → AggregateCall)
    (overBudget : List (TypedRow D X m n) → Bool) (batches : List (EvaluatedBatch D X m n)) : Prop :=
  ∀ rows ∈ hands lib settings overBudget batches, rows ≠ [] →
    settled lib calls rows = settled lib calls (rowsOfBatches batches)

theorem outputOf_rowCount_ne_zero {rows : List (TypedRow D X m n)} (hrows : rows ≠ []) :
    (outputOf lib calls rows).rowCount ≠ 0 := by
  obtain ⟨t, rest, rfl⟩ := List.exists_cons_of_ne_nil hrows
  have hmem : typedKey lib t ∈ groupKeys lib (t :: rest) :=
    typedKey_mem_groupKeys List.mem_cons_self
  exact Nat.ne_of_gt (List.length_pos_of_mem hmem)

theorem hands_of_inMemory (h : settings.canSpill = false)
    (batches : List (EvaluatedBatch D X m n)) :
    hands lib settings overBudget batches = [rowsOfBatches batches] := by
  rw [hands, dealt_of_noFreeze (if_neg (by simp [h])), rowsOfBatches_withRows]

theorem TypesAgree.settled_eq (h : TypesAgree lib settings calls overBudget batches) :
    ∀ rows ∈ hands lib settings overBudget batches, ∀ k ∈ groupKeys lib rows,
      settled lib calls rows = settled lib calls (rowsOfBatches batches) := by
  intro rows hrows k hk
  by_cases hne : rows = []
  · by_cases hm : m = 0
    · have hnone : freezesAfter settings overBudget (withRows batches) = none :=
        if_neg (by simp [hm])
      rw [hands, dealt_of_noFreeze hnone, List.mem_singleton, rowsOfBatches_withRows] at hrows
      rw [hrows]
    · rw [hne, groupKeys, if_neg hm] at hk
      exact absurd hk (by simp [firstRows])
  · exact h rows hrows hne

/-! ## 4. One schema -/

theorem findSome?_const {α β : Type} {f : α → Option β} {c : Option β} {l : List α} (hl : l ≠ [])
    (hf : ∀ x ∈ l, f x = c) : l.findSome? f = c := by
  cases c with
  | none => exact List.findSome?_eq_none_iff.mpr hf
  | some c =>
    obtain ⟨x, l, rfl⟩ := List.exists_cons_of_ne_nil hl
    rw [List.findSome?_cons, hf x List.mem_cons_self]

theorem settled_requested {types : BatchTypes m n} {rows : List (TypedRow D X m n)} (hrows : rows ≠ [])
    (htypes : ∀ t ∈ rows, t.1 = types) :
    (∀ j, ((settled lib calls rows).keys j).requested = preservedType (types.keys j)) ∧
      ∀ j, ((settled lib calls rows).aggregates j).requested =
        (makeAccumulator lib (calls j) (argumentType calls types j)).type := by
  refine ⟨fun j => findSome?_const hrows fun t ht => by rw [htypes t ht], fun j => ?_⟩
  obtain ⟨t, rest, rfl⟩ := List.exists_cons_of_ne_nil hrows
  have ht := htypes t List.mem_cons_self
  simp only [settled, List.head?_cons, Option.bind_some, ht, settleAggregate, makeAccumulator]
  cases (calls j).function <;> rfl

theorem SettledColumns.eq_of {s s' : SettledColumns m n} (htypes : s.types = s'.types)
    (hkeys : ∀ j, (s.keys j).requested = (s'.keys j).requested)
    (haggregates : ∀ j, (s.aggregates j).requested = (s'.aggregates j).requested) : s = s' := by
  obtain ⟨keys, aggregates⟩ := s
  obtain ⟨keys', aggregates'⟩ := s'
  rw [SettledColumns.mk.injEq]
  constructor
  · funext j
    have hj := congrFun (congrArg BatchTypes.keys htypes) j
    exact Settled.mk.injEq .. ▸ ⟨hkeys j, hj⟩
  · funext j
    have hj := congrFun (congrArg BatchTypes.arguments htypes) j
    exact Settled.mk.injEq .. ▸ ⟨haggregates j, hj⟩

theorem types_of_oneSchema (h : OneSchema (withRows batches)) :
    ∀ t ∈ rowsOfBatches batches, ∀ t' ∈ rowsOfBatches batches, t.1 = t'.1 := by
  intro t ht t' ht'
  rw [← rowsOfBatches_withRows] at ht ht'
  obtain ⟨batch, hbatch, hmem⟩ := List.mem_flatMap.mp ht
  obtain ⟨batch', hbatch', hmem'⟩ := List.mem_flatMap.mp ht'
  obtain ⟨row, -, rfl⟩ := List.mem_map.mp hmem
  obtain ⟨row', -, rfl⟩ := List.mem_map.mp hmem'
  exact h batch hbatch batch' hbatch'

/-! ## 5. The condition -/

/-- **A spilled aggregation has the result of the one in memory** when every hand has batches of
one schema and settles the types of the whole; for batches of one schema exactly then.  A union
column whose hand has integers only becomes a column of integers there, where the whole becomes one
of strings (`spilled_types_differ`), and what is written into the column follows. -/
theorem aggregate_sameResult {unlimited : SpillSettings} (hunlimited : unlimited.canSpill = false)
    {unlimitedBudget : List (TypedRow D X m n) → Bool} {whole batches : List (EvaluatedBatch D X m n)}
    (hsplit : rowsOfBatches batches = rowsOfBatches whole) {reference : List (OutputBatch D X m n)}
    (hreference : aggregate lib unlimited calls unlimitedBudget whole = some reference) :
    (HandsAgree lib settings overBudget 0 (withRows batches) →
      TypesAgree lib settings calls overBudget batches →
      ∃ outputs, aggregate lib settings calls overBudget batches = some outputs ∧
        SameResult outputs reference) ∧
    ((∃ outputs, aggregate lib settings calls overBudget batches = some outputs ∧
        SameResult outputs reference) →
      HandsAgree lib settings overBudget 0 (withRows batches) ∧
      (OneSchema (withRows batches) → TypesAgree lib settings calls overBudget batches)) := by
  obtain ⟨-, hwhole, hreference⟩ := aggregate_eq_some_iff.mp hreference
  rw [hands_of_inMemory hunlimited, List.forall_mem_singleton, ← hsplit] at hwhole
  rw [hands_of_inMemory hunlimited, List.map_singleton, ← hsplit] at hreference
  subst hreference
  constructor
  · intro hagree htypes
    refine ⟨_, aggregate_eq_some_iff.mpr ⟨hagree, fun rows hrows => ⟨fun j k hk => ?_,
      fun k hk => ?_⟩, rfl⟩, ?_, ?_⟩
    · have hstate := hwhole.1 j k (hands_keys_subset rows hrows k hk)
      rwa [keyState, ← hands_rowsOf rows hrows k hk] at hstate
    · rw [htypes.settled_eq rows hrows k hk, built_congr _ (hands_rowsOf rows hrows k hk)]
      exact hwhole.2 k (hands_keys_subset rows hrows k hk)
    · -- the rows of each hand are those of its keys in the whole
      have hrows : ∀ rows ∈ hands lib settings overBudget batches,
          (outputOf lib calls rows).rows = (groupKeys lib rows).map (keyRow lib calls
            (settled lib calls (rowsOfBatches batches)) (rowsOfBatches batches)) := by
        intro rows hrows
        rw [outputOf_rows]
        refine List.map_congr_left fun k hk => ?_
        rw [htypes.settled_eq rows hrows k hk, keyRow_congr _ (hands_rowsOf rows hrows k hk)]
      rw [List.flatMap_map, List.flatMap_singleton, outputOf_rows]
      calc (hands lib settings overBudget batches).flatMap (fun rows => (outputOf lib calls rows).rows)
          = ((hands lib settings overBudget batches).flatMap (groupKeys lib)).map (keyRow lib calls
              (settled lib calls (rowsOfBatches batches)) (rowsOfBatches batches)) := by
            rw [List.map_flatMap]
            exact List.flatMap_congr hrows
        _ ~ _ := (hands_groupKeys batches).map _
    · rintro o ho hcount r hr -
      obtain ⟨rows, hrows, rfl⟩ := List.mem_map.mp ho
      rw [List.mem_singleton.mp hr]
      obtain ⟨k, hk⟩ := List.exists_mem_of_length_pos (Nat.pos_of_ne_zero hcount)
      exact congrArg SettledColumns.types (htypes.settled_eq rows hrows k hk)
  · rintro ⟨outputs, houtputs, -, hsame⟩
    obtain ⟨hagree, -, rfl⟩ := aggregate_eq_some_iff.mp houtputs
    refine ⟨hagree, fun hone rows hrows hne => ?_⟩
    have hsubset : ∀ t ∈ rows, t ∈ rowsOfBatches batches := by
      rw [← rowsOfBatches_withRows]
      exact (dealt_splits kMaxDepth (withRows batches)).subset rows hrows
    obtain ⟨t, rest, hrest⟩ := List.exists_cons_of_ne_nil hne
    have ht : t ∈ rowsOfBatches batches := hsubset t (by rw [hrest]; exact List.mem_cons_self)
    have hwholeNe : rowsOfBatches batches ≠ [] := List.ne_nil_of_mem ht
    have htypes := types_of_oneSchema hone
    have hrequested := @settled_requested _ _ _ _ lib calls _ _ hne
      fun t' ht' => htypes t' (hsubset t' ht') t ht
    have hrequested' := @settled_requested _ _ _ _ lib calls _ _ hwholeNe
      fun t' ht' => htypes t' ht' t ht
    refine SettledColumns.eq_of ?_ (fun j => (hrequested.1 j).trans (hrequested'.1 j).symm)
      fun j => (hrequested.2 j).trans (hrequested'.2 j).symm
    exact hsame _ (List.mem_map_of_mem hrows) (outputOf_rowCount_ne_zero hne) _
      (List.mem_singleton_self _) (outputOf_rowCount_ne_zero hwholeNe)

/-- Integers for doubles. -/
def integerLib : ValueLib Int Unit where
  lt a b := decide (a < b)
  zero := 0
  add a b := a + b
  divNat a n := a / n
  ofInt n := n
  toInt n := n
  toFloat n := n
  keyBytes := littleEndian 8
  doubleText n := (toString n).toUTF8.data.toList
  otherText _ := []
  accepts _ _ := true
  utf8 _ := true

/-- A batch with an integer key and a union column. -/
def keyedBatch (rows : List (Value Int Unit × Value Int Unit)) : EvaluatedBatch Int Unit 1 1 where
  types := ⟨fun _ => .int64, fun _ => .union⟩
  rows := rows.map fun row => ⟨fun _ => row.1, fun _ => row.2⟩

/-- `SELECT key, MIN(value) … GROUP BY key` -/
def minCall : Fin 1 → AggregateCall := fun _ => { function := .choice .min }

/-- Two partitions; one hash for all keys. -/
def onePartition (canSpill : Bool) : SpillSettings where
  hash _ := 0
  spillPartitions := 2
  canSpill := canSpill

/-- Integers under two keys: the memory and the partition both settle integers. -/
theorem aggregate_sameResult_integers : ∃ reference,
    aggregate integerLib (onePartition false) minCall (fun _ => true)
        [keyedBatch [(.int 1, .int 7)], keyedBatch [(.int 2, .int 5)]] = some reference ∧
      ∃ outputs, aggregate integerLib (onePartition true) minCall (fun _ => true)
          [keyedBatch [(.int 1, .int 7)], keyedBatch [(.int 2, .int 5)]] = some outputs ∧
        SameResult outputs reference := by
  have hsome : (aggregate integerLib (onePartition false) minCall (fun _ => true)
      [keyedBatch [(.int 1, .int 7)], keyedBatch [(.int 2, .int 5)]]).isSome = true := by
    decide +kernel
  obtain ⟨reference, hreference⟩ := Option.isSome_iff_exists.mp hsome
  have hone : OneSchema (withRows
      [keyedBatch [(.int 1, .int 7)], keyedBatch [(.int 2, .int 5)]]) := by
    unfold OneSchema
    decide +kernel
  have htypes : TypesAgree integerLib (onePartition true) minCall (fun _ => true)
      [keyedBatch [(.int 1, .int 7)], keyedBatch [(.int 2, .int 5)]] := by
    unfold TypesAgree
    decide +kernel
  exact ⟨reference, hreference, (aggregate_sameResult rfl rfl hreference).1 hone.handsAgree htypes⟩

/-- A text under one key, an integer under the next. -/
def textThenInteger : List (EvaluatedBatch Int Unit 1 1) :=
  [keyedBatch [(.int 1, .string [97])], keyedBatch [(.int 2, .int 5)]]

/-- **The types differ**: in memory the column is one of strings, and the partition that has the
integer only builds one of integers. -/
theorem spilled_types_differ : ∃ reference,
    aggregate integerLib (onePartition false) minCall (fun _ => true) textThenInteger =
        some reference ∧
      ¬ ∃ outputs, aggregate integerLib (onePartition true) minCall (fun _ => true)
          textThenInteger = some outputs ∧ SameResult outputs reference := by
  have hreference : (aggregate integerLib (onePartition false) minCall (fun _ => true)
      textThenInteger).map (fun os => os.map fun o => (o.rowCount, (o.aggregateColumns 0).type)) =
      some [(2, .string)] := by decide +kernel
  have houtputs : (aggregate integerLib (onePartition true) minCall (fun _ => true)
      textThenInteger).map (fun os => os.map fun o => (o.rowCount, (o.aggregateColumns 0).type)) =
      some [(1, .string), (1, .int64)] := by decide +kernel
  obtain ⟨reference, href, htypes⟩ := Option.map_eq_some_iff.mp hreference
  refine ⟨reference, href, ?_⟩
  rintro ⟨outputs, hout, -, hsame⟩
  rw [hout, Option.map_some, Option.some_inj] at houtputs
  obtain ⟨o, ho, hotype⟩ := List.mem_map.mp (by rw [houtputs]; simp :
    (1, ArrowType.int64) ∈ outputs.map fun o => (o.rowCount, (o.aggregateColumns 0).type))
  obtain ⟨r, hr, hrtype⟩ := List.mem_map.mp (by rw [htypes]; simp :
    (2, ArrowType.string) ∈ reference.map fun o => (o.rowCount, (o.aggregateColumns 0).type))
  rw [Prod.mk.injEq] at hotype hrtype
  have heq := hsame o ho (by rw [hotype.1]; decide) r hr (by rw [hrtype.1]; decide)
  have hcolumn : (o.aggregateColumns 0).type = (r.aggregateColumns 0).type :=
    congrFun (congrArg BatchTypes.arguments heq) 0
  rw [hotype.2, hrtype.2] at hcolumn
  exact absurd hcolumn (by decide)

end MldpDriver.Query.Aggregate
