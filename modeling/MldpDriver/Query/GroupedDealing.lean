/-
# Which rows are aggregated together

The control of the spilling looks at rows only (`rowStore`).  What it comes to (`dealt`): up to the
first batch that goes over the budget every row stays in memory, and after it every row of a key
that came by then.  The other rows are dealt out by the hashes of their keys, and each hand again
like the whole, with the next hash.  No key gets into two hands (`dealt_splits`).  -/
import MldpDriver.Lib.Loop
import MldpDriver.Query.GroupedRows

namespace MldpDriver.Query.Aggregate

open Lib.KeySplit List
open Lib.Loop

variable {D X : Type} {m n : Nat}

/-- Rows as groups: consuming never fails. -/
def rowStore (lib : ValueLib D X) (overBudget : List (TypedRow D X m n) → Bool) :
    GroupStore (List (TypedRow D X m n)) D X m n where
  empty := []
  consume rows batch := some (rows ++ batch.typedRows)
  contains rows key := (tableOf lib rows).index.contains key
  overBudget := overBudget

/-! ## 1. Dealing

A hand is refused when its batches differ in their schema (`HandsAgree`), and this is all that can
go wrong (`aggregateBatches_rows_iff`). -/

def rowsOfBatches (batches : List (EvaluatedBatch D X m n)) : List (TypedRow D X m n) :=
  batches.flatMap EvaluatedBatch.typedRows

/-- The keys of the rows of batches. -/
def hasKey (lib : ValueLib D X) (batches : List (EvaluatedBatch D X m n)) (key : List UInt8) : Bool :=
  ((rowsOfBatches batches).map (typedKey lib)).contains key

def keptRows (lib : ValueLib D X) (p : List UInt8 → Bool) (rows : List (EvaluatedRow D X m n)) :
    List (EvaluatedRow D X m n) :=
  rows.filter fun row => p (row.key lib)

/-- The rows of a batch with some keys; no batch without rows. -/
def keepBatch (lib : ValueLib D X) (p : List UInt8 → Bool) (batch : EvaluatedBatch D X m n) :
    Option (EvaluatedBatch D X m n) :=
  if (keptRows lib p batch.rows).isEmpty then none
  else some { batch with rows := keptRows lib p batch.rows }

def keep (lib : ValueLib D X) (p : List UInt8 → Bool) (batches : List (EvaluatedBatch D X m n)) :
    List (EvaluatedBatch D X m n) :=
  batches.filterMap (keepBatch lib p)

/-- The batches up to the first that goes over the budget. -/
def frozenPrefix (overBudget : List (TypedRow D X m n) → Bool) :
    List (EvaluatedBatch D X m n) → List (EvaluatedBatch D X m n) →
      Option (List (EvaluatedBatch D X m n))
  | _, [] => none
  | taken, batch :: rest =>
    if overBudget (rowsOfBatches (taken ++ [batch])) then some (taken ++ [batch])
    else frozenPrefix overBudget (taken ++ [batch]) rest

/-- The batches the groups are frozen after, when they are. -/
def freezesAfter (settings : SpillSettings) (overBudget : List (TypedRow D X m n) → Bool)
    (batches : List (EvaluatedBatch D X m n)) : Option (List (EvaluatedBatch D X m n)) :=
  if decide (0 < m) && settings.canSpill then frozenPrefix overBudget [] batches else none

/-- The keys that go to a partition. -/
def dealtTo (settings : SpillSettings) (depth : Nat) (held : List UInt8 → Bool) (index : Nat)
    (key : List UInt8) : Bool :=
  !held key && settings.partition depth key == index

/-- **The rows that are aggregated together.** -/
def dealt (lib : ValueLib D X) (settings : SpillSettings)
    (overBudget : List (TypedRow D X m n) → Bool) :
    Nat → List (EvaluatedBatch D X m n) → List (List (TypedRow D X m n))
  | 0, batches => [rowsOfBatches batches]
  | remaining + 1, batches =>
    match freezesAfter settings overBudget batches with
    | none => [rowsOfBatches batches]
    | some taken =>
      ((rowsOfBatches batches).filter fun t => hasKey lib taken (typedKey lib t)) ::
        (List.range settings.partitionCount).flatMap fun index =>
          let hand := keep lib
            (dealtTo settings (kMaxDepth - (remaining + 1)) (hasKey lib taken) index) batches
          if hand.isEmpty then [] else dealt lib settings overBudget remaining hand

/-- Batches of one schema. -/
def OneSchema (batches : List (EvaluatedBatch D X m n)) : Prop :=
  ∀ batch ∈ batches, ∀ batch' ∈ batches, batch.types = batch'.types

/-- **Every hand has batches of one schema.** -/
def HandsAgree (lib : ValueLib D X) (settings : SpillSettings)
    (overBudget : List (TypedRow D X m n) → Bool) (depth : Nat)
    (batches : List (EvaluatedBatch D X m n)) : Prop :=
  ∀ taken, freezesAfter settings overBudget batches = some taken →
    ∀ index < settings.partitionCount,
      OneSchema (keep lib (dealtTo settings depth (hasKey lib taken) index) batches)

variable {lib : ValueLib D X} {settings : SpillSettings}
  {overBudget : List (TypedRow D X m n) → Bool}

/-! ## 2. The rows of a hand -/

@[simp] theorem rowsOfBatches_nil : rowsOfBatches ([] : List (EvaluatedBatch D X m n)) = [] := rfl

theorem rowsOfBatches_append (batches more : List (EvaluatedBatch D X m n)) :
    rowsOfBatches (batches ++ more) = rowsOfBatches batches ++ rowsOfBatches more :=
  flatMap_append

theorem rowsOfBatches_concat (batches : List (EvaluatedBatch D X m n))
    (batch : EvaluatedBatch D X m n) :
    rowsOfBatches (batches ++ [batch]) = rowsOfBatches batches ++ batch.typedRows := by
  rw [rowsOfBatches_append]
  congr 1
  exact flatMap_singleton ..

theorem keep_append (p : List UInt8 → Bool) (batches more : List (EvaluatedBatch D X m n)) :
    keep lib p (batches ++ more) = keep lib p batches ++ keep lib p more :=
  filterMap_append

theorem keepBatch_toList_rows (p : List UInt8 → Bool) (batch : EvaluatedBatch D X m n) :
    rowsOfBatches (keepBatch lib p batch).toList =
      batch.typedRows.filter fun t => p (typedKey lib t) := by
  have hfilter : (batch.typedRows.filter fun t => p (typedKey lib t)) =
      (keptRows lib p batch.rows).map fun row => (batch.types, row) := by
    rw [EvaluatedBatch.typedRows, filter_map]
    rfl
  rw [hfilter]
  unfold keepBatch
  split
  · rename_i hempty
    rw [List.isEmpty_iff.mp hempty]
    rfl
  · exact flatMap_singleton ..

theorem rowsOfBatches_keep (p : List UInt8 → Bool) (batches : List (EvaluatedBatch D X m n)) :
    rowsOfBatches (keep lib p batches) =
      (rowsOfBatches batches).filter fun t => p (typedKey lib t) := by
  induction batches with
  | nil => rfl
  | cons batch batches ih =>
    have hcons : keep lib p (batch :: batches) =
        (keepBatch lib p batch).toList ++ keep lib p batches := by
      cases hb : keepBatch lib p batch <;> simp [keep, hb]
    have hrows : rowsOfBatches (batch :: batches) = batch.typedRows ++ rowsOfBatches batches :=
      flatMap_cons ..
    rw [hcons, rowsOfBatches_append, ih, keepBatch_toList_rows, hrows, filter_append]

variable {batches : List (EvaluatedBatch D X m n)}
variable {p : List UInt8 → Bool}

theorem keep_rows_ne_nil :
    ∀ batch ∈ keep lib p batches, batch.rows ≠ [] := by
  intro batch hbatch
  obtain ⟨batch', -, hkeep⟩ := mem_filterMap.mp hbatch
  unfold keepBatch at hkeep
  split at hkeep
  · cases hkeep
  · rename_i hne
    obtain rfl := Option.some.inj hkeep
    simpa [List.isEmpty_iff] using hne

theorem keep_types :
    ∀ batch ∈ keep lib p batches, ∃ batch' ∈ batches, batch'.types = batch.types := by
  intro batch hbatch
  obtain ⟨batch', hmem, hkeep⟩ := mem_filterMap.mp hbatch
  refine ⟨batch', hmem, ?_⟩
  unfold keepBatch at hkeep
  split at hkeep
  · cases hkeep
  · obtain rfl := Option.some.inj hkeep
    rfl

theorem OneSchema.keep (h : OneSchema batches) (p : List UInt8 → Bool) :
    OneSchema (keep lib p batches) := by
  intro batch hbatch batch' hbatch'
  obtain ⟨b, hb, htypes⟩ := keep_types batch hbatch
  obtain ⟨b', hb', htypes'⟩ := keep_types batch' hbatch'
  rw [← htypes, ← htypes', h b hb b' hb']

theorem keep_eq_nil (h : ∀ t ∈ rowsOfBatches batches, p (typedKey lib t) = false) :
    keep lib p batches = [] := by
  refine filterMap_eq_nil_iff.mpr fun batch hbatch => ?_
  unfold keepBatch
  have hempty : keptRows lib p batch.rows = [] := by
    refine filter_eq_nil_iff.mpr fun row hrow hp => ?_
    have hfalse := h (batch.types, row)
      (mem_flatMap.mpr ⟨batch, hbatch, mem_map_of_mem hrow⟩)
    exact Bool.false_ne_true (hfalse.symm.trans hp)
  rw [hempty]
  rfl

theorem hasKey_eq_true {t : TypedRow D X m n} (ht : t ∈ rowsOfBatches batches) :
    hasKey lib batches (typedKey lib t) = true :=
  contains_iff_mem.mpr (mem_map_of_mem ht)

/-! ## 3. No key in two hands -/

theorem partition_lt (depth : Nat) (key : List UInt8) :
    settings.partition depth key < settings.partitionCount :=
  Nat.mod_lt _ (Nat.lt_of_lt_of_le Nat.zero_lt_two (Nat.le_max_left ..))

/-- **The hands split the rows by their keys.** -/
theorem dealt_splits (remaining : Nat) (batches : List (EvaluatedBatch D X m n)) :
    Splits (typedKey lib) (rowsOfBatches batches) (dealt lib settings overBudget remaining batches) := by
  induction remaining generalizing batches with
  | zero => exact .one _
  | succ remaining ih =>
    unfold dealt
    split
    · exact .one _
    · rename_i taken _
      refine .split (hasKey lib taken) (.one _) (.buckets
        (fun t _ => partition_lt (kMaxDepth - (remaining + 1)) (typedKey lib t)) fun index _ => ?_)
      have hhand : ((rowsOfBatches batches).filter fun t => !hasKey lib taken (typedKey lib t)).filter
          (fun t => settings.partition (kMaxDepth - (remaining + 1)) (typedKey lib t) == index) =
          rowsOfBatches (keep lib (dealtTo settings (kMaxDepth - (remaining + 1))
            (hasKey lib taken) index) batches) := by
        rw [rowsOfBatches_keep, filter_filter]
        exact filter_congr fun t _ => Bool.and_comm _ _
      rw [hhand]
      dsimp only
      split
      · rename_i hempty
        rw [List.isEmpty_iff.mp hempty]
        exact .none
      · exact ih _

/-! ## 4. A batch after the freeze -/

theorem rowStore_contains (hm : 0 < m) (rows : List (TypedRow D X m n)) (key : List UInt8) :
    (rowStore lib overBudget).contains rows key = (rows.map (typedKey lib)).contains key := by
  rw [Bool.eq_iff_iff, contains_iff_mem, ← mem_firstRows_keys]
  change (tableOf lib rows).index.contains key = true ↔ _
  rw [tableOf, if_neg (Nat.ne_of_gt hm), contains_iff_mem]

theorem sameSchema_iff {types : BatchTypes m n} (h : OneSchema batches) :
    sameSchema types batches = true ↔ ∀ batch ∈ batches, batch.types = types := by
  cases batches with
  | nil => simp [sameSchema]
  | cons first rest =>
    have hall : ∀ batch ∈ first :: rest, batch.types = first.types := fun batch hbatch =>
      h batch hbatch first mem_cons_self
    rw [sameSchema, beq_iff_eq]
    exact ⟨fun he batch hbatch => (hall batch hbatch).trans he,
      fun hall' => hall' first mem_cons_self⟩

theorem oneSchema_concat {batch : EvaluatedBatch D X m n} (h : OneSchema batches) :
    OneSchema (batches ++ [batch]) ↔ ∀ b ∈ batches, b.types = batch.types := by
  constructor
  · exact fun hall b hb => hall b (mem_append_left _ hb) batch (by simp)
  · intro hall b hb b' hb'
    rcases mem_append.mp hb with hb | hb <;> rcases mem_append.mp hb' with hb' | hb'
    · exact h b hb b' hb'
    · rw [mem_singleton.mp hb', hall b hb]
    · rw [mem_singleton.mp hb, hall b' hb']
    · rw [mem_singleton.mp hb, mem_singleton.mp hb']

variable {G : Type} {depth : Nat}

theorem selected_eq (rows : List (EvaluatedRow D X m n)) (index : Nat) :
    selected lib settings depth rows index =
      keptRows lib (fun key => settings.partition depth key == index) rows := rfl

theorem spill_iff {a a' : EvaluatedAggregator G D X m n}
    (hone : ∀ index < settings.partitionCount, OneSchema (a.writers index))
    (batch : EvaluatedBatch D X m n) :
    a.spill lib settings depth batch = some a' ↔
      (∀ index < settings.partitionCount, OneSchema (a.writers index ++ (keepBatch lib
        (fun key => settings.partition depth key == index) batch).toList)) ∧
      a' = { a with writers := fun index => a.writers index ++ (keepBatch lib
        (fun key => settings.partition depth key == index) batch).toList } := by
  have hcheck : ∀ index < settings.partitionCount,
      ((selected lib settings depth batch.rows index).isEmpty ||
        sameSchema batch.types (a.writers index)) = true ↔
      OneSchema (a.writers index ++ (keepBatch lib
        (fun key => settings.partition depth key == index) batch).toList) := by
    intro index hindex
    rw [selected_eq, keepBatch]
    by_cases hempty : (keptRows lib (fun key => settings.partition depth key == index)
        batch.rows).isEmpty = true
    · rw [hempty, if_pos rfl]
      simpa using hone index hindex
    · rw [if_neg hempty, Option.toList_some, oneSchema_concat (hone index hindex),
        Bool.or_eq_true, sameSchema_iff (hone index hindex)]
      simp [hempty]
  have hwriters : (fun index =>
      let rows := selected lib settings depth batch.rows index
      if rows.isEmpty then a.writers index else a.writers index ++ [{ batch with rows }]) =
      fun index => a.writers index ++ (keepBatch lib
        (fun key => settings.partition depth key == index) batch).toList := by
    funext index
    dsimp only
    rw [selected_eq, keepBatch]
    split <;> simp
  unfold EvaluatedAggregator.spill
  rw [hwriters]
  by_cases hall : ((List.range settings.partitionCount).all fun index =>
      (selected lib settings depth batch.rows index).isEmpty ||
        sameSchema batch.types (a.writers index)) = true
  · rw [if_pos hall, Option.some_inj]
    rw [all_eq_true] at hall
    exact ⟨fun h => ⟨fun index hindex =>
      (hcheck index hindex).mp (hall index (mem_range.mpr hindex)), h.symm⟩, fun h => h.2.symm⟩
  · rw [if_neg hall]
    refine ⟨fun h => absurd h (by simp), fun h => absurd ?_ hall⟩
    exact all_eq_true.mpr fun index hindex =>
      (hcheck index (mem_range.mp hindex)).mpr (h.1 index (mem_range.mp hindex))

theorem keepBatch_misses (held : List UInt8 → Bool) (index : Nat)
    (batch : EvaluatedBatch D X m n) :
    keepBatch lib (fun key => settings.partition depth key == index)
        { batch with rows := keptRows lib (fun key => !held key) batch.rows } =
      keepBatch lib (dealtTo settings depth held index) batch := by
  have hrows : keptRows lib (fun key => settings.partition depth key == index)
      (keptRows lib (fun key => !held key) batch.rows) =
      keptRows lib (dealtTo settings depth held index) batch.rows := by
    unfold keptRows
    rw [filter_filter]
    exact filter_congr fun row _ => Bool.and_comm _ _
  unfold keepBatch
  rw [hrows]

/-- **A batch after the freeze**: rows of held keys are kept, the others dealt out. -/
theorem consume_frozen_iff (hm : 0 < m) {mayFreeze : Bool}
    {a a' : EvaluatedAggregator (List (TypedRow D X m n)) D X m n} (ha : a.frozen = true)
    {held : List UInt8 → Bool}
    (hheld : ∀ key, (a.groups.map (typedKey lib)).contains key = held key)
    (hone : ∀ index < settings.partitionCount, OneSchema (a.writers index))
    (batch : EvaluatedBatch D X m n) :
    a.consume lib settings depth mayFreeze (rowStore lib overBudget) batch = some a' ↔
      (∀ index < settings.partitionCount, OneSchema (a.writers index ++ (keepBatch lib
        (dealtTo settings depth held index) batch).toList)) ∧
      a' = { groups := a.groups ++ batch.typedRows.filter fun t => held (typedKey lib t)
             frozen := true
             writers := fun index => a.writers index ++ (keepBatch lib
               (dealtTo settings depth held index) batch).toList } := by
  have hcontains : ∀ key, (rowStore lib overBudget).contains a.groups key = held key := fun key =>
    (rowStore_contains hm a.groups key).trans (hheld key)
  have hhits : (rowStore lib overBudget).hits lib a.groups batch = keptRows lib held batch.rows :=
    filter_congr fun row _ => hcontains (row.key lib)
  have hmisses : (rowStore lib overBudget).misses lib a.groups batch =
      keptRows lib (fun key => !held key) batch.rows :=
    filter_congr fun row _ => congrArg not (hcontains (row.key lib))
  have hkept : (rowStore lib overBudget).consumeHits lib a.groups batch =
      some (a.groups ++ batch.typedRows.filter fun t => held (typedKey lib t)) := by
    rw [← keepBatch_toList_rows, GroupStore.consumeHits, hhits, keepBatch]
    split
    · simp
    · rw [Option.toList_some]
      exact congrArg some (congrArg _ (flatMap_singleton ..).symm)
  have hconsume : a.consume lib settings depth mayFreeze (rowStore lib overBudget) batch =
      EvaluatedAggregator.spill lib settings depth
        { a with groups := a.groups ++ batch.typedRows.filter fun t => held (typedKey lib t) }
        { batch with rows := keptRows lib (fun key => !held key) batch.rows } := by
    unfold EvaluatedAggregator.consume
    rw [if_neg (by simp [ha]), hkept, hmisses, Option.bind_some]
    split
    · rename_i hempty
      rw [List.isEmpty_iff.mp hempty]
      symm
      rw [spill_iff
        (a := { a with groups := a.groups ++ batch.typedRows.filter fun t => held (typedKey lib t) })
        hone]
      simpa [keepBatch, keptRows] using hone
    · rfl
  rw [hconsume, spill_iff
    (a := { a with groups := a.groups ++ batch.typedRows.filter fun t => held (typedKey lib t) }) hone]
  simp only [keepBatch_misses, ha]

/-! ## 5. The run on rows -/

theorem OneSchema.of_append {batches more : List (EvaluatedBatch D X m n)}
    (h : OneSchema (batches ++ more)) : OneSchema batches := fun batch hbatch batch' hbatch' =>
  h batch (mem_append_left _ hbatch) batch' (mem_append_left _ hbatch')

theorem keep_cons (p : List UInt8 → Bool) (batch : EvaluatedBatch D X m n)
    (more : List (EvaluatedBatch D X m n)) :
    keep lib p (batch :: more) = (keepBatch lib p batch).toList ++ keep lib p more := by
  cases hb : keepBatch lib p batch <;> simp [keep, hb]

/-- The batches after the freeze. -/
theorem foldlM_frozen_iff (hm : 0 < m) {mayFreeze : Bool} {held : List UInt8 → Bool}
    (more : List (EvaluatedBatch D X m n)) :
    ∀ {a a' : EvaluatedAggregator (List (TypedRow D X m n)) D X m n}, a.frozen = true →
      (∀ key, (a.groups.map (typedKey lib)).contains key = held key) →
      (∀ index < settings.partitionCount, OneSchema (a.writers index)) →
      (more.foldlM (EvaluatedAggregator.consume lib settings depth mayFreeze
          (rowStore lib overBudget)) a = some a' ↔
        (∀ index < settings.partitionCount,
          OneSchema (a.writers index ++ keep lib (dealtTo settings depth held index) more)) ∧
        a' = { groups := a.groups ++ (rowsOfBatches more).filter fun t => held (typedKey lib t)
               frozen := true
               writers := fun index =>
                 a.writers index ++ keep lib (dealtTo settings depth held index) more }) := by
  induction more with
  | nil =>
    intro a a' ha hheld hone
    have hsame : a = { groups := a.groups, frozen := true, writers := a.writers } := by
      rw [← ha]
    simp only [foldlM_nil, keep, filterMap_nil, rowsOfBatches_nil, filter_nil,
      append_nil]
    rw [← hsame]
    exact ⟨fun h => ⟨hone, (Option.some.inj h).symm⟩, fun h => congrArg some h.2.symm⟩
  | cons batch more ih =>
    intro a a' ha hheld hone
    have hheld' : ∀ key, ((a.groups ++ batch.typedRows.filter fun t =>
        held (typedKey lib t)).map (typedKey lib)).contains key = held key := by
      intro key
      rw [← hheld key, Bool.eq_iff_iff, contains_iff_mem, contains_iff_mem,
        map_append, mem_append]
      refine or_iff_left_of_imp fun hmem => ?_
      obtain ⟨t, ht, rfl⟩ := mem_map.mp hmem
      have hkey := (hheld (typedKey lib t)).trans (mem_filter.mp ht).2
      exact contains_iff_mem.mp hkey
    simp only [keep_cons, ← append_assoc]
    have hrows : (rowsOfBatches (batch :: more)).filter (fun t => held (typedKey lib t)) =
        batch.typedRows.filter (fun t => held (typedKey lib t)) ++
          (rowsOfBatches more).filter fun t => held (typedKey lib t) := filter_append ..
    rw [foldlM_cons, hrows, ← append_assoc]
    constructor
    · intro h
      obtain ⟨a₁, hstep, hrest⟩ := Option.bind_eq_some_iff.mp h
      obtain ⟨hone₁, rfl⟩ := (consume_frozen_iff hm ha hheld hone batch).mp hstep
      exact (ih rfl hheld' hone₁).mp hrest
    · rintro ⟨hone', rfl⟩
      have hone₁ := fun index hindex => (hone' index hindex).of_append
      rw [(consume_frozen_iff hm ha hheld hone batch).mpr ⟨hone₁, rfl⟩]
      exact (ih rfl hheld' hone₁).mpr ⟨hone', rfl⟩

/-- **All batches**, from the first on. -/
theorem foldlM_iff {mayFreeze : Bool} (hm : mayFreeze = true → 0 < m)
    (batches : List (EvaluatedBatch D X m n)) :
    ∀ (taken : List (EvaluatedBatch D X m n))
      (a' : EvaluatedAggregator (List (TypedRow D X m n)) D X m n),
      batches.foldlM (EvaluatedAggregator.consume lib settings depth mayFreeze
          (rowStore lib overBudget)) { groups := rowsOfBatches taken } = some a' ↔
        match if mayFreeze then frozenPrefix overBudget taken batches else none with
        | none => a' = { groups := rowsOfBatches (taken ++ batches) }
        | some p =>
          (∀ index < settings.partitionCount, OneSchema
            (keep lib (dealtTo settings depth (hasKey lib p) index) (taken ++ batches))) ∧
          a' = { groups := (rowsOfBatches (taken ++ batches)).filter fun t =>
                   hasKey lib p (typedKey lib t)
                 frozen := true
                 writers := fun index => keep lib
                   (dealtTo settings depth (hasKey lib p) index) (taken ++ batches) } := by
  induction batches with
  | nil =>
    intro taken a'
    simp [frozenPrefix, eq_comm]
  | cons batch batches ih =>
    intro taken a'
    have hstep : EvaluatedAggregator.consume lib settings depth mayFreeze (rowStore lib overBudget)
        { groups := rowsOfBatches taken } batch =
        some { groups := rowsOfBatches (taken ++ [batch])
               frozen := mayFreeze && overBudget (rowsOfBatches (taken ++ [batch])) } := by
      rw [rowsOfBatches_concat]
      rfl
    have happend : taken ++ batch :: batches = (taken ++ [batch]) ++ batches := by simp
    rw [foldlM_cons, hstep, happend]
    change List.foldlM _ _ _ = some a' ↔ _
    by_cases hfreeze : mayFreeze = true ∧ overBudget (rowsOfBatches (taken ++ [batch])) = true
    · -- this batch goes over the budget
      obtain ⟨hmay, hover⟩ := hfreeze
      have hfront : (if mayFreeze then frozenPrefix overBudget taken (batch :: batches)
          else none) = some (taken ++ [batch]) := by
        rw [if_pos hmay, frozenPrefix, if_pos hover]
      have hown : ∀ t ∈ rowsOfBatches (taken ++ [batch]),
          hasKey lib (taken ++ [batch]) (typedKey lib t) = true := fun t ht => hasKey_eq_true ht
      have hnone : ∀ index, keep lib
          (dealtTo settings depth (hasKey lib (taken ++ [batch])) index) (taken ++ [batch]) = [] :=
        fun index => keep_eq_nil fun t ht => by simp [dealtTo, hown t ht]
      rw [hfront]
      dsimp only
      rw [foldlM_frozen_iff (hm hmay) batches (by simp [hmay, hover]) (fun _ => rfl)
        fun _ _ _ h => absurd h (by simp)]
      simp only [keep_append (_ : List UInt8 → Bool) (taken ++ [batch]) batches, hnone]
      rw [rowsOfBatches_append (taken ++ [batch]), filter_append,
        filter_eq_self.mpr hown]
      exact Iff.rfl
    · have hfront : (if mayFreeze then frozenPrefix overBudget taken (batch :: batches)
          else none) = if mayFreeze then frozenPrefix overBudget (taken ++ [batch]) batches
            else none := by
        by_cases hmay : mayFreeze = true
        · rw [if_pos hmay, if_pos hmay, frozenPrefix, if_neg fun hover => hfreeze ⟨hmay, hover⟩]
        · rw [if_neg hmay, if_neg hmay]
      have hfrozen : (mayFreeze && overBudget (rowsOfBatches (taken ++ [batch]))) = false := by
        rw [Bool.eq_false_iff]
        exact fun h => hfreeze (by simpa using h)
      rw [hfront, hfrozen]
      exact ih (taken ++ [batch]) a'

theorem OneSchema.handsAgree (h : OneSchema batches) :
    HandsAgree lib settings overBudget depth batches := fun _ _ _ _ => h.keep _

/-- The parts of a run whose hands are aggregated to what they are dealt. -/
theorem aggregateBatches_rows_of_agree {remaining : Nat}
    (ih : ∀ hand : List (EvaluatedBatch D X m n), OneSchema hand →
      aggregateBatches lib settings (rowStore lib overBudget) remaining hand =
        some (dealt lib settings overBudget remaining hand))
    (h : HandsAgree lib settings overBudget (kMaxDepth - (remaining + 1)) batches) :
    aggregateBatches lib settings (rowStore lib overBudget) (remaining + 1) batches =
      some (dealt lib settings overBudget (remaining + 1) batches) := by
  have hmay : (decide (0 < m) && settings.canSpill) = true → 0 < m := fun hmay => by
    simpa using (Bool.and_eq_true_iff.mp hmay).1
  have hfold := @foldlM_iff _ _ _ _ lib settings overBudget (kMaxDepth - (remaining + 1)) _ hmay
    batches []
  unfold aggregateBatches dealt
  change Option.bind
    (List.foldlM _ ({ groups := rowsOfBatches [] } : EvaluatedAggregator _ D X m n) batches) _ = _
  cases hfreeze : freezesAfter settings overBudget batches with
  | none =>
    rw [(hfold { groups := rowsOfBatches batches }).mpr (by
      rw [← freezesAfter, hfreeze]
      rfl)]
    have hparts : (List.range settings.partitionCount).mapM (fun _ : Nat =>
        (some [] : Option (List (List (TypedRow D X m n))))) =
        some ((List.range settings.partitionCount).map fun _ => []) :=
      mapM_eq_pure fun _ _ => rfl
    change ((List.range settings.partitionCount).mapM fun _ : Nat =>
      (some [] : Option (List (List (TypedRow D X m n))))).bind _ = _
    rw [hparts]
    simp
  | some taken =>
    rw [(hfold { groups := (rowsOfBatches batches).filter fun t => hasKey lib taken (typedKey lib t)
                 frozen := true
                 writers := fun index => keep lib (dealtTo settings (kMaxDepth - (remaining + 1))
                   (hasKey lib taken) index) batches }).mpr (by
      rw [← freezesAfter, hfreeze]
      exact ⟨h taken hfreeze, rfl⟩)]
    dsimp only
    rw [Option.bind_some]
    dsimp only
    have hparts := mapM_eq_pure (l := List.range settings.partitionCount)
      (f := fun index => if (keep lib (dealtTo settings (kMaxDepth - (remaining + 1))
            (hasKey lib taken) index) batches).isEmpty then some []
          else aggregateBatches lib settings (rowStore lib overBudget) remaining
            (keep lib (dealtTo settings (kMaxDepth - (remaining + 1)) (hasKey lib taken) index) batches))
      (g := fun index => if (keep lib (dealtTo settings (kMaxDepth - (remaining + 1))
            (hasKey lib taken) index) batches).isEmpty then []
          else dealt lib settings overBudget remaining
            (keep lib (dealtTo settings (kMaxDepth - (remaining + 1)) (hasKey lib taken) index) batches))
      (fun index hindex => by
        split
        · rfl
        · exact ih _ (h taken hfreeze index (mem_range.mp hindex)))
    rw [hparts]
    rfl

theorem aggregateBatches_rows_of_oneSchema (remaining : Nat) :
    ∀ batches : List (EvaluatedBatch D X m n), OneSchema batches →
      aggregateBatches lib settings (rowStore lib overBudget) remaining batches =
        some (dealt lib settings overBudget remaining batches) := by
  induction remaining with
  | zero =>
    intro batches _
    have hrun : batches.foldlM (EvaluatedAggregator.consume lib settings kMaxDepth false
        (rowStore lib overBudget)) { groups := rowsOfBatches [] } =
        some { groups := rowsOfBatches batches } :=
      (foldlM_iff (by simp) batches [] _).mpr rfl
    change Option.bind
      (List.foldlM _ ({ groups := rowsOfBatches [] } : EvaluatedAggregator _ D X m n) batches) _ = _
    rw [hrun]
    rfl
  | succ remaining ih =>
    exact fun batches h => aggregateBatches_rows_of_agree ih h.handsAgree

/-- **What is aggregated together**: the run on rows succeeds when every hand has one schema. -/
theorem aggregateBatches_rows_iff (remaining : Nat) (batches : List (EvaluatedBatch D X m n))
    (sets : List (List (TypedRow D X m n))) :
    aggregateBatches lib settings (rowStore lib overBudget) (remaining + 1) batches = some sets ↔
      HandsAgree lib settings overBudget (kMaxDepth - (remaining + 1)) batches ∧
      sets = dealt lib settings overBudget (remaining + 1) batches := by
  have hagree : HandsAgree lib settings overBudget (kMaxDepth - (remaining + 1)) batches →
      aggregateBatches lib settings (rowStore lib overBudget) (remaining + 1) batches =
        some (dealt lib settings overBudget (remaining + 1) batches) :=
    aggregateBatches_rows_of_agree (aggregateBatches_rows_of_oneSchema remaining)
  constructor
  · intro h
    have hhands : HandsAgree lib settings overBudget (kMaxDepth - (remaining + 1)) batches := by
      intro taken hfreeze
      unfold aggregateBatches at h
      obtain ⟨a, hfold, -⟩ := Option.bind_eq_some_iff.mp h
      have ha := (foldlM_iff (fun hmay => by simpa using (Bool.and_eq_true_iff.mp hmay).1)
        batches [] a).mp hfold
      rw [← freezesAfter, hfreeze] at ha
      exact ha.1
    exact ⟨hhands, Option.some.inj (h.symm.trans (hagree hhands))⟩
  · rintro ⟨hhands, rfl⟩
    exact hagree hhands

end MldpDriver.Query.Aggregate
