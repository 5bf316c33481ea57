/-
# The groups of a spilled aggregation

The aggregation runs step by step with the run on bare rows: what it holds in memory is what the
rows there describe, and its partitions are the same (`Simulates`).  It gets stuck only where the
groups of some rows do (`Describable`), a property of each key's rows by themselves.  -/
import MldpDriver.Query.GroupedDealing

namespace MldpDriver.Query.Aggregate

open Lib.KeySplit List Option
open Lib.Loop

variable {D X : Type} {m n : Nat}

/-! ## 1. Rows that have groups -/

/-- Every aggregate takes the rows of every key. -/
def Describable (lib : ValueLib D X) (calls : Fin n → AggregateCall)
    (rows : List (TypedRow D X m n)) : Prop :=
  ∀ j, ∀ k ∈ groupKeys lib rows, ∃ g, keyState lib (calls j) j rows k = some g

variable {lib : ValueLib D X} {calls : Fin n → AggregateCall}
variable {rows : List (TypedRow D X m n)}

theorem keyState_of_not_mem {call : AggregateCall} {j : Fin n} {k : List UInt8}
    (hk : k ∉ groupKeys lib rows) :
    keyState lib call j rows k = some (.empty lib) := by
  rw [keyState, rowsOf_of_not_mem hk]
  rfl

theorem Describable.keyState (h : Describable lib calls rows) (j : Fin n) (k : List UInt8) :
    ∃ g, keyState lib (calls j) j rows k = some g := by
  by_cases hk : k ∈ groupKeys lib rows
  · exact h j k hk
  · exact ⟨_, keyState_of_not_mem hk⟩

theorem keyState_append (call : AggregateCall) (j : Fin n) (rows more : List (TypedRow D X m n))
    (k : List UInt8) :
    keyState lib call j (rows ++ more) k = (keyState lib call j rows k).bind fun g =>
      ((rowsOf (typedKey lib) more k).map fun t => t.2.arguments j).foldlM
        (GroupState.consume lib call) g := by
  rw [keyState, rowsOf_append, map_append, foldlM_append]
  rfl

theorem Describable.of_append {rows more : List (TypedRow D X m n)}
    (h : Describable lib calls (rows ++ more)) : Describable lib calls rows := by
  intro j k _
  obtain ⟨g, hg⟩ := h.keyState j k
  rw [keyState_append] at hg
  obtain ⟨g', hg', -⟩ := bind_eq_some_iff.mp hg
  exact ⟨g', hg'⟩

/-- **Rows have groups when each key's rows have.** -/
theorem exists_describes_iff :
    (∃ g, Describes lib calls rows g) ↔ Describable lib calls rows := by
  constructor
  · rintro ⟨g, h⟩ j k hk
    cases hrows : rows with
    | nil =>
      rw [← hrows, keyState, hrows]
      exact ⟨_, rfl⟩
    | cons first rest =>
      obtain ⟨a, -, hacc⟩ := h.made first rest hrows j
      obtain ⟨i, hi, hik⟩ := mem_iff_getElem.mp hk
      have hid := hacc.groups i
      rw [idState, List.getElem?_eq_getElem hi, hik] at hid
      rw [← hrows]
      exact ⟨_, hid⟩
  · intro h
    choose state hstate using fun (j : Fin n) k => h.keyState j k
    have hid : ∀ j i, idState lib (calls j) j rows i =
        some (((groupKeys lib rows)[i]?).elim (.empty lib) (state j)) := by
      intro j i
      unfold idState
      cases (groupKeys lib rows)[i]? with
      | none => rfl
      | some k => exact hstate j k
    refine ⟨{ keys := tableOf lib rows
              accumulators := fun j => rows.head?.map fun first =>
                { type := (makeAccumulator lib (calls j) (argumentType calls first.1 j)).type
                  floating := rows.any fun t => (calls j).floats (t.2.arguments j)
                  groups := fun i => ((groupKeys lib rows)[i]?).elim (.empty lib) (state j) } },
      rfl, ?_, ?_⟩
    · rintro rfl j
      rfl
    · rintro first rest rfl j
      exact ⟨_, rfl, rfl, rfl, hid j⟩

/-! ## 2. A batch -/

/-- Groups that hold rows. -/
def Holds (lib : ValueLib D X) (calls : Fin n → AggregateCall)
    (g : InMemoryGroups D X m n × List (TypedRow D X m n)) (rows : List (TypedRow D X m n)) : Prop :=
  g.2 = rows ∧ Describes lib calls rows g.1

/-- **The aggregation and its run on rows.** -/
structure Simulates (lib : ValueLib D X) (calls : Fin n → AggregateCall)
    (a : EvaluatedAggregator (InMemoryGroups D X m n × List (TypedRow D X m n)) D X m n)
    (b : EvaluatedAggregator (List (TypedRow D X m n)) D X m n) : Prop where
  groups : Holds lib calls a.groups b.groups
  frozen : a.frozen = b.frozen
  writers : a.writers = b.writers

variable {settings : SpillSettings} {overBudget : List (TypedRow D X m n) → Bool} {depth : Nat}

theorem store_consume_iff {g g' : InMemoryGroups D X m n × List (TypedRow D X m n)}
    (h : Holds lib calls g rows) {batch : EvaluatedBatch D X m n} (hbatch : batch.rows ≠ []) :
    (inMemoryStore lib calls overBudget).consume g batch = some g' ↔
      Holds lib calls g' (rows ++ batch.typedRows) := by
  obtain ⟨rfl, hdescribes⟩ := h
  change (g.1.consume lib calls batch).map (fun groups => (groups, g.2 ++ batch.typedRows)) =
    some g' ↔ _
  rw [map_eq_some_iff]
  constructor
  · rintro ⟨groups, hgroups, rfl⟩
    exact ⟨rfl, (hdescribes.consume_iff hbatch).mp hgroups⟩
  · rintro ⟨hrows, hgroups⟩
    exact ⟨g'.1, (hdescribes.consume_iff hbatch).mpr hgroups, by rw [← hrows]⟩

theorem store_contains_eq {g : InMemoryGroups D X m n × List (TypedRow D X m n)}
    (h : Holds lib calls g rows) (key : List UInt8) :
    (inMemoryStore lib calls overBudget).contains g key =
      (rowStore lib overBudget).contains rows key := by
  change g.1.keys.index.contains key = (tableOf lib rows).index.contains key
  rw [h.2.keys]

section step

variable {a a' : EvaluatedAggregator (InMemoryGroups D X m n × List (TypedRow D X m n)) D X m n}
  {b b' : EvaluatedAggregator (List (TypedRow D X m n)) D X m n} {mayFreeze : Bool}
variable {batch : EvaluatedBatch D X m n}

theorem spill_simulates (h : Simulates lib calls a b)
    (ha : a.spill lib settings depth batch = some a') :
    ∃ b', b.spill lib settings depth batch = some b' ∧ Simulates lib calls a' b' := by
  unfold EvaluatedAggregator.spill at ha ⊢
  rw [h.writers] at ha
  split at ha
  · rename_i hcheck
    obtain rfl := some.inj ha
    rw [if_pos hcheck]
    exact ⟨_, rfl, h.groups, h.frozen, rfl⟩
  · cases ha

theorem spill_groups (hb : b.spill lib settings depth batch = some b') : b'.groups = b.groups := by
  unfold EvaluatedAggregator.spill at hb
  split at hb
  · rw [← some.inj hb]
  · cases hb

theorem spill_follows (h : a.writers = b.writers) (hb : b.spill lib settings depth batch = some
    b') :
    ∃ a', a.spill lib settings depth batch = some a' := by
  unfold EvaluatedAggregator.spill at hb ⊢
  rw [h]
  split at hb
  · rename_i hcheck
    exact ⟨_, if_pos hcheck⟩
  · cases hb

theorem hits_eq (h : Holds lib calls a.groups b.groups) (batch : EvaluatedBatch D X m n) :
    (inMemoryStore lib calls overBudget).hits lib a.groups batch =
      (rowStore lib overBudget).hits lib b.groups batch :=
  filter_congr fun row _ => store_contains_eq h (row.key lib)

theorem misses_eq (h : Holds lib calls a.groups b.groups) (batch : EvaluatedBatch D X m n) :
    (inMemoryStore lib calls overBudget).misses lib a.groups batch =
      (rowStore lib overBudget).misses lib b.groups batch :=
  filter_congr fun row _ => congrArg not (store_contains_eq h (row.key lib))

theorem consumeHits_simulates (h : Holds lib calls a.groups b.groups)
    {groups : InMemoryGroups D X m n × List (TypedRow D X m n)}
    (ha : (inMemoryStore lib calls overBudget).consumeHits lib a.groups batch = some groups) :
    ∃ rows, (rowStore lib overBudget).consumeHits lib b.groups batch = some rows ∧
      Holds lib calls groups rows := by
  unfold GroupStore.consumeHits at ha ⊢
  rw [hits_eq h] at ha
  split at ha
  · rename_i hempty
    obtain rfl := some.inj ha
    rw [if_pos hempty]
    exact ⟨_, rfl, h⟩
  · rename_i hempty
    rw [if_neg hempty]
    exact ⟨_, rfl, (store_consume_iff h (by simpa only [List.isEmpty_iff] using hempty)).mp ha⟩

theorem consumeHits_grows {rows : List (TypedRow D X m n)}
    (hb : (rowStore lib overBudget).consumeHits lib b.groups batch = some rows) :
    ∃ more, rows = b.groups ++ more := by
  unfold GroupStore.consumeHits at hb
  split at hb
  · exact ⟨[], by rw [append_nil, some.inj hb]⟩
  · exact ⟨_, (some.inj hb).symm⟩

theorem consumeHits_follows (h : Holds lib calls a.groups b.groups) {rows : List (TypedRow D X m n)}
    (hb : (rowStore lib overBudget).consumeHits lib b.groups batch = some rows)
    (hrows : Describable lib calls rows) : ∃ groups,
      (inMemoryStore lib calls overBudget).consumeHits lib a.groups batch = some groups := by
  unfold GroupStore.consumeHits at hb ⊢
  rw [hits_eq h]
  split at hb
  · rename_i hempty
    exact ⟨_, if_pos hempty⟩
  · rename_i hempty
    rw [if_neg hempty]
    obtain rfl := some.inj hb
    obtain ⟨g, hg⟩ := exists_describes_iff.mpr hrows
    exact ⟨(g, _), (store_consume_iff h
      (by simpa only [List.isEmpty_iff] using hempty)).mpr ⟨rfl, hg⟩⟩

/-- **A batch**, as on rows. -/
theorem consume_simulates (h : Simulates lib calls a b) (hbatch : batch.rows ≠ [])
    (ha : a.consume lib settings depth mayFreeze (inMemoryStore lib calls overBudget) batch =
      some a') :
    ∃ b', b.consume lib settings depth mayFreeze (rowStore lib overBudget) batch = some b' ∧
      Simulates lib calls a' b' := by
  unfold EvaluatedAggregator.consume at ha ⊢
  rw [h.frozen, misses_eq h.groups] at ha
  split at ha
  · rename_i hfrozen
    rw [if_pos hfrozen]
    obtain ⟨groups, hgroups, rfl⟩ := map_eq_some_iff.mp ha
    have hholds := (store_consume_iff h.groups hbatch).mp hgroups
    refine ⟨_, rfl, hholds, ?_, h.writers⟩
    change (mayFreeze && overBudget groups.2) = (mayFreeze && overBudget (b.groups ++ _))
    rw [hholds.1]
  · rename_i hfrozen
    rw [if_neg hfrozen]
    obtain ⟨groups, hkept, hrest⟩ := bind_eq_some_iff.mp ha
    obtain ⟨rows, hrows, hholds⟩ := consumeHits_simulates h.groups hkept
    have hsim : Simulates lib calls { a with groups, frozen := b.frozen } { b with groups := rows } :=
      ⟨hholds, rfl, h.writers⟩
    rw [hrows, bind_some]
    split at hrest
    · rename_i hempty
      obtain rfl := some.inj hrest
      rw [if_pos hempty]
      exact ⟨_, rfl, hsim⟩
    · rename_i hempty
      rw [if_neg hempty]
      exact spill_simulates hsim hrest

theorem consume_grows
    (hb : b.consume lib settings depth mayFreeze (rowStore lib overBudget) batch = some b') :
    ∃ more, b'.groups = b.groups ++ more := by
  unfold EvaluatedAggregator.consume at hb
  split at hb
  · obtain ⟨rows, hrows, rfl⟩ := map_eq_some_iff.mp hb
    exact ⟨_, (some.inj hrows).symm⟩
  · obtain ⟨rows, hkept, hrest⟩ := bind_eq_some_iff.mp hb
    obtain ⟨more, rfl⟩ := consumeHits_grows hkept
    refine ⟨more, ?_⟩
    split at hrest
    · rw [← some.inj hrest]
    · rw [spill_groups hrest]

theorem consume_follows (h : Simulates lib calls a b) (hbatch : batch.rows ≠ [])
    (hb : b.consume lib settings depth mayFreeze (rowStore lib overBudget) batch = some b')
    (hrows : Describable lib calls b'.groups) :
    ∃ a', a.consume lib settings depth mayFreeze (inMemoryStore lib calls overBudget) batch =
      some a' := by
  unfold EvaluatedAggregator.consume at hb ⊢
  rw [h.frozen, misses_eq h.groups]
  split at hb
  · rename_i hfrozen
    rw [if_pos hfrozen]
    obtain ⟨rows, hconsumed, rfl⟩ := map_eq_some_iff.mp hb
    obtain rfl := some.inj hconsumed
    obtain ⟨g, hg⟩ := exists_describes_iff.mpr hrows
    have hstored : (inMemoryStore lib calls overBudget).consume _ batch =
        some (g, b.groups ++ batch.typedRows) := (store_consume_iff h.groups hbatch).mpr ⟨rfl, hg⟩
    rw [hstored]
    exact ⟨_, rfl⟩
  · rename_i hfrozen
    rw [if_neg hfrozen]
    obtain ⟨rows, hkept, hrest⟩ := bind_eq_some_iff.mp hb
    have hgroups : b'.groups = rows := by
      split at hrest
      · rw [← some.inj hrest]
      · exact spill_groups hrest
    rw [hgroups] at hrows
    obtain ⟨groups, hkept'⟩ := consumeHits_follows h.groups hkept hrows
    rw [hkept', bind_some]
    split at hrest
    · rename_i hempty
      exact ⟨_, if_pos hempty⟩
    · rename_i hempty
      rw [if_neg hempty]
      exact spill_follows (a := { a with groups, frozen := b.frozen })
        (b := { b with groups := rows }) h.writers hrest

end step

/-! ## 3. All batches -/

section run

variable {mayFreeze : Bool} {batches : List (EvaluatedBatch D X m n)}

theorem foldlM_simulates (hbatches : ∀ batch ∈ batches, batch.rows ≠ []) :
    ∀ {a a' : EvaluatedAggregator (InMemoryGroups D X m n × List (TypedRow D X m n)) D X m n}
      {b : EvaluatedAggregator (List (TypedRow D X m n)) D X m n}, Simulates lib calls a b →
      batches.foldlM (EvaluatedAggregator.consume lib settings depth mayFreeze
        (inMemoryStore lib calls overBudget)) a = some a' →
      ∃ b', batches.foldlM (EvaluatedAggregator.consume lib settings depth mayFreeze
        (rowStore lib overBudget)) b = some b' ∧ Simulates lib calls a' b' := by
  induction batches with
  | nil =>
    intro a a' b h ha
    obtain rfl := some.inj ha
    exact ⟨b, rfl, h⟩
  | cons batch batches ih =>
    intro a a' b h ha
    obtain ⟨a₁, hstep, hrest⟩ := bind_eq_some_iff.mp (by rwa [foldlM_cons] at ha)
    obtain ⟨b₁, hb, h₁⟩ := consume_simulates h (hbatches batch mem_cons_self) hstep
    obtain ⟨b', hb', h'⟩ := ih (fun b hb => hbatches b (mem_cons_of_mem _ hb)) h₁ hrest
    refine ⟨b', ?_, h'⟩
    rw [foldlM_cons, hb]
    exact hb'

theorem foldlM_grows :
    ∀ {b b' : EvaluatedAggregator (List (TypedRow D X m n)) D X m n},
      batches.foldlM (EvaluatedAggregator.consume lib settings depth mayFreeze
        (rowStore lib overBudget)) b = some b' → ∃ more, b'.groups = b.groups ++ more := by
  induction batches with
  | nil =>
    intro b b' hb
    obtain rfl := some.inj hb
    exact ⟨[], (append_nil _).symm⟩
  | cons batch batches ih =>
    intro b b' hb
    obtain ⟨b₁, hstep, hrest⟩ := bind_eq_some_iff.mp (by rwa [foldlM_cons] at hb)
    obtain ⟨more, hmore⟩ := consume_grows hstep
    obtain ⟨more', hmore'⟩ := ih hrest
    exact ⟨more ++ more', by rw [hmore', hmore, append_assoc]⟩

theorem foldlM_follows (hbatches : ∀ batch ∈ batches, batch.rows ≠ []) :
    ∀ {a : EvaluatedAggregator (InMemoryGroups D X m n × List (TypedRow D X m n)) D X m n}
      {b b' : EvaluatedAggregator (List (TypedRow D X m n)) D X m n}, Simulates lib calls a b →
      batches.foldlM (EvaluatedAggregator.consume lib settings depth mayFreeze
        (rowStore lib overBudget)) b = some b' → Describable lib calls b'.groups →
      ∃ a', batches.foldlM (EvaluatedAggregator.consume lib settings depth mayFreeze
        (inMemoryStore lib calls overBudget)) a = some a' := by
  induction batches with
  | nil => exact fun {a b b'} _ _ _ => ⟨a, rfl⟩
  | cons batch batches ih =>
    intro a b b' h hb hrows
    obtain ⟨b₁, hstep, hrest⟩ := bind_eq_some_iff.mp (by rwa [foldlM_cons] at hb)
    have hbatch := hbatches batch mem_cons_self
    -- the rows so far are some of those in the end
    have hrows₁ : Describable lib calls b₁.groups := by
      obtain ⟨more, hmore⟩ := foldlM_grows hrest
      rw [hmore] at hrows
      exact hrows.of_append
    obtain ⟨a₁, ha⟩ := consume_follows h hbatch hstep hrows₁
    obtain ⟨b₁', hb₁', h₁⟩ := consume_simulates h hbatch ha
    obtain rfl := some.inj (hstep.symm.trans hb₁')
    obtain ⟨a', ha'⟩ := ih (fun b hb => hbatches b (mem_cons_of_mem _ hb)) h₁ hrest hrows
    refine ⟨a', ?_⟩
    rw [foldlM_cons, ha]
    exact ha'

theorem writers_rows_ne_nil (hm : mayFreeze = true → 0 < m)
    {b : EvaluatedAggregator (List (TypedRow D X m n)) D X m n}
    (hb : batches.foldlM (EvaluatedAggregator.consume lib settings depth mayFreeze
      (rowStore lib overBudget)) { groups := [] } = some b) (index : Nat) :
    ∀ batch ∈ b.writers index, batch.rows ≠ [] := by
  have h := (foldlM_iff hm batches [] b).mp hb
  split at h
  · rw [h]
    exact fun _ h => absurd h (by simp)
  · rw [h.2]
    exact keep_rows_ne_nil

theorem simulates_empty : Simulates lib calls
    { groups := (inMemoryStore lib calls overBudget).empty }
    { groups := (rowStore (m := m) (n := n) lib overBudget).empty } :=
  ⟨⟨rfl, describes_nil⟩, rfl, rfl⟩

end run

/-! ## 4. The run

So a spilled aggregation has the groups of each hand it is dealt (`aggregateBatches_simulates`), and
it comes to an end when these exist (`aggregateBatches_follows`). -/

/-- **The run**, as on rows. -/
theorem aggregateBatches_simulates (remaining : Nat) :
    ∀ {batches : List (EvaluatedBatch D X m n)}, (∀ batch ∈ batches, batch.rows ≠ []) →
      ∀ {gs}, aggregateBatches lib settings (inMemoryStore lib calls overBudget) remaining batches =
        some gs →
      ∃ sets, aggregateBatches lib settings (rowStore lib overBudget) remaining batches = some sets ∧
        List.Forall₂ (Holds lib calls) gs sets := by
  induction remaining with
  | zero =>
    intro batches hbatches gs hgs
    unfold aggregateBatches at hgs ⊢
    obtain ⟨a, ha, hrest⟩ := bind_eq_some_iff.mp hgs
    obtain ⟨b, hb, h⟩ := foldlM_simulates hbatches simulates_empty ha
    obtain rfl := some.inj hrest
    exact ⟨[b.groups], bind_eq_some_iff.mpr ⟨b, hb, rfl⟩, .cons h.groups .nil⟩
  | succ remaining ih =>
    intro batches hbatches gs hgs
    unfold aggregateBatches at hgs ⊢
    obtain ⟨a, ha, hrest⟩ := bind_eq_some_iff.mp hgs
    obtain ⟨parts, hparts, hgroups⟩ := bind_eq_some_iff.mp hrest
    obtain rfl := some.inj hgroups
    obtain ⟨b, hb, h⟩ := foldlM_simulates hbatches simulates_empty ha
    have hwriters := writers_rows_ne_nil
      (fun hmay => by simpa using (Bool.and_eq_true_iff.mp hmay).1) hb
    rw [h.writers] at hparts
    obtain ⟨parts', hparts', hholds⟩ : ∃ parts', (List.range settings.partitionCount).mapM
        (fun index => if (b.writers index).isEmpty then some []
          else aggregateBatches lib settings (rowStore lib overBudget) remaining
            (b.writers index)) = some parts' ∧
        List.Forall₂ (List.Forall₂ (Holds lib calls)) parts parts' :=
      mapM_forall₂ (fun index _ gs hgs => by
        split at hgs
        · rename_i hempty
          obtain rfl := some.inj hgs
          exact ⟨[], if_pos hempty, .nil⟩
        · rename_i hempty
          rw [if_neg hempty]
          exact ih (hwriters index) hgs) hparts
    exact ⟨b.groups :: parts'.flatten, bind_eq_some_iff.mpr ⟨b, hb,
      bind_eq_some_iff.mpr ⟨parts', hparts', rfl⟩⟩, .cons h.groups (rel_flatten hholds)⟩

theorem aggregateBatches_follows (remaining : Nat) :
    ∀ {batches : List (EvaluatedBatch D X m n)}, (∀ batch ∈ batches, batch.rows ≠ []) →
      ∀ {sets}, aggregateBatches lib settings (rowStore lib overBudget) remaining batches =
        some sets → (∀ rows ∈ sets, Describable lib calls rows) →
      ∃ gs, aggregateBatches lib settings (inMemoryStore lib calls overBudget) remaining batches =
        some gs := by
  induction remaining with
  | zero =>
    intro batches hbatches sets hsets hrows
    unfold aggregateBatches at hsets ⊢
    obtain ⟨b, hb, hrest⟩ := bind_eq_some_iff.mp hsets
    obtain rfl := some.inj hrest
    obtain ⟨a, ha⟩ := foldlM_follows hbatches simulates_empty hb (hrows _ (by simp))
    exact ⟨[a.groups], bind_eq_some_iff.mpr ⟨a, ha, rfl⟩⟩
  | succ remaining ih =>
    intro batches hbatches sets hsets hrows
    unfold aggregateBatches at hsets ⊢
    obtain ⟨b, hb, hrest⟩ := bind_eq_some_iff.mp hsets
    obtain ⟨parts, hparts, hgroups⟩ := bind_eq_some_iff.mp hrest
    obtain rfl := some.inj hgroups
    obtain ⟨a, ha⟩ := foldlM_follows hbatches simulates_empty hb (hrows _ mem_cons_self)
    obtain ⟨b', hb', h⟩ := foldlM_simulates hbatches simulates_empty ha
    obtain rfl := some.inj (hb.symm.trans hb')
    have hwriters := writers_rows_ne_nil
      (fun hmay => by simpa using (Bool.and_eq_true_iff.mp hmay).1) hb
    obtain ⟨parts', hparts'⟩ := mapM_of_parts
      (f := fun index => if (b.writers index).isEmpty then some []
        else aggregateBatches lib settings (inMemoryStore lib calls overBudget) remaining
          (b.writers index))
      (P := fun sets => ∀ rows ∈ sets, Describable lib calls rows) (fun index _ sets hsets hrows => by
        split at hsets
        · rename_i hempty
          exact ⟨[], if_pos hempty⟩
        · rename_i hempty
          rw [if_neg hempty]
          exact ih (hwriters index) hsets hrows) hparts
      fun sets hsets rows hrows' =>
        hrows rows (mem_cons_of_mem _ (mem_flatten_of_mem hsets hrows'))
    refine ⟨a.groups :: parts'.flatten, bind_eq_some_iff.mpr ⟨a, ha,
      bind_eq_some_iff.mpr ⟨parts', ?_, rfl⟩⟩⟩
    rw [h.writers]
    exact hparts'

end MldpDriver.Query.Aggregate
