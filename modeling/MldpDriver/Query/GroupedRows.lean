/-
# What the groups in memory hold

The groups in memory are determined by the rows they consumed (`Describes`), in whatever batches
these came: one group for each key in the order of the first rows, with the state that the rows of
the key give it, and for each column the type of the rows before all others.  -/
import MldpDriver.Lib.KeySplit
import MldpDriver.Query.GroupedAggregator

namespace MldpDriver.Query.Aggregate

open Lib.KeySplit List

variable {D X : Type} {m n : Nat}

/-- A row with the types of its batch. -/
abbrev TypedRow (D X : Type) (m n : Nat) := BatchTypes m n × EvaluatedRow D X m n

def typedKey (lib : ValueLib D X) (t : TypedRow D X m n) : List UInt8 := t.2.key lib

/-- The rows of a batch with its types. -/
def EvaluatedBatch.typedRows (batch : EvaluatedBatch D X m n) : List (TypedRow D X m n) :=
  batch.rows.map fun row => (batch.types, row)

theorem allSome_eq_some {α : Type} {f : Fin n → Option α} {g : Fin n → α} :
    allSome f = some g ↔ ∀ i, f i = some (g i) := by
  unfold allSome
  constructor
  · intro h
    split at h
    · obtain rfl := Option.some.inj h
      exact fun i => (Option.some_get _).symm
    · cases h
  · intro h
    have hall : ∀ i, (f i).isSome = true := fun i => by rw [h i]; rfl
    rw [dif_pos hall]
    congr 1
    funext i
    exact Option.get_of_eq_some _ (h i)

/-! ## 1. Groups by their rows -/

/-- The keys of the groups; without keys there is one group. -/
def groupKeys (lib : ValueLib D X) (rows : List (TypedRow D X m n)) : List (List UInt8) :=
  if m = 0 then [[]] else (firstRows (typedKey lib) rows).map (typedKey lib)

/-- The table of the keys. -/
def tableOf (lib : ValueLib D X) (rows : List (TypedRow D X m n)) : GroupKeyTable D X m :=
  if m = 0 then {}
  else
    { index := (firstRows (typedKey lib) rows).map (typedKey lib)
      values := (firstRows (typedKey lib) rows).map fun t => t.2.keys
      types := fun j => rows.findSome? fun t => preservedType (t.1.keys j) }

/-- The state of an aggregate for a key. -/
def keyState (lib : ValueLib D X) (call : AggregateCall) (j : Fin n)
    (rows : List (TypedRow D X m n)) (k : List UInt8) : Option (GroupState D X) :=
  ((rowsOf (typedKey lib) rows k).map fun t => t.2.arguments j).foldlM
    (GroupState.consume lib call) (.empty lib)

/-- The state of an aggregate for a group id; the empty state for an id without group. -/
def idState (lib : ValueLib D X) (call : AggregateCall) (j : Fin n)
    (rows : List (TypedRow D X m n)) (i : Nat) : Option (GroupState D X) :=
  ((groupKeys lib rows)[i]?).elim (some (.empty lib)) (keyState lib call j rows)

/-- What an accumulator holds after rows, the first of which is `first`. -/
structure Accumulates (lib : ValueLib D X) (calls : Fin n → AggregateCall) (j : Fin n)
    (first : TypedRow D X m n) (rows : List (TypedRow D X m n)) (a : Accumulator D X) : Prop where
  type : a.type = (makeAccumulator lib (calls j) (argumentType calls first.1 j)).type
  floating : a.floating = rows.any fun t => (calls j).floats (t.2.arguments j)
  groups : ∀ i, idState lib (calls j) j rows i = some (a.groups i)

/-- **What the groups hold** after rows. -/
structure Describes (lib : ValueLib D X) (calls : Fin n → AggregateCall)
    (rows : List (TypedRow D X m n)) (g : InMemoryGroups D X m n) : Prop where
  keys : g.keys = tableOf lib rows
  unmade : rows = [] → ∀ j, g.accumulators j = none
  made : ∀ first rest, rows = first :: rest → ∀ j,
    ∃ a, g.accumulators j = some a ∧ Accumulates lib calls j first rows a

variable {lib : ValueLib D X} {calls : Fin n → AggregateCall}

theorem describes_nil : Describes lib calls [] ({} : InMemoryGroups D X m n) where
  keys := by
    unfold tableOf
    split <;> rfl
  unmade _ _ := rfl
  made _ _ h := by cases h

/-! ## 2. The keys -/

theorem key_of_noKeys {row : EvaluatedRow D X m n} (hm : m = 0) : row.key lib = [] := by
  subst hm
  rfl

theorem assignRow_tableOf (hm : m ≠ 0) (rows : List (TypedRow D X m n))
    (types : Fin m → Option ArrowType) (t : TypedRow D X m n) :
    ({ tableOf lib rows with types } : GroupKeyTable D X m).assignRow lib t.2 =
      { tableOf lib (rows ++ [t]) with types } := by
  unfold GroupKeyTable.assignRow tableOf
  rw [if_neg hm, if_neg hm]
  have hmem : t.2.key lib ∈ (firstRows (typedKey lib) rows).map (typedKey lib) ↔
      typedKey lib t ∈ rows.map (typedKey lib) := mem_firstRows_keys
  by_cases hk : typedKey lib t ∈ rows.map (typedKey lib)
  · have hfirst : firstRows (typedKey lib) (rows ++ [t]) = firstRows (typedKey lib) rows := by
      simp [firstRows_append, firstRows, filter_cons_of_neg, hk]
    simp only [if_pos (hmem.mpr hk), hfirst]
  · have hfirst : firstRows (typedKey lib) (rows ++ [t]) =
        firstRows (typedKey lib) rows ++ [t] := by
      simp only [firstRows_append, firstRows, filter_nil]
      rw [filter_cons_of_pos (by simpa using hk)]
      rfl
    simp only [if_neg (mt hmem.mp hk), hfirst, map_append, map_cons, map_nil]
    rfl

variable {batch : EvaluatedBatch D X m n}

theorem assign_tableOf (rows : List (TypedRow D X m n)) (hbatch : batch.rows ≠ []) :
    (tableOf lib rows).assign lib batch = tableOf lib (rows ++ batch.typedRows) := by
  unfold GroupKeyTable.assign
  by_cases hm : m = 0
  · rw [if_pos hm, tableOf, tableOf, if_pos hm, if_pos hm]
  · rw [if_neg hm]
    have hloop : ∀ (more : List (EvaluatedRow D X m n)) (rows : List (TypedRow D X m n))
        (types : Fin m → Option ArrowType),
        more.foldl (fun t row => t.assignRow lib row)
          ({ tableOf lib rows with types } : GroupKeyTable D X m) =
        { tableOf lib (rows ++ more.map fun row => (batch.types, row)) with types } := by
      intro more
      induction more with
      | nil => simp
      | cons row more ih =>
        intro rows types
        rw [foldl_cons, assignRow_tableOf hm rows types (batch.types, row), ih]
        simp
    rw [hloop]
    have htypes : ∀ rows : List (TypedRow D X m n), (tableOf lib rows).types =
        fun j => rows.findSome? fun t => preservedType (t.1.keys j) := by
      intro rows
      rw [tableOf, if_neg hm]
    have hnew : ∀ j, batch.typedRows.findSome? (fun t => preservedType (t.1.keys j)) =
        preservedType (batch.types.keys j) := by
      intro j
      obtain ⟨row, more, hrows⟩ := exists_cons_of_ne_nil hbatch
      rw [EvaluatedBatch.typedRows, hrows, map_cons, List.findSome?_cons]
      cases hp : preservedType (batch.types.keys j) with
      | some type => rfl
      | none =>
        rw [List.findSome?_map, List.findSome?_eq_none_iff]
        exact fun _ _ => hp
    have hall : (fun j => ((tableOf lib rows).types j).or (preservedType (batch.types.keys j))) =
        (tableOf lib (rows ++ batch.typedRows)).types := by
      rw [htypes, htypes]
      funext j
      rw [List.findSome?_append, hnew]
    rw [hall]
    rfl

theorem groupKeys_nodup (rows : List (TypedRow D X m n)) : (groupKeys lib rows).Nodup := by
  unfold groupKeys
  split
  · simp
  · exact firstRows_keys_nodup rows

theorem groupKeys_append (rows more : List (TypedRow D X m n)) :
    ∃ extra, groupKeys lib (rows ++ more) = groupKeys lib rows ++ extra := by
  unfold groupKeys
  split
  · exact ⟨[], rfl⟩
  · rw [firstRows_append, map_append]
    exact ⟨_, rfl⟩

variable {rows : List (TypedRow D X m n)}

theorem typedKey_mem_groupKeys {t : TypedRow D X m n} (ht : t ∈ rows) :
    typedKey lib t ∈ groupKeys lib rows := by
  unfold groupKeys
  split
  · rename_i hm
    rw [typedKey, key_of_noKeys hm]
    exact mem_singleton_self _
  · exact mem_firstRows_keys.mpr (mem_map_of_mem ht)

theorem rowsOf_of_not_mem {k : List UInt8} (hk : k ∉ groupKeys lib rows) :
    rowsOf (typedKey lib) rows k = [] := by
  rw [rowsOf, filter_eq_nil_iff]
  intro t ht he
  have hkey : typedKey lib t = k := by simpa using he
  exact hk (hkey ▸ typedKey_mem_groupKeys ht)

theorem groupId_eq_iff {t : TypedRow D X m n} (ht : t ∈ rows) (i : Nat) :
    (tableOf lib rows).groupId lib t.2 = i ↔
      (groupKeys lib rows)[i]? = some (typedKey lib t) := by
  have hmem : typedKey lib t ∈ groupKeys lib rows := typedKey_mem_groupKeys ht
  have hnodup : (groupKeys lib rows).Nodup := groupKeys_nodup rows
  unfold GroupKeyTable.groupId
  by_cases hm : m = 0
  · have hkey : typedKey lib t = [] := key_of_noKeys hm
    rw [if_pos hm, groupKeys, if_pos hm, hkey]
    cases i <;> simp
  · have hindex : (tableOf lib rows).index = groupKeys lib rows := by
      rw [tableOf, groupKeys, if_neg hm, if_neg hm]
    rw [if_neg hm, hindex]
    change (groupKeys lib rows).idxOf (typedKey lib t) = i ↔ _
    have hlt := idxOf_lt_length_of_mem hmem
    have hget : (groupKeys lib rows)[(groupKeys lib rows).idxOf (typedKey lib t)]? =
        some (typedKey lib t) := by
      rw [List.getElem?_eq_getElem hlt, getElem_idxOf]
    constructor
    · rintro rfl
      exact hget
    · intro hi
      exact (List.getElem?_inj hlt hnodup).mp (hget.trans hi.symm)

/-! ## 3. The accumulators -/

theorem accumulator_consume_iff {call : AggregateCall} {a a' : Accumulator D X}
    (rows : List (Nat × Value D X)) :
    a.consume lib call rows = some a' ↔ a'.type = a.type ∧
      a'.floating = (a.floating || rows.any fun row => call.floats row.2) ∧
      ∀ i, ((rows.filter fun row => row.1 = i).map (·.2)).foldlM (GroupState.consume lib call)
        (a.groups i) = some (a'.groups i) := by
  induction rows generalizing a with
  | nil =>
    have hext : a = a' ↔ a'.type = a.type ∧ a'.floating = a.floating ∧
        ∀ i, a.groups i = a'.groups i := by
      obtain ⟨type, floating, groups⟩ := a
      obtain ⟨type', floating', groups'⟩ := a'
      simp only [Accumulator.mk.injEq, funext_iff]
      exact and_congr eq_comm (and_congr eq_comm Iff.rfl)
    simpa [Accumulator.consume] using hext
  | cons row rows ih =>
    have hcons : a.consume lib call (row :: rows) =
        (a.consumeRow lib call row).bind fun a => a.consume lib call rows := rfl
    rw [hcons]
    have hother : ∀ i, i ≠ row.1 → ((row :: rows).filter fun row => row.1 = i) =
        rows.filter fun row => row.1 = i := fun i hi =>
      filter_cons_of_neg (by simpa using fun h => hi h.symm)
    have hown : ((row :: rows).filter fun r => r.1 = row.1) =
        row :: rows.filter fun r => r.1 = row.1 := filter_cons_of_pos (by simp)
    unfold Accumulator.consumeRow
    cases hstep : (a.groups row.1).consume lib call row.2 with
    | none =>
      -- the step of the row's group throws
      simp only [Option.map_none, Option.bind_none, reduceCtorEq, false_iff]
      rintro ⟨-, -, hgroups⟩
      have hfold := hgroups row.1
      rw [hown, map_cons, foldlM_cons, hstep] at hfold
      cases hfold
    | some g =>
      simp only [Option.map_some, Option.bind_some]
      rw [ih]
      refine and_congr Iff.rfl (and_congr (by rw [any_cons, Bool.or_assoc]) ?_)
      refine forall_congr' fun i => ?_
      by_cases hi : i = row.1
      · subst hi
        rw [hown, map_cons, foldlM_cons, hstep]
        simp only [Function.update_self]
        rfl
      · rw [hother i hi]
        simp only [Function.update_of_ne hi]

theorem batch_values (rows : List (TypedRow D X m n)) (batch : EvaluatedBatch D X m n) (j : Fin n)
    (i : Nat) :
    (((batch.rows.map fun row => ((tableOf lib (rows ++ batch.typedRows)).groupId lib row,
        row.arguments j)).filter fun row => row.1 = i).map (·.2)) =
      ((groupKeys lib (rows ++ batch.typedRows))[i]?).elim [] fun k =>
        (rowsOf (typedKey lib) batch.typedRows k).map fun t => t.2.arguments j := by
  have hid : ∀ row ∈ batch.rows, ((tableOf lib (rows ++ batch.typedRows)).groupId lib row = i ↔
      (groupKeys lib (rows ++ batch.typedRows))[i]? = some (row.key lib)) := fun row hrow =>
    groupId_eq_iff (t := (batch.types, row))
      (mem_append_right _ (mem_map_of_mem hrow)) i
  rw [filter_map, map_map]
  cases hk : (groupKeys lib (rows ++ batch.typedRows))[i]? with
  | none =>
    have hnone : batch.rows.filter ((fun row : Nat × Value D X => decide (row.1 = i)) ∘ fun row =>
        ((tableOf lib (rows ++ batch.typedRows)).groupId lib row, row.arguments j)) = [] := by
      rw [filter_eq_nil_iff]
      intro row hrow
      have := hid row hrow
      rw [hk] at this
      simpa using this
    rw [hnone]
    rfl
  | some k =>
    rw [Option.elim_some, rowsOf, EvaluatedBatch.typedRows, filter_map, map_map]
    have hfilter : batch.rows.filter ((fun row : Nat × Value D X => decide (row.1 = i)) ∘ fun row =>
        ((tableOf lib (rows ++ batch.typedRows)).groupId lib row, row.arguments j)) =
        batch.rows.filter ((fun t : TypedRow D X m n => decide (typedKey lib t = k)) ∘
          fun row => (batch.types, row)) := by
      refine filter_congr fun row hrow => ?_
      have hrow' := hid row hrow
      rw [hk, Option.some_inj] at hrow'
      exact decide_eq_decide.mpr (hrow'.trans eq_comm)
    rw [← EvaluatedBatch.typedRows, hfilter]
    rfl

theorem idState_append (call : AggregateCall) (j : Fin n) (rows more : List (TypedRow D X m n))
    (i : Nat) :
    idState lib call j (rows ++ more) i = (idState lib call j rows i).bind fun g =>
      (((groupKeys lib (rows ++ more))[i]?).elim [] fun k =>
        (rowsOf (typedKey lib) more k).map fun t => t.2.arguments j).foldlM
          (GroupState.consume lib call) g := by
  obtain ⟨extra, hextra⟩ : ∃ extra, groupKeys lib (rows ++ more) = groupKeys lib rows ++ extra :=
    groupKeys_append rows more
  cases hk : (groupKeys lib (rows ++ more))[i]? with
  | none =>
    have hold : (groupKeys lib rows)[i]? = none := by
      rw [hextra, List.getElem?_eq_none_iff, length_append] at hk
      rw [List.getElem?_eq_none_iff]
      omega
    simp [idState, hk, hold]
  | some k =>
    have hnew : idState lib call j (rows ++ more) i = keyState lib call j (rows ++ more) k := by
      simp [idState, hk]
    have hold : idState lib call j rows i = keyState lib call j rows k := by
      cases hold : (groupKeys lib rows)[i]? with
      | some k' =>
        have hsame : (groupKeys lib (rows ++ more))[i]? = some k' := by
          rw [hextra, List.getElem?_append_left (List.getElem?_eq_some_iff.mp hold).1, hold]
        obtain rfl := Option.some.inj (hsame.symm.trans hk)
        simp [idState, hold]
      | none =>
        -- a new group
        have hnot : k ∉ groupKeys lib rows := by
          intro hmem
          obtain ⟨i', hi', rfl⟩ := mem_iff_getElem.mp hmem
          have hat : (groupKeys lib (rows ++ more))[i']? = some (groupKeys lib rows)[i'] := by
            rw [hextra, List.getElem?_append_left hi', List.getElem?_eq_getElem hi']
          have hlt : i' < (groupKeys lib (rows ++ more)).length :=
            (List.getElem?_eq_some_iff.mp hat).1
          have hii := (List.getElem?_inj hlt (groupKeys_nodup (rows ++ more))).mp
            (hat.trans hk.symm)
          rw [List.getElem?_eq_none_iff] at hold
          omega
        rw [idState, hold, keyState, rowsOf_of_not_mem hnot]
        rfl
    rw [hnew, hold, keyState, rowsOf_append, map_append, foldlM_append]
    rfl

/-! ## 4. The step

`consume_iff` is the step: consuming a batch succeeds exactly when there are groups that hold the
rows so far and those of the batch, and it leads to these. -/

theorem Describes.accumulator {g : InMemoryGroups D X m n} (h : Describes lib calls rows g)
    (hbatch : batch.rows ≠ []) {first : TypedRow D X m n} {rest : List (TypedRow D X m n)}
    (hfirst : rows ++ batch.typedRows = first :: rest) (j : Fin n) :
    ((g.accumulators j).getD (makeAccumulator lib (calls j) (argumentType calls batch.types j))).type =
        (makeAccumulator lib (calls j) (argumentType calls first.1 j)).type ∧
      ((g.accumulators j).getD
          (makeAccumulator lib (calls j) (argumentType calls batch.types j))).floating =
        (rows.any fun t => (calls j).floats (t.2.arguments j)) ∧
      ∀ i, idState lib (calls j) j rows i = some (((g.accumulators j).getD
        (makeAccumulator lib (calls j) (argumentType calls batch.types j))).groups i) := by
  cases hrows : rows with
  | nil =>
    subst hrows
    obtain ⟨row, more, hmore⟩ := exists_cons_of_ne_nil hbatch
    rw [EvaluatedBatch.typedRows, hmore, nil_append, map_cons, List.cons.injEq] at hfirst
    rw [h.unmade rfl j, ← hfirst.1, Option.getD_none]
    refine ⟨rfl, rfl, fun i => ?_⟩
    unfold idState
    cases (groupKeys lib ([] : List (TypedRow D X m n)))[i]? <;> rfl
  | cons t more =>
    rw [hrows, cons_append, List.cons.injEq] at hfirst
    obtain ⟨a, ha, hacc⟩ := h.made t more hrows j
    rw [ha, Option.getD_some, ← hfirst.1, ← hrows]
    exact ⟨hacc.type, hacc.floating, hacc.groups⟩

/-- **Consuming a batch** leads to the groups that hold the rows so far and those of the batch. -/
theorem Describes.consume_iff {g g' : InMemoryGroups D X m n} (h : Describes lib calls rows g)
    (hbatch : batch.rows ≠ []) :
    g.consume lib calls batch = some g' ↔ Describes lib calls (rows ++ batch.typedRows) g' := by
  have hkeys : g.keys.assign lib batch = tableOf lib (rows ++ batch.typedRows) := by
    rw [h.keys]
    exact assign_tableOf rows hbatch
  obtain ⟨first, rest, hfirst⟩ : ∃ first rest, rows ++ batch.typedRows = first :: rest :=
    exists_cons_of_ne_nil (by simp [EvaluatedBatch.typedRows, hbatch])
  have hstep : ∀ (j : Fin n) (a' : Accumulator D X),
      ((g.accumulators j).getD (makeAccumulator lib (calls j)
        (argumentType calls batch.types j))).consume lib (calls j) (batch.rows.map fun row =>
          ((tableOf lib (rows ++ batch.typedRows)).groupId lib row, row.arguments j)) = some a' ↔
        Accumulates lib calls j first (rows ++ batch.typedRows) a' := by
    intro j a'
    obtain ⟨htype, hfloating, hgroups⟩ := h.accumulator hbatch hfirst j
    rw [accumulator_consume_iff, htype, hfloating]
    have hany : ((rows.any fun t => (calls j).floats (t.2.arguments j)) ||
        (batch.rows.map fun row => ((tableOf lib (rows ++ batch.typedRows)).groupId lib row,
          row.arguments j)).any fun row => (calls j).floats row.2) =
        (rows ++ batch.typedRows).any fun t => (calls j).floats (t.2.arguments j) := by
      simp [EvaluatedBatch.typedRows, any_map, Function.comp_def]
    rw [hany]
    have hfold : ∀ i, (((batch.rows.map fun row =>
        ((tableOf lib (rows ++ batch.typedRows)).groupId lib row, row.arguments j)).filter
          fun row => row.1 = i).map (·.2)).foldlM (GroupState.consume lib (calls j))
            (((g.accumulators j).getD (makeAccumulator lib (calls j)
              (argumentType calls batch.types j))).groups i) =
        idState lib (calls j) j (rows ++ batch.typedRows) i := by
      intro i
      rw [idState_append, hgroups i, batch_values]
      rfl
    exact ⟨fun ⟨ht, hf, hg⟩ => ⟨ht, hf, fun i => (hfold i).symm.trans (hg i)⟩,
      fun ha => ⟨ha.type, ha.floating, fun i => (hfold i).trans (ha.groups i)⟩⟩
  unfold InMemoryGroups.consume
  simp only [hkeys, Option.map_eq_some_iff, allSome_eq_some]
  constructor
  · rintro ⟨accumulators, hall, rfl⟩
    refine ⟨rfl, fun hnil => ?_, fun first' rest' hfirst' j => ⟨accumulators j, rfl, ?_⟩⟩
    · rw [hfirst] at hnil
      cases hnil
    · obtain ⟨rfl, -⟩ := List.cons.inj (hfirst.symm.trans hfirst')
      exact (hstep j _).mp (hall j)
  · rintro ⟨hk, -, hsome⟩
    choose accumulators hacc using hsome first rest hfirst
    refine ⟨accumulators, fun j => (hstep j _).mpr (hacc j).2, ?_⟩
    obtain ⟨keys, accumulators'⟩ := g'
    obtain rfl : keys = _ := hk
    congr 1
    funext j
    exact (hacc j).1.symm

end MldpDriver.Query.Aggregate
