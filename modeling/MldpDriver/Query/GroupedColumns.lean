/-
# The columns of the groups

What the groups build in the end depends on the rows in two ways.  A group's slots are built from
the rows of its key alone; the TYPE of a column is settled once for all groups (`Settled`).  A
column of its own type keeps it.  The type of a union column is inferred from its values, and a SUM
is an integer unless a double came by.  -/
import MldpDriver.Query.GroupedSpill

namespace MldpDriver.Query.Aggregate

open Lib.KeySplit List
open Lib.Loop

variable {D X : Type} {m n : Nat}

/-! ## 1. Settled types -/

/-- The type of a column, and the type it was asked for. -/
structure Settled where
  requested : Option ArrowType
  type : ArrowType
  deriving DecidableEq

/-- The type of a value column. -/
def settle (values : List (Value D X)) (requested : Option ArrowType) : Settled :=
  ⟨requested, requested.getD (inferType values)⟩

/-- The slot of a value. -/
def Settled.cell (lib : ValueLib D X) (s : Settled) (value : Value D X) : Option (Cell D X) :=
  match s.requested with
  | some _ => typedCell lib s.type value
  | none => some (inferredCell lib s.type value)

/-- The slot of a group in the column of an aggregate. -/
def groupCell (lib : ValueLib D X) (call : AggregateCall) (s : Settled) (g : GroupState D X) :
    Option (Cell D X) :=
  match call.function with
  | .count => some (.int g.count)
  | .sum average => some (sumCell lib average (s.type == .double) g)
  | .choice _ => s.cell lib g.chosen

/-- The type of the column of an aggregate over groups. -/
def settleAggregate (call : AggregateCall) (groups : List (GroupState D X)) (floating : Bool)
    (requested : Option ArrowType) : Settled :=
  match call.function with
  | .count => ⟨none, .int64⟩
  | .sum average => ⟨none, if average || floating then .double else .int64⟩
  | .choice _ => settle (groups.map (·.chosen)) requested

variable {lib : ValueLib D X}

theorem buildValueColumn_eq (values : List (Value D X)) (requested : Option ArrowType) :
    buildValueColumn lib values requested =
      (values.mapM ((settle values requested).cell lib)).map
        (Column.mk (settle values requested).type) := by
  cases requested with
  | some type => rfl
  | none =>
    have hcells : values.mapM ((settle values none).cell lib) =
        pure (values.map (inferredCell lib (inferType values))) := mapM_eq_pure fun _ _ => rfl
    rw [hcells]
    rfl

theorem sumCell_type (average floating : Bool) (g : GroupState D X) :
    sumCell lib average
        ((if average || floating then ArrowType.double else .int64) == ArrowType.double) g =
      sumCell lib average floating g := by
  cases average <;> cases floating <;> rfl

theorem accumulator_finish_eq (call : AggregateCall) (groupCount : Nat) (a : Accumulator D X)
    {groups : List (GroupState D X)} (hgroups : (List.range groupCount).map a.groups = groups) :
    a.finish lib call groupCount =
      (groups.mapM (groupCell lib call (settleAggregate call groups a.floating a.type))).map
        (Column.mk (settleAggregate call groups a.floating a.type).type) := by
  unfold Accumulator.finish groupCell settleAggregate
  rw [hgroups]
  cases call.function with
  | count =>
    have hcells : groups.mapM (fun g => some (Cell.int g.count : Cell D X)) =
        pure (groups.map fun g => .int g.count) := mapM_eq_pure fun _ _ => rfl
    dsimp only
    rw [hcells]
    rfl
  | sum average =>
    dsimp only
    rw [mapM_eq_pure (g := sumCell lib average a.floating) fun g _ =>
      congrArg some (sumCell_type average a.floating g)]
    rfl
  | choice mode =>
    dsimp only
    rw [buildValueColumn_eq, mapM_map]
    rfl

/-! ## 2. Rows

`finish_iff` gives the output batch by these two. -/

/-- The values of a key, from its first row. -/
def keyValues (lib : ValueLib D X) (rows : List (TypedRow D X m n)) (k : List UInt8) :
    Fin m → Value D X :=
  ((rowsOf (typedKey lib) rows k).head?).elim (fun _ => .nul) fun t => t.2.keys

/-- The state of an aggregate for a key; for rows that have groups. -/
def groupState (lib : ValueLib D X) (calls : Fin n → AggregateCall)
    (rows : List (TypedRow D X m n)) (j : Fin n) (k : List UInt8) : GroupState D X :=
  (keyState lib (calls j) j rows k).getD (.empty lib)

/-- **The types of the columns**, settled by all rows. -/
structure SettledColumns (m n : Nat) where
  keys : Fin m → Settled
  aggregates : Fin n → Settled
  deriving DecidableEq

def settled (lib : ValueLib D X) (calls : Fin n → AggregateCall) (rows : List (TypedRow D X m n)) :
    SettledColumns m n where
  keys j := settle ((groupKeys lib rows).map fun k => keyValues lib rows k j)
    (rows.findSome? fun t => preservedType (t.1.keys j))
  aggregates j := settleAggregate (calls j) ((groupKeys lib rows).map (groupState lib calls rows j))
    (rows.any fun t => (calls j).floats (t.2.arguments j))
    (rows.head?.bind fun t => (makeAccumulator lib (calls j) (argumentType calls t.1 j)).type)

def SettledColumns.types (s : SettledColumns m n) : BatchTypes m n :=
  ⟨fun j => (s.keys j).type, fun j => (s.aggregates j).type⟩

/-- The slots of a key's row that exist. -/
def keyCell (lib : ValueLib D X) (s : SettledColumns m n) (rows : List (TypedRow D X m n))
    (j : Fin m) (k : List UInt8) : Option (Cell D X) :=
  (s.keys j).cell lib (keyValues lib rows k j)

def aggregateCell (lib : ValueLib D X) (calls : Fin n → AggregateCall) (s : SettledColumns m n)
    (rows : List (TypedRow D X m n)) (j : Fin n) (k : List UInt8) : Option (Cell D X) :=
  groupCell lib (calls j) (s.aggregates j) (groupState lib calls rows j k)

/-- Every slot of a key's row can be built. -/
def Built (lib : ValueLib D X) (calls : Fin n → AggregateCall) (s : SettledColumns m n)
    (rows : List (TypedRow D X m n)) (k : List UInt8) : Prop :=
  (∀ j, ∃ cell, keyCell lib s rows j k = some cell) ∧
    ∀ j, ∃ cell, aggregateCell lib calls s rows j k = some cell

/-- The output row of a key. -/
def keyRow (lib : ValueLib D X) (calls : Fin n → AggregateCall) (s : SettledColumns m n)
    (rows : List (TypedRow D X m n)) (k : List UInt8) : (Fin m → Cell D X) × (Fin n → Cell D X) :=
  (fun j => (keyCell lib s rows j k).getD .null,
    fun j => (aggregateCell lib calls s rows j k).getD .null)

/-- The output of rows. -/
def outputOf (lib : ValueLib D X) (calls : Fin n → AggregateCall) (rows : List (TypedRow D X m n)) :
    OutputBatch D X m n where
  keyColumns j := ⟨((settled lib calls rows).keys j).type,
    (groupKeys lib rows).map fun k => (keyCell lib (settled lib calls rows) rows j k).getD .null⟩
  aggregateColumns j := ⟨((settled lib calls rows).aggregates j).type,
    (groupKeys lib rows).map fun k =>
      (aggregateCell lib calls (settled lib calls rows) rows j k).getD .null⟩
  rowCount := (groupKeys lib rows).length

variable {calls : Fin n → AggregateCall} {rows : List (TypedRow D X m n)}

theorem outputOf_rows : (outputOf lib calls rows).rows =
    (groupKeys lib rows).map (keyRow lib calls (settled lib calls rows) rows) := by
  have hlength : (outputOf lib calls rows).rows.length = (groupKeys lib rows).length := by
    rw [OutputBatch.rows, length_map, length_range]
    rfl
  refine ext_getElem (by rw [hlength, length_map]) fun i hi _ => ?_
  rw [hlength] at hi
  have hslot : ∀ f : List UInt8 → Cell D X, ((groupKeys lib rows).map f).getD i .null =
      f (groupKeys lib rows)[i] := by
    intro f
    rw [List.getD_eq_getElem?_getD, List.getElem?_map, List.getElem?_eq_getElem hi]
    rfl
  simp only [OutputBatch.rows, getElem_map, getElem_range]
  exact Prod.ext (funext fun j => hslot _) (funext fun j => hslot _)

theorem tableOf_values (j : Fin m) :
    (tableOf lib rows).values.map (fun keys => keys j) =
      (groupKeys lib rows).map fun k => keyValues lib rows k j := by
  have hm : m ≠ 0 := Nat.ne_of_gt (Nat.lt_of_le_of_lt (Nat.zero_le _) j.isLt)
  rw [tableOf, groupKeys, if_neg hm, if_neg hm, map_map, map_map]
  refine map_congr_left fun t ht => ?_
  simp [keyValues, firstRows_head ht]

theorem tableOf_types (j : Fin m) :
    (tableOf lib rows).types j = rows.findSome? fun t => preservedType (t.1.keys j) := by
  have hm : m ≠ 0 := Nat.ne_of_gt (Nat.lt_of_le_of_lt (Nat.zero_le _) j.isLt)
  rw [tableOf, if_neg hm]

variable {g : InMemoryGroups D X m n}

theorem Describes.groupCount (h : Describes lib calls rows g) :
    g.groupCount = (groupKeys lib rows).length := by
  unfold InMemoryGroups.groupCount groupKeys
  rw [h.keys, tableOf]
  split <;> rfl

theorem Describes.finished (h : Describes lib calls rows g) (j : Fin n) :
    ∃ a : Accumulator D X, (g.accumulators j).getD (makeAccumulator lib (calls j) none) = a ∧
      (List.range (groupKeys lib rows).length).map a.groups =
        (groupKeys lib rows).map (groupState lib calls rows j) ∧
      a.floating = (rows.any fun t => (calls j).floats (t.2.arguments j)) ∧
      a.type = rows.head?.bind fun t =>
        (makeAccumulator lib (calls j) (argumentType calls t.1 j)).type := by
  cases hrows : rows with
  | nil =>
    subst hrows
    rw [h.unmade rfl j]
    refine ⟨_, rfl, ?_, rfl, ?_⟩
    · refine ext_getElem (by simp) fun i _ hi => ?_
      simp [makeAccumulator, groupState, keyState]
    · simp only [makeAccumulator, List.head?_nil, Option.bind_none]
      cases (calls j).function <;> rfl
  | cons first rest =>
    obtain ⟨a, ha, hacc⟩ := h.made first rest hrows j
    rw [ha, ← hrows]
    refine ⟨a, rfl, ?_, hacc.floating, ?_⟩
    · refine ext_getElem (by simp) fun i _ hi => ?_
      rw [length_map] at hi
      have hid := hacc.groups i
      rw [idState, List.getElem?_eq_getElem hi, Option.elim_some] at hid
      simp [groupState, hid]
    · rw [hacc.type, hrows]
      rfl

/-- **The output batch of groups.** -/
theorem Describes.finish_iff (h : Describes lib calls rows g) (o : OutputBatch D X m n) :
    g.finish lib calls = some o ↔
      (∀ k ∈ groupKeys lib rows, Built lib calls (settled lib calls rows) rows k) ∧
        outputOf lib calls rows = o := by
  have hkeys : ∀ j c, buildValueColumn lib (g.keys.values.map fun keys => keys j) (g.keys.types j) =
      some c ↔ (∀ k ∈ groupKeys lib rows, ∃ cell,
        keyCell lib (settled lib calls rows) rows j k = some cell) ∧
        (outputOf lib calls rows).keyColumns j = c := by
    intro j c
    rw [h.keys, tableOf_values, tableOf_types, buildValueColumn_eq, mapM_map,
      Option.map_eq_some_iff]
    constructor
    · rintro ⟨cells, hcells, rfl⟩
      obtain ⟨hall, rfl⟩ := (mapM_eq_some_iff .null).mp hcells
      exact ⟨hall, rfl⟩
    · rintro ⟨hall, rfl⟩
      exact ⟨_, (mapM_eq_some_iff .null).mpr ⟨hall, rfl⟩, rfl⟩
  have haggregates : ∀ j c, ((g.accumulators j).getD (makeAccumulator lib (calls j) none)).finish
      lib (calls j) g.groupCount = some c ↔ (∀ k ∈ groupKeys lib rows, ∃ cell,
        aggregateCell lib calls (settled lib calls rows) rows j k = some cell) ∧
        (outputOf lib calls rows).aggregateColumns j = c := by
    intro j c
    obtain ⟨a, ha, hgroups, hfloating, htype⟩ := h.finished j
    rw [ha, h.groupCount, accumulator_finish_eq (calls j) _ a hgroups, hfloating, htype,
      mapM_map, Option.map_eq_some_iff]
    constructor
    · rintro ⟨cells, hcells, rfl⟩
      obtain ⟨hall, rfl⟩ := (mapM_eq_some_iff .null).mp hcells
      exact ⟨hall, rfl⟩
    · rintro ⟨hall, rfl⟩
      exact ⟨_, (mapM_eq_some_iff .null).mpr ⟨hall, rfl⟩, rfl⟩
  unfold InMemoryGroups.finish
  constructor
  · intro hfinish
    obtain ⟨keyColumns, hkeyColumns, hrest⟩ := Option.bind_eq_some_iff.mp hfinish
    obtain ⟨aggregateColumns, hcolumns, hrest⟩ := Option.bind_eq_some_iff.mp hrest
    rw [allSome_eq_some] at hkeyColumns hcolumns
    refine ⟨fun k hk => ⟨fun j => ((hkeys j _).mp (hkeyColumns j)).1 k hk,
      fun j => ((haggregates j _).mp (hcolumns j)).1 k hk⟩, ?_⟩
    rw [← Option.some.inj hrest, h.groupCount]
    have hk : (outputOf lib calls rows).keyColumns = keyColumns :=
      funext fun j => ((hkeys j _).mp (hkeyColumns j)).2
    have ha : (outputOf lib calls rows).aggregateColumns = aggregateColumns :=
      funext fun j => ((haggregates j _).mp (hcolumns j)).2
    rw [← hk, ← ha]
    rfl
  · rintro ⟨hbuilt, rfl⟩
    refine Option.bind_eq_some_iff.mpr ⟨(outputOf lib calls rows).keyColumns, ?_,
      Option.bind_eq_some_iff.mpr ⟨(outputOf lib calls rows).aggregateColumns, ?_, ?_⟩⟩
    · exact allSome_eq_some.mpr fun j => (hkeys j _).mpr ⟨fun k hk => (hbuilt k hk).1 j, rfl⟩
    · exact allSome_eq_some.mpr fun j => (haggregates j _).mpr ⟨fun k hk => (hbuilt k hk).2 j, rfl⟩
    · rw [h.groupCount]
      rfl

end MldpDriver.Query.Aggregate
