/-
# The rows of a partition in GROUP BY

The same rows as one group of a GROUP BY, through the accumulators of its aggregates.
-/
import MldpDriver.Query.GroupedRows
import MldpDriver.Query.WholePartition

namespace MldpDriver.Query.Window

open List
open Aggregate (Value ValueLib ArrowType IntegerStorage AggregateCall GroupState Accumulator
  compareValues preservedType typedCell buildValueColumn makeAccumulator sumCell)
open Lib.BestOf

variable {D X : Type} {lib : ValueLib D X}

/-! ## 1. One group -/

def SharedAggregate.call : SharedAggregate → AggregateCall
  | .countAll => { function := .count, hasArgument := false }
  | .count => { function := .count }
  | .sum => { function := .sum false }
  | .choice minimum => { function := .choice (if minimum then .min else .max) }

/-- The slot of the one group that GROUP BY makes of the rows. -/
def groupCell (f : SharedAggregate) (p : Partition lib) : Option (Aggregate.Cell D X) :=
  ((makeAccumulator lib f.call (some p.type)).consume lib f.call
    (p.values.map fun v => (0, v))).bind fun a =>
      (a.finish lib f.call 1).bind fun column => column.cells.head?

/-- GROUP BY gives the value back as the column stores it. -/
def Kept (lib : ValueLib D X) : ArrowType → Stored D X → Prop
  | _, .uint64 n => n < 2 ^ 63
  | .union, .other _ => False
  | .other id, .other x => lib.accepts id x = true
  | .largeString, .string text => lib.utf8 text = true
  | _, _ => True

/-! ## 2. What GROUP BY compares -/

/-- The kinds that GROUP BY compares with each other: numbers, booleans, texts. -/
def orderClass : Value D X → Option Nat
  | .int _ => some 0
  | .double _ => some 0
  | .bool _ => some 1
  | .string _ => some 2
  | _ => none

theorem compareBy_neg_iff {α : Type} {lt : α → α → Bool} {a b : α} :
    Aggregate.compareBy lt a b < 0 ↔ lt a b = true := by
  rw [Aggregate.compareBy]
  cases lt a b with
  | true => exact iff_of_true (by decide : (-1 : Int) < 0) rfl
  | false => cases lt b a <;> decide

theorem compareBy_pos_iff {α : Type} {lt : α → α → Bool} {a b : α}
    (hasymm : lt a b = true → lt b a = false) :
    0 < Aggregate.compareBy lt a b ↔ lt b a = true := by
  rw [Aggregate.compareBy]
  cases hab : lt a b with
  | true => rw [hasymm hab]; decide
  | false => cases lt b a <;> decide

theorem exists_compareValues (hlib : OrderedDoubles lib) {a b : Value D X}
    (hclass : orderClass a = orderClass b) (hne : orderClass a ≠ none) :
    ∃ order, compareValues lib a b = some order ∧ (order < 0 ↔ before lib a b = true) ∧
      (0 < order ↔ before lib b a = true) := by
  have hints : ∀ m n : Int, decide (m < n) = true → decide (n < m) = false := fun m n h =>
    decide_eq_false (Int.lt_asymm (of_decide_eq_true h))
  cases a with
  | nul => exact absurd rfl hne
  | other x => exact absurd rfl hne
  | int m =>
    cases b with
    | int n => exact ⟨_, rfl, compareBy_neg_iff, compareBy_pos_iff (hints m n)⟩
    | double d => exact ⟨_, rfl, compareBy_neg_iff, compareBy_pos_iff hlib.asymm⟩
    | _ => cases hclass
  | double d =>
    cases b with
    | int n => exact ⟨_, rfl, compareBy_neg_iff, compareBy_pos_iff hlib.asymm⟩
    | double e => exact ⟨_, rfl, compareBy_neg_iff, compareBy_pos_iff hlib.asymm⟩
    | _ => cases hclass
  | bool l =>
    cases b with
    | bool r =>
      refine ⟨_, rfl, ?_, ?_⟩
      · cases l <;> cases r <;> simp [before]
      · cases l <;> cases r <;> simp [before]
    | _ => cases hclass
  | string l =>
    cases b with
    | string r =>
      refine ⟨_, rfl, decide_eq_true_iff.symm, ?_⟩
      rw [before, decide_eq_true_iff, compareText_swap l r]
      omega
    | _ => cases hclass

theorem orderClass_of_compareValues {a b : Value D X} {order : Int}
    (h : compareValues lib a b = some order) :
    orderClass a = orderClass b ∧ orderClass a ≠ none := by
  cases a <;> cases b <;> first | exact ⟨rfl, Option.some_ne_none _⟩ | cases h

/-- A row with a value for MIN or MAX, as `offer` takes it. -/
def choose (lib : ValueLib D X) (minimum : Bool) (chosen value : Value D X) :
    Option (Value D X) :=
  if value.isNull then some chosen
  else if chosen.isNull then some value
  else (compareValues lib value chosen).map fun order =>
    if (if minimum then order < 0 else 0 < order) then value else chosen

theorem consume_choice (minimum : Bool) (g : GroupState D X) (value : Value D X) :
    g.consume lib (SharedAggregate.choice minimum).call value =
      (choose lib minimum g.chosen value).map fun chosen => { g with chosen := chosen } := by
  rw [GroupState.consume, choose]
  cases minimum with
  | true =>
    change g.offer lib .min value = _
    rw [GroupState.offer]
    split
    · rfl
    split
    · rfl
    rw [Option.map_map]
    refine congrArg (fun f => Option.map f _) (funext fun order => ?_)
    by_cases horder : order < 0
    · simp [horder]
    · simp [horder]
  | false =>
    change g.offer lib .max value = _
    rw [GroupState.offer]
    split
    · rfl
    split
    · rfl
    rw [Option.map_map]
    refine congrArg (fun f => Option.map f _) (funext fun order => ?_)
    by_cases horder : 0 < order
    · simp [horder]
    · simp [horder]

theorem foldlM_consume_choice (minimum : Bool) (values : List (Value D X)) (g : GroupState D X) :
    values.foldlM (GroupState.consume lib (SharedAggregate.choice minimum).call) g =
      (values.foldlM (choose lib minimum) g.chosen).map fun chosen =>
        { g with chosen := chosen } := by
  induction values generalizing g with
  | nil => rfl
  | cons value values ih =>
    rw [foldlM_cons, foldlM_cons, consume_choice]
    cases choose lib minimum g.chosen value with
    | none => rfl
    | some chosen => exact ih { g with chosen := chosen }

theorem foldlM_choose_filter (minimum : Bool) (values : List (Value D X)) (chosen : Value D X) :
    values.foldlM (choose lib minimum) chosen =
      (values.filter fun v => !v.isNull).foldlM (choose lib minimum) chosen := by
  induction values generalizing chosen with
  | nil => rfl
  | cons value values ih =>
    by_cases hnull : value.isNull = true
    · rw [filter_cons_of_neg (by simp [hnull]), foldlM_cons, choose, if_pos hnull]
      exact ih chosen
    · rw [filter_cons_of_pos (by simp [hnull]), foldlM_cons, foldlM_cons]
      exact congrArg (Option.bind _) (funext ih)

theorem foldlM_choose (hlib : OrderedDoubles lib) (minimum : Bool) {x : Value D X}
    {xs : List (Value D X)} (hclass : ∀ y ∈ xs, orderClass y = orderClass x)
    (hne : orderClass x ≠ none) :
    xs.foldlM (choose lib minimum) x = some (firstBest (outranks lib minimum) x xs) := by
  have hnull : ∀ {v : Value D X}, orderClass v ≠ none → v.isNull = false := by
    intro v hv
    cases v with
    | nul => exact absurd rfl hv
    | _ => rfl
  induction xs generalizing x with
  | nil => rfl
  | cons y xs ih =>
    have hy : orderClass y = orderClass x := hclass y mem_cons_self
    have hrest : ∀ z ∈ xs, orderClass z = orderClass x := fun z hz =>
      hclass z (mem_cons_of_mem y hz)
    obtain ⟨order, heq, hneg, hpos⟩ := exists_compareValues hlib hy (hy ▸ hne)
    have htakes : (if minimum then order < 0 else 0 < order) ↔
        outranks lib minimum y x = true := by
      cases minimum with
      | true => exact hneg
      | false => exact hpos
    have hynull := hnull (hy ▸ hne : orderClass y ≠ none)
    rw [foldlM_cons, firstBest_cons, choose, hynull, hnull hne, heq, Option.map_some]
    by_cases htake : outranks lib minimum y x = true
    · simp only [Bool.false_eq_true, if_false, if_pos (htakes.mpr htake), if_pos htake]
      exact ih (fun z hz => (hrest z hz).trans hy.symm) (hy ▸ hne)
    · simp only [Bool.false_eq_true, if_false, if_neg (mt htakes.mp htake), if_neg htake]
      exact ih hrest hne

theorem orderClass_of_foldlM {minimum : Bool} {x c : Value D X} {xs : List (Value D X)}
    (hnull : ∀ y ∈ x :: xs, y.isNull = false)
    (h : xs.foldlM (choose lib minimum) x = some c) :
    ∀ y ∈ xs, orderClass y = orderClass x ∧ orderClass x ≠ none := by
  induction xs generalizing x with
  | nil => exact fun y hy => by cases hy
  | cons z xs ih =>
    have hx : x.isNull = false := hnull x mem_cons_self
    have hz : z.isNull = false := hnull z (mem_cons_of_mem x mem_cons_self)
    rw [foldlM_cons, choose, hz, hx] at h
    obtain ⟨next, hnext, hrest⟩ := Option.bind_eq_some_iff.mp h
    obtain ⟨order, horder, hnext⟩ := Option.map_eq_some_iff.mp hnext
    obtain ⟨hclass, hne⟩ := orderClass_of_compareValues horder
    have hsame : orderClass next = orderClass x ∧ next.isNull = false := by
      have hor : next = z ∨ next = x := hnext ▸ ite_eq_or_eq _ _ _
      rcases hor with rfl | rfl
      · exact ⟨hclass, hz⟩
      · exact ⟨rfl, hx⟩
    have hall := ih (fun y hy => ?_) hrest
    · intro y hy
      rcases mem_cons.mp hy with rfl | hy
      · exact ⟨hclass, hclass ▸ hne⟩
      · rw [← hsame.1]
        exact hall y hy
    · rcases mem_cons.mp hy with rfl | hy
      · exact hsame.2
      · exact hnull y (mem_cons_of_mem x (mem_cons_of_mem z hy))

/-! ## 3. The slot of the group

`groupCell_class`: of values of one class (numbers, texts or booleans) GROUP BY takes the first
of the best.

`class_of_groupCell`: it throws on values of two classes, and on values that are no scalars.

`built_iff`: it gives the chosen value back exactly if its column keeps it (`Kept`). -/

/-- The slot of a chosen value in the column of the argument. -/
def built (lib : ValueLib D X) (type : ArrowType) (value : Value D X) :
    Option (Aggregate.Cell D X) :=
  (buildValueColumn lib [value] (preservedType type)).bind fun column => column.cells.head?

theorem consume_single (call : AggregateCall) (a : Accumulator D X) (values : List (Value D X)) :
    a.consume lib call (values.map fun v => (0, v)) =
      (values.foldlM (GroupState.consume lib call) (a.groups 0)).map fun g =>
        { a with
          floating := a.floating || values.any call.floats
          groups := Function.update a.groups 0 g } := by
  induction values generalizing a with
  | nil =>
    change some a = some { a with
      floating := a.floating || false
      groups := Function.update a.groups 0 (a.groups 0) }
    rw [Function.update_eq_self, Bool.or_false]
  | cons v values ih =>
    have hcons : a.consume lib call ((v :: values).map fun v => (0, v)) =
        (a.consumeRow lib call (0, v)).bind fun a =>
          a.consume lib call (values.map fun v => (0, v)) := rfl
    rw [hcons, foldlM_cons, Accumulator.consumeRow]
    cases (a.groups 0).consume lib call v with
    | none => rfl
    | some g =>
      rw [Option.map_some, Option.bind_some, ih]
      simp only [Function.update_self, Function.update_idem, any_cons, Bool.or_assoc]
      rfl

/-- The slot of the group at the end. -/
def finishedCell (lib : ValueLib D X) (f : SharedAggregate) (type : ArrowType) (floating : Bool)
    (g : GroupState D X) : Option (Aggregate.Cell D X) :=
  match f with
  | .countAll | .count => some (.int g.count)
  | .sum => some (sumCell lib false floating g)
  | .choice _ => built lib type g.chosen

theorem groupCell_eq (f : SharedAggregate) (p : Partition lib) :
    groupCell f p = (p.values.foldlM (GroupState.consume lib f.call) (.empty lib)).bind
      (finishedCell lib f p.type (p.values.any f.call.floats)) := by
  rw [groupCell, consume_single]
  change ((p.values.foldlM (GroupState.consume lib f.call) (.empty lib)).map _).bind _ = _
  rw [Option.bind_map]
  refine congrArg (Option.bind _) (funext fun g => ?_)
  cases f with
  | countAll => rfl
  | count => rfl
  | sum => rfl
  | choice minimum => cases minimum <;> rfl

theorem filter_values (p : Partition lib) :
    (p.values.filter fun v => !v.isNull) = (nonNull p.rows).map Stored.read := by
  have hpred : (fun v : Value D X => !v.isNull) ∘ Stored.read = fun s : Stored D X => !s.isNull :=
    funext fun s => congrArg not (isNull_read s)
  rw [Partition.values, filter_map, hpred]
  rfl

theorem groupCell_choice (minimum : Bool) (p : Partition lib) :
    groupCell (.choice minimum) p =
      (((nonNull p.rows).map Stored.read).foldlM (choose lib minimum) .nul).bind
        (built lib p.type) := by
  rw [groupCell_eq, foldlM_consume_choice, foldlM_choose_filter, filter_values, Option.bind_map]
  rfl

theorem built_nul (type : ArrowType) : built lib type .nul = some .null := by
  cases type with
  | integer storage logical => cases storage <;> rfl
  | _ => rfl

variable {xs : List (Stored D X)}

theorem foldlM_choose_first (minimum : Bool) {x : Stored D X} (hx : x.read.isNull = false) :
    (((x :: xs).map Stored.read).foldlM (choose lib minimum) .nul) =
      (xs.map Stored.read).foldlM (choose lib minimum) x.read := by
  rw [map_cons, foldlM_cons, choose, hx]
  rfl

theorem firstBest_map {α β : Type} {better : α → α → Bool} (g : β → α) (x : β) (xs : List β) :
    firstBest better (g x) (xs.map g) =
      g (firstBest (fun a b => better (g a) (g b)) x xs) := by
  induction xs generalizing x with
  | nil => rfl
  | cons y xs ih =>
    rw [map_cons, firstBest_cons, firstBest_cons]
    split
    · exact ih y
    · exact ih x

variable {p : Partition lib}

theorem groupCell_nulls (minimum : Bool) (hrows : nonNull p.rows = []) :
    groupCell (.choice minimum) p = some .null := by
  rw [groupCell_choice, hrows]
  exact built_nul p.type

theorem groupCell_class (hlib : OrderedDoubles lib) (minimum : Bool) {x : Stored D X}
    (hrows : nonNull p.rows = x :: xs)
    (hclass : ∀ y ∈ xs, orderClass y.read = orderClass x.read ∧ orderClass x.read ≠ none) :
    groupCell (.choice minimum) p =
      built lib p.type
        (firstBest (fun a b => outranks lib minimum a.read b.read) x xs).read := by
  have hx : x.read.isNull = false := (mem_nonNull.mp (hrows ▸ mem_cons_self)).2
  rw [groupCell_choice, hrows, foldlM_choose_first minimum hx]
  cases xs with
  | nil => rfl
  | cons y ys =>
    have hall : ∀ v ∈ (y :: ys).map Stored.read, orderClass v = orderClass x.read := by
      intro v hv
      obtain ⟨z, hz, rfl⟩ := mem_map.mp hv
      exact (hclass z hz).1
    rw [foldlM_choose hlib minimum hall (hclass y mem_cons_self).2, firstBest_map]
    rfl

theorem class_of_groupCell {minimum : Bool} {x : Stored D X} (hrows : nonNull p.rows = x :: xs)
    {c : Aggregate.Cell D X} (h : groupCell (.choice minimum) p = some c) :
    ∀ y ∈ xs, orderClass y.read = orderClass x.read ∧ orderClass x.read ≠ none := by
  have hnull : ∀ y ∈ x :: xs, y.read.isNull = false := fun y hy =>
    (mem_nonNull.mp (hrows ▸ hy)).2
  rw [groupCell_choice, hrows, foldlM_choose_first minimum (hnull x mem_cons_self)] at h
  obtain ⟨chosen, hchosen, -⟩ := Option.bind_eq_some_iff.mp h
  have hall := orderClass_of_foldlM (fun v hv => ?_) hchosen
  · exact fun y hy => hall y.read (mem_map_of_mem hy)
  · rcases mem_cons.mp hv with rfl | hv
    · exact hnull x mem_cons_self
    · obtain ⟨y, hy, rfl⟩ := mem_map.mp hv
      exact hnull y (mem_cons_of_mem x hy)

/-- The slot that holds a read value. -/
def readCell : Value D X → Aggregate.Cell D X
  | .nul => .null
  | .int n => .int n
  | .double d => .real d
  | .bool b => .bool b
  | .string text => .text text
  | .other x => .other x

theorem bmod_unsigned {n : Nat} (h : n < 2 ^ 64) :
    (n : Int).bmod (2 ^ 64) = if n < 2 ^ 63 then (n : Int) else n - 2 ^ 64 := by
  rw [Int.bmod_def]
  split
  · split
    · omega
    · omega
  · split
    · omega
    · omega

theorem bmod_unsigned_eq_iff {n : Nat} (h : n < 2 ^ 64) :
    (n : Int).bmod (2 ^ 64) = n ↔ n < 2 ^ 63 := by
  rw [bmod_unsigned h]
  split
  · rename_i hlt
    exact iff_of_true rfl hlt
  · rename_i hge
    exact iff_of_false (by omega) hge

theorem bmod_unsigned_nonneg_iff {n : Nat} (h : n < 2 ^ 64) :
    0 ≤ (n : Int).bmod (2 ^ 64) ↔ n < 2 ^ 63 := by
  rw [bmod_unsigned h]
  split
  · rename_i hlt
    exact iff_of_true (by omega) hlt
  · rename_i hge
    exact iff_of_false (by omega) hge

variable {type : ArrowType}

theorem built_typed (h : preservedType type = some type) (value : Value D X) :
    built lib type value = typedCell lib type value := by
  rw [built, h]
  change (([value].mapM (typedCell lib type)).map (Aggregate.Column.mk type)).bind _ = _
  rw [mapM_cons, mapM_nil]
  cases typedCell lib type value <;> rfl

/-- **GROUP BY gives back what it keeps.** -/
theorem built_iff {s : Stored D X} (hfits : Fits lib type s) (hrange : s.InRange)
    (hnull : s.isNull = false) :
    built lib type s.read = some s.cell ↔ Kept lib type s := by
  cases s with
  | nul => cases hnull
  | int n =>
    refine iff_of_true ?_ trivial
    cases type with
    | integer storage logical =>
      cases storage with
      | uint64 => exact absurd rfl hfits.1
      | _ =>
        change built lib (.integer _ logical) (.int n) = some (.int n)
        rw [built_typed rfl, typedCell, if_pos hfits.2]
    | union => rfl
    | _ => cases hfits
  | uint64 n =>
    change built lib type (.int ((n : Int).bmod (2 ^ 64))) = some (.int n) ↔ n < 2 ^ 63
    cases type with
    | integer storage logical =>
      cases storage with
      | uint64 =>
        rw [built_typed rfl, typedCell, IntegerStorage.holds]
        by_cases hlt : n < 2 ^ 63
        · rw [(bmod_unsigned_eq_iff hrange).mpr hlt, if_pos (decide_eq_true (Int.natCast_nonneg n))]
          exact iff_of_true rfl hlt
        · rw [if_neg (by rw [decide_eq_true_iff, bmod_unsigned_nonneg_iff hrange]; exact hlt)]
          exact iff_of_false (fun h => by cases h) hlt
      | _ => exact absurd hfits id
    | union =>
      change some (Aggregate.Cell.int ((n : Int).bmod (2 ^ 64))) = some (.int n) ↔ _
      rw [Option.some_inj, Aggregate.Cell.int.injEq, bmod_unsigned_eq_iff hrange]
    | _ => cases hfits
  | double d =>
    refine iff_of_true ?_ trivial
    cases type with
    | union => rfl
    | double => rfl
    | float => exact congrArg (fun e => some (Aggregate.Cell.real e)) hfits
    | integer storage logical => cases storage <;> cases hfits
    | _ => cases hfits
  | bool b =>
    refine iff_of_true ?_ trivial
    cases type with
    | union => rfl
    | bool => rfl
    | integer storage logical => cases storage <;> cases hfits
    | _ => cases hfits
  | string text =>
    cases type with
    | union => exact iff_of_true rfl trivial
    | string => exact iff_of_true rfl trivial
    | binary => exact iff_of_true rfl trivial
    | largeBinary => exact iff_of_true rfl trivial
    | largeString =>
      change built lib .largeString (.string text) = some (.text text) ↔ lib.utf8 text = true
      rw [built_typed rfl, typedCell]
      split
      · rename_i hutf
        exact iff_of_true rfl hutf
      · rename_i hutf
        exact iff_of_false (fun h => by cases h) hutf
    | integer storage logical => cases storage <;> cases hfits
    | _ => cases hfits
  | other x =>
    cases type with
    | union => exact iff_of_false (fun h => by cases h) id
    | other id =>
      change built lib (.other id) (.other x) = some (.other x) ↔ lib.accepts id x = true
      rw [built_typed rfl, typedCell]
      split
      · rename_i haccepts
        exact iff_of_true rfl haccepts
      · rename_i haccepts
        exact iff_of_false (fun h => by cases h) haccepts
    | integer storage logical => cases storage <;> cases hfits
    | _ => cases hfits

theorem cell_of_kept {s : Stored D X} (hrange : s.InRange) (hkept : Kept lib type s) :
    s.cell = readCell s.read := by
  cases s with
  | uint64 n =>
    have hread : (n : Int).bmod (2 ^ 64) = n := (bmod_unsigned_eq_iff hrange).mpr hkept
    exact congrArg Aggregate.Cell.int hread.symm
  | _ => rfl

theorem built_read {s : Stored D X} (hfits : Fits lib type s) (hrange : s.InRange)
    (hnull : s.isNull = false) (hother : s.read.isOther = false) {c : Aggregate.Cell D X}
    (h : built lib type s.read = some c) : c = readCell s.read := by
  by_cases hkept : Kept lib type s
  · rw [(built_iff hfits hrange hnull).mpr hkept] at h
    rw [← Option.some.inj h]
    exact cell_of_kept hrange hkept
  · cases s with
    | nul => cases hnull
    | other x => cases hother
    | uint64 n =>
      cases type with
      | union => exact (Option.some.inj h).symm
      | integer storage logical =>
        cases storage with
        | uint64 =>
          rw [Stored.read, built_typed rfl, typedCell] at h
          split at h
          · exact (Option.some.inj h).symm
          · cases h
        | _ => exact absurd hfits id
      | _ => cases hfits
    | string text =>
      cases type with
      | largeString =>
        rw [Stored.read, built_typed rfl, typedCell] at h
        split at h
        · exact (Option.some.inj h).symm
        · cases h
      | _ => exact absurd trivial hkept
    | _ => exact absurd trivial hkept

theorem kept_of_exchanged {s t : Stored D X} (hs : Fits lib type s ∧ s.InRange)
    (ht : Fits lib type t ∧ t.InRange) (hsnull : s.isNull = false) (htnull : t.isNull = false)
    (hsother : s.read.isOther = false) (htother : t.read.isOther = false)
    (hst : built lib type s.read = some t.cell) (hts : built lib type t.read = some s.cell) :
    Kept lib type s ∧ t.cell = s.cell := by
  have htcell := built_read hs.1 hs.2 hsnull hsother hst
  have hscell := built_read ht.1 ht.2 htnull htother hts
  have heq : t.cell = s.cell := by
    cases s with
    | uint64 n =>
      have hn : n < 2 ^ 64 := hs.2
      cases t with
      | int k =>
        have hk : (n : Int) = k := Aggregate.Cell.int.inj hscell
        exact congrArg Aggregate.Cell.int hk.symm
      | uint64 k =>
        have hk : k < 2 ^ 64 := ht.2
        have hnk : (k : Int) = (n : Int).bmod (2 ^ 64) := Aggregate.Cell.int.inj htcell
        rw [bmod_unsigned hn] at hnk
        refine congrArg Aggregate.Cell.int ?_
        split at hnk
        · exact hnk
        · omega
      | _ => cases htcell
    | _ => exact htcell
  exact ⟨(built_iff hs.1 hs.2 hsnull).mp (heq ▸ hst), heq⟩

/-! ## 4. Counts and sums -/

section Sums

/-- The number that a sum reads. -/
def integerOf : Value D X → Int
  | .int n => n
  | _ => 0

variable {p : Partition lib}

theorem length_values : p.values.length = p.rows.length := length_map _

theorem foldlM_count (call : AggregateCall) (hcall : call.function = .count)
    (hdistinct : call.distinct = false) (values : List (Value D X)) (g : GroupState D X) :
    values.foldlM (GroupState.consume lib call) g =
      some { g with
        count := g.count + values.countP fun v => !call.hasArgument || !v.isNull } := by
  induction values generalizing g with
  | nil => rfl
  | cons v values ih =>
    have hstep : g.consume lib call v = some { g with
        count := g.count + if (!call.hasArgument || !v.isNull) = true then 1 else 0 } := by
      rw [GroupState.consume, hcall]
      change some (g.countValue lib call v) = _
      rw [GroupState.countValue, hdistinct]
      cases call.hasArgument <;> cases v.isNull <;> rfl
    rw [foldlM_cons, hstep]
    refine (ih _).trans (congrArg some ?_)
    rw [countP_cons, Nat.add_comm (values.countP _), Nat.add_assoc]

theorem foldlM_sum (values : List (Value D X))
    (hints : ∀ v ∈ values, v.isNull = true ∨ v.isInt = true) {g : GroupState D X} {total : Int}
    (htotal : g.integerSum = total.bmod (2 ^ 64)) :
    ∃ g', values.foldlM (GroupState.consume lib SharedAggregate.sum.call) g = some g' ∧
      g'.count = g.count + (values.countP fun v => !v.isNull) ∧
      g'.integerSum = (total + (values.map integerOf).sum).bmod (2 ^ 64) := by
  induction values generalizing g total with
  | nil => exact ⟨g, rfl, rfl, by simpa using htotal⟩
  | cons v values ih =>
    have hrest := fun w hw => hints w (mem_cons_of_mem v hw)
    rw [foldlM_cons]
    rcases hints v mem_cons_self with hnull | hint
    · obtain rfl := eq_nul hnull
      obtain ⟨g', hg', hcount, hsum⟩ := ih hrest htotal
      refine ⟨g', hg', ?_, ?_⟩
      · rw [hcount, countP_cons]
        rfl
      · rw [hsum, map_cons, sum_cons]
        change _ = (total + (0 + _)).bmod _
        rw [Int.zero_add]
    · cases v with
      | int n =>
        have hnext : (g.integerSum + n).bmod (2 ^ 64) = (total + n).bmod (2 ^ 64) := by
          rw [htotal, Int.bmod_add_bmod]
        obtain ⟨g', hg', hcount, hsum⟩ := @ih hrest { g with
          integerSum := (g.integerSum + n).bmod (2 ^ 64)
          doubleSum := lib.add g.doubleSum (lib.ofInt n)
          count := g.count + 1 } _ hnext
        refine ⟨g', hg', ?_, ?_⟩
        · rw [hcount, countP_cons]
          change g.count + 1 + _ = g.count + (_ + 1)
          omega
        · rw [hsum, map_cons, sum_cons]
          change _ = (total + (n + _)).bmod _
          rw [Int.add_assoc]
      | _ => cases hint

theorem group_countAll : groupCell .countAll p = some (.int p.rows.length) := by
  rw [groupCell_eq, foldlM_count _ rfl rfl]
  change some (Aggregate.Cell.int ((0 + p.values.countP fun _ => true : Nat) : Int)) = _
  rw [countP_true, length_values, Nat.zero_add]

theorem group_count : groupCell .count p =
    some (.int (p.values.countP fun v => !v.isNull)) := by
  rw [groupCell_eq, foldlM_count _ rfl rfl]
  change some (Aggregate.Cell.int ((0 + p.values.countP fun v => !v.isNull : Nat) : Int)) = _
  rw [Nat.zero_add]

theorem group_sum {storage : IntegerStorage} (htype : p.type = .integer storage 0) :
    groupCell .sum p = some (if (p.values.countP fun v => !v.isNull) = 0 then .null
      else .int ((p.values.map integerOf).sum.bmod (2 ^ 64))) := by
  have htyped := argument_typed (fun _ => false) p (by rw [htype]; rfl)
  have hfloating : p.values.any (SharedAggregate.sum.call).floats = false := by
    rw [any_eq_false]
    intro v hv
    rcases htyped v hv with hnull | hint
    · rw [eq_nul hnull]
      exact Bool.false_ne_true
    · cases v with
      | int n => exact Bool.false_ne_true
      | _ => cases hint
  obtain ⟨g, hg, hcount, hsum⟩ := @foldlM_sum _ _ lib p.values htyped (.empty lib) 0 rfl
  have hcounted : g.count = p.values.countP fun v => !v.isNull := hcount.trans (Nat.zero_add _)
  rw [Int.zero_add] at hsum
  rw [groupCell_eq, hg, Option.bind_some, hfloating]
  change some (sumCell lib false false g) = _
  rw [sumCell, hcounted, hsum]
  rfl

end Sums

end MldpDriver.Query.Window
