/-
# MIN and MAX over a whole partition and in GROUP BY

A window call whose frame is the whole partition and the same aggregate in GROUP BY read the same
rows through the same `ColumnReader`.  Both count and sum alike.  MIN and MAX do not:

  * a window orders values of different kinds by the kind, GROUP BY throws;
  * of values neither of which is better a window takes the last, GROUP BY the first: with a NaN,
    nothing is better than anything;
  * a window takes the value from the column, GROUP BY builds a column from what the reader read,
    and the reader reads an unsigned value from 2^63 on as a negative one.
-/
import MldpDriver.Query.WholeGroup

namespace MldpDriver.Query.Window

open List
open Aggregate (Value ValueLib ArrowType IntegerStorage compareValues)
open Lib (Binary64)
open Lib.BestOf

variable {D X : Type} {lib : ValueLib D X}

/-! ## 1. Agreement -/

/-- Whatever the order of the rows in the window and in GROUP BY, each row has the value of the
group, or both throw. -/
def Agrees (timed : Nat → Bool) (scale : Int → D → D) (f : SharedAggregate) (p : Partition lib) :
    Prop :=
  ∀ w g : Partition lib, w.type = p.type → g.type = p.type → w.rows.Perm p.rows →
    g.rows.Perm p.rows →
      windowColumn timed scale f w = (groupCell f g).map (List.replicate p.rows.length)

/-- Is the value better, as GROUP BY compares? -/
def Outranks (lib : ValueLib D X) (minimum : Bool) (a b : Value D X) : Prop :=
  ∃ order, compareValues lib a b = some order ∧ if minimum then order < 0 else 0 < order

/-- When MIN and MAX agree: there is no value; or two of which one is no scalar, which both refuse;
or there is one that GROUP BY keeps and that outranks every value that is not the same. -/
def Settled (lib : ValueLib D X) (minimum : Bool) (type : ArrowType) (rows : List (Stored D X)) :
    Prop :=
  nonNull rows = [] ∨
    (2 ≤ (nonNull rows).length ∧ ∃ s ∈ nonNull rows, s.read.isOther = true) ∨
      ∃ s ∈ nonNull rows, Kept lib type s ∧
        ∀ t ∈ nonNull rows, t.cell = s.cell ∨ Outranks lib minimum s.read t.read


/-! ## 2. Counts and sums of a window -/

section Sums

variable {timed : Nat → Bool} {scale : Int → D → D} {p : Partition lib}

theorem map_valueAt (values : List (Value D X)) :
    (between 0 values.length).map (valueAt values) = values := by
  rw [between, Nat.sub_zero, ← range_eq_range']
  refine ext_getElem (by simp) fun i h _ => ?_
  have hi : i < values.length := by simpa using h
  simp [valueAt, hi]

theorem sum_perm {xs ys : List Int} (h : xs.Perm ys) : xs.sum = ys.sum := by
  induction h with
  | nil => rfl
  | cons x _ ih => rw [sum_cons, sum_cons, ih]
  | swap x y xs => simp only [sum_cons]; omega
  | trans _ _ ih ih' => exact ih.trans ih'

theorem windowColumn_sums {f : SharedAggregate} {function : SumFunction}
    {argument : Option (Argument D X)} (hover : OverIntegers function argument)
    (hf : windowColumn timed scale f p =
      slidingSum lib scale function argument (wholeFrames p.rows.length)) :
    windowColumn timed scale f p = some (List.replicate p.rows.length
      (recomputeSum lib function argument (wholeFrame p.rows.length))) := by
  rw [hf, slidingSum_eq hover (monotone_wholeFrames _), wholeFrames, map_replicate]

theorem window_countAll : windowColumn timed scale .countAll p =
    some (List.replicate p.rows.length (.int p.rows.length)) := by
  rw [windowColumn_sums (.inl rfl) rfl]
  refine congrArg some (congrArg (List.replicate _) (congrArg Aggregate.Cell.int ?_))
  change ((between 0 p.rows.length).countP (fun _ => true) : Int) = _
  rw [countP_true, between, length_range', Nat.sub_zero]

theorem countP_argument :
    (between 0 p.rows.length).countP (counts (some (p.argument timed))) =
      p.values.countP fun v => !v.isNull := by
  have hmap := map_valueAt p.values
  rw [length_values] at hmap
  conv_rhs => rw [← hmap, countP_map]
  rfl

theorem sum_argument :
    ((between 0 p.rows.length).map (integerAt (some (p.argument timed)))).sum =
      (p.values.map integerOf).sum := by
  have hmap := map_valueAt p.values
  rw [length_values] at hmap
  conv_rhs => rw [← hmap, map_map]
  rfl

theorem window_count : windowColumn timed scale .count p =
    some (List.replicate p.rows.length (.int (p.values.countP fun v => !v.isNull))) := by
  rw [windowColumn_sums (.inl rfl) rfl, ← countP_argument]
  rfl

theorem window_sum {storage : IntegerStorage} (htype : p.type = .integer storage 0) :
    windowColumn timed scale .sum p = some (List.replicate p.rows.length
      (if (p.values.countP fun v => !v.isNull) = 0 then .null
        else .int ((p.values.map integerOf).sum.bmod (2 ^ 64)))) := by
  have hover : OverIntegers .sum (some (p.argument timed)) := by
    refine .inr ?_
    change integerType timed p.type = true
    rw [htype]
    rfl
  rw [windowColumn_sums hover rfl, ← countP_argument, ← sum_argument]
  rfl

end Sums

/-! ## 3. When they agree -/

section Main

variable {timed : Nat → Bool} {scale : Int → D → D} {minimum : Bool} {p : Partition lib}

theorem perm_nonNull {rows rows' : List (Stored D X)} (h : rows.Perm rows') :
    (nonNull rows).Perm (nonNull rows') := h.filter _

theorem outranks_iff (hlib : OrderedDoubles lib) {a b : Value D X}
    (hclass : orderClass a = orderClass b) (hne : orderClass a ≠ none) :
    Outranks lib minimum a b ↔ outranks lib minimum a b = true := by
  obtain ⟨order, heq, hneg, hpos⟩ := exists_compareValues hlib hclass hne
  constructor
  · rintro ⟨order', heq', hsign⟩
    obtain rfl := Option.some.inj (heq.symm.trans heq')
    cases minimum with
    | true => exact hneg.mp hsign
    | false => exact hpos.mp hsign
  · intro hbetter
    refine ⟨order, heq, ?_⟩
    cases minimum with
    | true => exact hneg.mpr hbetter
    | false => exact hpos.mpr hbetter

theorem outranks_asymm (hlib : OrderedDoubles lib) {a b : Value D X}
    (h : outranks lib minimum a b = true) : outranks lib minimum b a = false := by
  by_contra hba
  rw [Bool.not_eq_false] at hba
  have hself := outranks_trans hlib a b a h hba
  rw [outranks_irrefl hlib] at hself
  cases hself

theorem orderClass_ne_none {v : Value D X} (hnull : v.isNull = false) (hother : v.isOther = false) :
    orderClass v ≠ none := by
  cases v with
  | nul => cases hnull
  | other x => cases hother
  | _ => exact Option.some_ne_none _

theorem orderClass_other {v : Value D X} (hother : v.isOther = true) : orderClass v = none := by
  cases v with
  | other x => rfl
  | _ => cases hother

variable {s : Stored D X}

theorem groupCell_refused {p : Partition lib} (hlength : 2 ≤ (nonNull p.rows).length)
    (hs : s ∈ nonNull p.rows) (hother : s.read.isOther = true) :
    groupCell (.choice minimum) p = none := by
  rw [Option.eq_none_iff_forall_ne_some]
  intro c hc
  cases hrows : nonNull p.rows with
  | nil =>
    rw [hrows] at hs
    cases hs
  | cons x xs =>
    have hclass := class_of_groupCell hrows hc
    rw [hrows] at hs hlength
    cases xs with
    | nil => exact absurd hlength (Nat.not_le.mpr Nat.one_lt_two)
    | cons y ys =>
      have hne := (hclass y mem_cons_self).2
      rcases mem_cons.mp hs with rfl | hs
      · exact hne (orderClass_other hother)
      · exact hne ((hclass s hs).1 ▸ orderClass_other hother)

variable {type : ArrowType}
variable {s t : Stored D X}

theorem read_eq_of_cell_eq (hs : s.InRange) (ht : t.InRange) (hkept : Kept lib type s)
    (hcell : t.cell = s.cell) : t.read = s.read := by
  cases s with
  | uint64 n =>
    have hread : (n : Int).bmod (2 ^ 64) = n := (bmod_unsigned_eq_iff hs).mpr hkept
    cases t with
    | int k => exact congrArg Value.int ((Aggregate.Cell.int.inj hcell).trans hread.symm)
    | uint64 k =>
      have hk : (k : Int) = n := Aggregate.Cell.int.inj hcell
      exact congrArg (fun m : Int => Value.int (m.bmod (2 ^ 64))) hk
    | _ => cases hcell
  | int n =>
    cases t with
    | int k => exact congrArg Value.int (Aggregate.Cell.int.inj hcell)
    | uint64 k =>
      have hk : (k : Int) = n := Aggregate.Cell.int.inj hcell
      have hlt : k < 2 ^ 63 := by
        have hn := hs.2
        omega
      exact congrArg Value.int (((bmod_unsigned_eq_iff ht).mpr hlt).trans hk)
    | _ => cases hcell
  | _ => cases t <;> first | rfl | (cases hcell; rfl) | cases hcell

theorem outranks_of_Outranks (hlib : OrderedDoubles lib) {a b : Value D X}
    (h : Outranks lib minimum a b) : outranks lib minimum a b = true := by
  obtain ⟨order, heq, -⟩ := id h
  obtain ⟨hclass, hne⟩ := orderClass_of_compareValues heq
  exact (outranks_iff hlib hclass hne).mp h

theorem Partition.fits_of_perm {w : Partition lib} (hw : w.rows.Perm p.rows)
    (hs : s ∈ nonNull w.rows) :
    (Fits lib p.type s ∧ s.InRange) ∧ s.isNull = false := by
  have hmem := mem_nonNull.mp hs
  exact ⟨p.fits s (hw.mem_iff.mp hmem.1), (isNull_read s) ▸ hmem.2⟩

/-- The best of rows that agree on it. -/
structure Best (lib : ValueLib D X) (minimum : Bool) (type : ArrowType)
    (values : List (Stored D X)) (s : Stored D X) : Prop where
  mem : s ∈ values
  fits : ∀ t ∈ values, (Fits lib type t ∧ t.InRange) ∧ t.isNull = false
  kept : Kept lib type s
  others : ∀ t ∈ values, t.cell = s.cell ∨ Outranks lib minimum s.read t.read

theorem Best.of_perm {values values' : List (Stored D X)} (h : Best lib minimum type values s)
    (hperm : values'.Perm values) :
    Best lib minimum type values' s where
  mem := hperm.mem_iff.mpr h.mem
  fits t ht := h.fits t (hperm.mem_iff.mp ht)
  kept := h.kept
  others t ht := h.others t (hperm.mem_iff.mp ht)

variable {values : List (Stored D X)}

theorem Best.read_eq (h : Best lib minimum type values s) (ht : t ∈ values)
    (hcell : t.cell = s.cell) :
    t.read = s.read :=
  read_eq_of_cell_eq (h.fits s h.mem).1.2 (h.fits t ht).1.2 h.kept hcell

theorem Best.separated (hlib : OrderedDoubles lib) (h : Best lib minimum type values s) :
    Separated (fun a b => outranks lib minimum a.read b.read)
      (fun t => t.read = s.read) values := by
  intro a _ b hb hwin hlose
  have hcell : b.cell ≠ s.cell := fun hcell => hlose (h.read_eq hb hcell)
  have hbetter := outranks_of_Outranks hlib ((h.others b hb).resolve_left hcell)
  change outranks lib minimum a.read b.read = true ∧ outranks lib minimum b.read a.read = false
  rw [hwin]
  exact ⟨hbetter, outranks_asymm hlib hbetter⟩

theorem Best.class_eq (h : Best lib minimum type values s) (ht : t ∈ values) :
    orderClass t.read = orderClass s.read := by
  rcases h.others t ht with hcell | ⟨order, heq, -⟩
  · rw [h.read_eq ht hcell]
  · exact (orderClass_of_compareValues heq).1.symm

theorem Best.window (hlib : OrderedDoubles lib) {w : Partition lib}
    (h : Best lib minimum type (nonNull w.rows) s)
    (hplain : (nonNull w.rows).length = 1 ∨ ∀ t ∈ nonNull w.rows, t.read.isOther = false) :
    windowColumn timed scale (.choice minimum) w = some (List.replicate w.rows.length s.cell) := by
  rcases hplain with hone | hscalars
  · obtain ⟨x, hx⟩ := length_eq_one_iff.mp hone
    have hs := h.mem
    rw [hx, mem_singleton] at hs
    rw [windowColumn_single timed scale hx, hs]
  · cases hrows : nonNull w.rows with
    | nil =>
      have hs := h.mem
      rw [hrows] at hs
      cases hs
    | cons x xs =>
      rw [hrows] at h hscalars
      rw [windowColumn_scalars hlib timed scale hrows hscalars]
      have hwin := lastBest_wins (h.separated hlib) ⟨s, h.mem, rfl⟩
      have hmem : lastBest (fun a b => outranks lib minimum a.read b.read) x xs ∈ x :: xs :=
        lastBest_mem x xs
      rcases h.others _ hmem with hcell | hself
      · rw [hcell]
      · have hbetter := outranks_of_Outranks hlib hself
        rw [hwin, outranks_irrefl hlib] at hbetter
        cases hbetter

theorem Best.group (hlib : OrderedDoubles lib) {g : Partition lib}
    (h : Best lib minimum g.type (nonNull g.rows) s)
    (hplain : (nonNull g.rows).length = 1 ∨ ∀ t ∈ nonNull g.rows, t.read.isOther = false) :
    groupCell (.choice minimum) g = some s.cell := by
  cases hrows : nonNull g.rows with
  | nil =>
    have hs := h.mem
    rw [hrows] at hs
    cases hs
  | cons x xs =>
    rw [hrows] at h hplain
    have hclass : ∀ y ∈ xs, orderClass y.read = orderClass x.read ∧ orderClass x.read ≠ none := by
      intro y hy
      refine ⟨(h.class_eq (mem_cons_of_mem x hy)).trans
        (h.class_eq mem_cons_self).symm, ?_⟩
      rcases hplain with hone | hscalars
      · have hnil : xs = [] := length_eq_zero_iff.mp (Nat.succ.inj hone)
        rw [hnil] at hy
        cases hy
      · have hx := mem_nonNull.mp (hrows ▸ mem_cons_self : x ∈ nonNull g.rows)
        exact orderClass_ne_none hx.2 (hscalars x mem_cons_self)
    rw [groupCell_class hlib minimum hrows hclass]
    have hwin := firstBest_wins (h.separated hlib) ⟨s, h.mem, rfl⟩
    have hs := h.fits s h.mem
    rw [hwin]
    exact (built_iff hs.1.1 hs.1.2 hs.2).mpr h.kept

theorem agrees_of_settled (hlib : OrderedDoubles lib)
    (h : Settled lib minimum p.type p.rows) : Agrees timed scale (.choice minimum) p := by
  intro w g _ hgtype hw hg
  have hlength : w.rows.length = p.rows.length := hw.length_eq
  have hwrows := perm_nonNull hw
  have hgrows := perm_nonNull hg
  by_cases hrefused : 2 ≤ (nonNull p.rows).length ∧ ∃ s ∈ nonNull p.rows, s.read.isOther = true
  · obtain ⟨htwo, s, hs, hother⟩ := hrefused
    rw [windowColumn_refused timed scale (hwrows.length_eq ▸ htwo) (hwrows.mem_iff.mpr hs) hother,
      groupCell_refused (hgrows.length_eq ▸ htwo) (hgrows.mem_iff.mpr hs) hother]
    rfl
  · rcases h with hnil | htwo | ⟨s, hs, hkept, hbest⟩
    · rw [hnil] at hwrows hgrows
      rw [windowColumn_nulls timed scale hwrows.eq_nil, groupCell_nulls minimum hgrows.eq_nil,
        hlength]
      rfl
    · exact absurd htwo hrefused
    · have hplain : ∀ values : List (Stored D X), values.Perm (nonNull p.rows) →
          values.length = 1 ∨ ∀ t ∈ values, t.read.isOther = false := by
        intro values hperm
        by_cases hone : values.length = 1
        · exact .inl hone
        · refine .inr fun t ht => ?_
          have hpos := length_pos_of_mem ht
          have htwo : 2 ≤ (nonNull p.rows).length := by
            rw [← hperm.length_eq]
            omega
          by_contra hother
          exact hrefused ⟨htwo, t, hperm.mem_iff.mp ht, Bool.not_eq_false _ ▸ hother⟩
      have hp : Best lib minimum p.type (nonNull p.rows) s :=
        ⟨hs, fun t ht => Partition.fits_of_perm (List.Perm.refl _) ht, hkept, hbest⟩
      have hgbest := hp.of_perm hgrows
      rw [← hgtype] at hgbest
      rw [(hp.of_perm hwrows).window hlib (hplain _ hwrows), hgbest.group hlib (hplain _ hgrows),
        hlength]
      rfl

theorem reorder_fits (h : values.Perm (nonNull p.rows)) :
    ∀ s ∈ (p.rows.filter fun s => s.isNull) ++ values, Fits lib p.type s ∧ s.InRange := by
  intro s hs
  rcases mem_append.mp hs with hs | hs
  · exact p.fits s (mem_filter.mp hs).1
  · exact p.fits s (mem_nonNull.mp (h.mem_iff.mp hs)).1

/-- The partition with its values in another order, behind its nulls. -/
def Partition.reorder (p : Partition lib) (values : List (Stored D X))
    (h : values.Perm (nonNull p.rows)) : Partition lib :=
  ⟨p.type, (p.rows.filter fun s => s.isNull) ++ values, reorder_fits h⟩

theorem reorder_perm (h : values.Perm (nonNull p.rows)) :
    (p.reorder values h).rows.Perm p.rows :=
  (h.append_left _).trans (filter_append_perm _ p.rows)

theorem nonNull_reorder (h : values.Perm (nonNull p.rows)) :
    nonNull (p.reorder values h).rows = values := by
  have hnulls : nonNull (p.rows.filter fun s => s.isNull) = [] := by
    rw [nonNull, filter_filter, filter_eq_nil_iff]
    intro s _
    simp
  have hvalues : nonNull values = values := by
    rw [nonNull, filter_eq_self]
    intro s hs
    have hnull := (mem_nonNull.mp (h.mem_iff.mp hs)).2
    rw [← isNull_read, hnull]
    rfl
  change nonNull ((p.rows.filter fun s => s.isNull) ++ values) = values
  rw [nonNull, filter_append]
  change nonNull _ ++ nonNull values = values
  rw [hnulls, hvalues, nil_append]

theorem agrees_order (hlib : OrderedDoubles lib) (h : Agrees timed scale (.choice minimum) p)
    {x : Stored D X} {xs : List (Stored D X)} (hperm : (x :: xs).Perm (nonNull p.rows))
    (hplain : xs = [] ∨ ∀ t ∈ x :: xs, t.read.isOther = false) :
    built lib p.type (firstBest (fun a b => outranks lib minimum a.read b.read) x xs).read =
      some (lastBest (fun a b => outranks lib minimum a.read b.read) x xs).cell := by
  have hq := reorder_perm hperm
  have hrows := nonNull_reorder hperm
  have hagree := h (p.reorder _ hperm) (p.reorder _ hperm) rfl rfl hq hq
  have hwindow : windowColumn timed scale (.choice minimum) (p.reorder _ hperm) =
      some (List.replicate p.rows.length
        (lastBest (fun a b => outranks lib minimum a.read b.read) x xs).cell) := by
    rcases hplain with rfl | hscalars
    · rw [windowColumn_single timed scale hrows, hq.length_eq]
      rfl
    · rw [windowColumn_scalars hlib timed scale hrows hscalars, hq.length_eq]
  rw [hwindow] at hagree
  obtain ⟨c, hc, hcells⟩ := Option.map_eq_some_iff.mp hagree.symm
  have hpos : p.rows.length ≠ 0 := by
    have hmem := (mem_nonNull.mp (hperm.mem_iff.mp mem_cons_self)).1
    exact Nat.ne_of_gt (length_pos_of_mem hmem)
  have hcell := (replicate_right_inj hpos).mp hcells
  rw [← hcell, ← hc, groupCell_class hlib minimum hrows (class_of_groupCell hrows hc)]
  rfl

theorem read_nonNull (hs : s ∈ nonNull p.rows) :
    (Fits lib p.type s ∧ s.InRange) ∧ s.isNull = false :=
  Partition.fits_of_perm (List.Perm.refl _) hs

/-- Two values, neither of which is beaten by any: each comes first once and last once. -/
theorem exchanged_of_agrees (hlib : OrderedDoubles lib)
    (h : Agrees timed scale (.choice minimum) p) {x y : Stored D X} {others : List (Stored D X)}
    (hperm : (x :: y :: others).Perm (nonNull p.rows))
    (hscalars : ∀ t ∈ nonNull p.rows, t.read.isOther = false)
    (hx : ∀ t ∈ nonNull p.rows, outranks lib minimum t.read x.read = false)
    (hy : ∀ t ∈ nonNull p.rows, outranks lib minimum t.read y.read = false) :
    Kept lib p.type x ∧ y.cell = x.cell := by
  have hfirst : ∀ {a b : Stored D X}, (a :: (others ++ [b])).Perm (nonNull p.rows) →
      (∀ t ∈ nonNull p.rows, outranks lib minimum t.read a.read = false) →
      (∀ t ∈ nonNull p.rows, outranks lib minimum t.read b.read = false) →
      built lib p.type a.read = some b.cell := by
    intro a b hab ha hb
    have hbuilt := agrees_order hlib h hab
      (.inr fun t ht => hscalars t (hab.mem_iff.mp ht))
    have hbefore : ∀ t ∈ a :: others, t ∈ nonNull p.rows := by
      intro t ht
      refine hab.mem_iff.mp ?_
      rcases mem_cons.mp ht with rfl | ht
      · exact mem_cons_self
      · exact mem_cons_of_mem a (mem_append_left _ ht)
    rw [firstBest_first fun t ht => ha t (hab.mem_iff.mp (mem_cons_of_mem a ht)),
      lastBest_last fun t ht => hb t (hbefore t ht)] at hbuilt
    exact hbuilt
  have hxy : (x :: (others ++ [y])).Perm (nonNull p.rows) :=
    ((perm_append_singleton y others).cons x).trans hperm
  have hyx : (y :: (others ++ [x])).Perm (nonNull p.rows) :=
    ((perm_append_singleton x others).cons y).trans ((List.Perm.swap x y others).trans hperm)
  have hxmem : x ∈ nonNull p.rows := hperm.mem_iff.mp mem_cons_self
  have hymem : y ∈ nonNull p.rows :=
    hperm.mem_iff.mp (mem_cons_of_mem x mem_cons_self)
  exact kept_of_exchanged (read_nonNull hxmem).1 (read_nonNull hymem).1 (read_nonNull hxmem).2
    (read_nonNull hymem).2 (hscalars x hxmem) (hscalars y hymem) (hfirst hxy hx hy)
    (hfirst hyx hy hx)

/-- Of at least two scalars that the two agree on, one is the best. -/
theorem exists_best_of_agrees (hlib : OrderedDoubles lib)
    (h : Agrees timed scale (.choice minimum) p) (htwo : 2 ≤ (nonNull p.rows).length)
    (hscalars : ∀ t ∈ nonNull p.rows, t.read.isOther = false) :
    ∃ s ∈ nonNull p.rows, Kept lib p.type s ∧
      ∀ t ∈ nonNull p.rows, t.cell = s.cell ∨ outranks lib minimum s.read t.read = true := by
  let better : Stored D X → Stored D X → Bool := fun a b => outranks lib minimum a.read b.read
  have htrans : ∀ a b c, better a b = true → better b c = true → better a c = true := fun a b c =>
    outranks_trans hlib a.read b.read c.read
  have hirrefl : ∀ a, better a a = false := fun a => outranks_irrefl hlib a.read
  obtain ⟨z, hz⟩ := exists_mem_of_length_pos (Nat.lt_of_lt_of_le Nat.zero_lt_two htwo)
  obtain ⟨x, hxz, hx⟩ := exists_unbeaten htrans hirrefl (nonNull p.rows) z
  have hxmem : x ∈ nonNull p.rows := by
    rcases hxz with rfl | ⟨hmem, -⟩
    · exact hz
    · exact hmem
  obtain ⟨front, back, hsplit⟩ := append_of_mem hxmem
  have hperm : (x :: (front ++ back)).Perm (nonNull p.rows) := by
    rw [hsplit]
    exact perm_middle.symm
  -- an unbeaten value beside `x` is the same as `x`
  have hunbeaten : ∀ y ∈ front ++ back, (∀ t ∈ nonNull p.rows, better t y = false) →
      Kept lib p.type x ∧ y.cell = x.cell := by
    intro y hy hybest
    obtain ⟨before, after, hsplit'⟩ := append_of_mem hy
    have hperm' : (x :: y :: (before ++ after)).Perm (nonNull p.rows) := by
      refine List.Perm.trans (List.Perm.cons x ?_) hperm
      rw [hsplit']
      exact perm_middle.symm
    exact exchanged_of_agrees hlib h hperm' hscalars hx hybest
  have hothers : ∀ y ∈ front ++ back, better x y = true ∨ Kept lib p.type x ∧ y.cell = x.cell := by
    intro y hy
    obtain ⟨w, hw, hwbest⟩ := exists_unbeaten htrans hirrefl (nonNull p.rows) y
    rcases hw with rfl | ⟨hwmem, hwy⟩
    · exact .inr (hunbeaten w hy hwbest)
    · rcases mem_cons.mp (hperm.mem_iff.mpr hwmem) with rfl | hwmem'
      · exact .inl hwy
      · obtain ⟨hkept, hcell⟩ := hunbeaten w hwmem' hwbest
        have hread := read_eq_of_cell_eq (read_nonNull hxmem).1.2 (read_nonNull hwmem).1.2 hkept
          hcell
        refine .inl ?_
        change outranks lib minimum x.read y.read = true
        rw [← hread]
        exact hwy
  have hkept : Kept lib p.type x := by
    by_cases hall : ∀ y ∈ front ++ back, better x y = true
    · -- all others first, then `x`
      cases hrest : front ++ back with
      | nil =>
        have hlength := hperm.length_eq
        rw [hrest] at hlength
        rw [← hlength] at htwo
        exact absurd htwo (Nat.not_le.mpr Nat.one_lt_two)
      | cons y ys =>
        rw [hrest] at hall hperm
        have hlast : (y :: (ys ++ [x])).Perm (nonNull p.rows) :=
          ((perm_append_singleton x ys).cons y).trans ((List.Perm.swap x y ys).trans hperm)
        have hbuilt := agrees_order hlib h hlast (.inr fun t ht => hscalars t (hlast.mem_iff.mp ht))
        have hsep : Separated better (fun t => t = x) (y :: (ys ++ [x])) := by
          rintro a - t ht rfl hne
          have hmem : t ∈ a :: y :: ys := hperm.mem_iff.mpr (hlast.mem_iff.mp ht)
          have hxt := hall t ((mem_cons.mp hmem).resolve_left hne)
          exact ⟨hxt, outranks_asymm hlib hxt⟩
        have hmem : x ∈ y :: (ys ++ [x]) :=
          mem_cons_of_mem y (mem_append_right ys mem_cons_self)
        have hbefore : ∀ t ∈ y :: ys, better t x = false := fun t ht =>
          hx t (hperm.mem_iff.mp (mem_cons_of_mem x ht))
        have hfirst : firstBest better y (ys ++ [x]) = x := firstBest_wins hsep ⟨x, hmem, rfl⟩
        have hlastBest : lastBest better y (ys ++ [x]) = x := lastBest_last hbefore
        rw [hfirst, hlastBest] at hbuilt
        exact (built_iff (read_nonNull hxmem).1.1 (read_nonNull hxmem).1.2
          (read_nonNull hxmem).2).mp hbuilt
    · rw [not_forall] at hall
      obtain ⟨y, hall⟩ := hall
      rw [Classical.not_imp] at hall
      exact ((hothers y hall.1).resolve_left hall.2).1
  refine ⟨x, hxmem, hkept, fun t ht => ?_⟩
  rcases mem_cons.mp (hperm.mem_iff.mpr ht) with rfl | ht
  · exact .inl rfl
  · rcases hothers t ht with hbetter | ⟨-, hcell⟩
    · exact .inr hbetter
    · exact .inl hcell

theorem class_of_agrees (hlib : OrderedDoubles lib) (h : Agrees timed scale (.choice minimum) p)
    (hscalars : ∀ t ∈ nonNull p.rows, t.read.isOther = false) (hs : s ∈ nonNull p.rows)
    (ht : t ∈ nonNull p.rows) :
    orderClass s.read = orderClass t.read := by
  cases hrows : nonNull p.rows with
  | nil =>
    rw [hrows] at hs
    cases hs
  | cons x xs =>
    have hagree := h p p rfl rfl (List.Perm.refl _) (List.Perm.refl _)
    rw [windowColumn_scalars hlib timed scale hrows (hrows ▸ hscalars)] at hagree
    obtain ⟨c, hc, -⟩ := Option.map_eq_some_iff.mp hagree.symm
    have hclass : ∀ y ∈ x :: xs, orderClass y.read = orderClass x.read := by
      intro y hy
      rcases mem_cons.mp hy with rfl | hy
      · rfl
      · exact (class_of_groupCell hrows hc y hy).1
    rw [hrows] at hs ht
    exact (hclass s hs).trans (hclass t ht).symm

theorem settled_of_agrees (hlib : OrderedDoubles lib)
    (h : Agrees timed scale (.choice minimum) p) : Settled lib minimum p.type p.rows := by
  by_cases hnil : nonNull p.rows = []
  · exact .inl hnil
  by_cases hone : (nonNull p.rows).length = 1
  · obtain ⟨x, hx⟩ := length_eq_one_iff.mp hone
    have hmem : x ∈ nonNull p.rows := hx ▸ mem_singleton_self x
    have hbuilt := @agrees_order _ _ _ _ _ _ _ hlib h x [] (hx ▸ List.Perm.refl _) (.inl rfl)
    have hkept := (built_iff (read_nonNull hmem).1.1 (read_nonNull hmem).1.2
      (read_nonNull hmem).2).mp hbuilt
    refine .inr (.inr ⟨x, hmem, hkept, fun t ht => .inl ?_⟩)
    rw [hx, mem_singleton] at ht
    rw [ht]
  have htwo : 2 ≤ (nonNull p.rows).length := by
    have hpos := length_pos_iff.mpr hnil
    omega
  by_cases hother : ∃ s ∈ nonNull p.rows, s.read.isOther = true
  · exact .inr (.inl ⟨htwo, hother⟩)
  have hscalars : ∀ t ∈ nonNull p.rows, t.read.isOther = false := by
    intro t ht
    by_contra hne
    exact hother ⟨t, ht, by simpa using hne⟩
  obtain ⟨s, hs, hkept, hbest⟩ := exists_best_of_agrees hlib h htwo hscalars
  refine .inr (.inr ⟨s, hs, hkept, fun t ht => (hbest t ht).imp_right fun hbetter => ?_⟩)
  exact (outranks_iff hlib (class_of_agrees hlib h hscalars hs ht)
    (orderClass_ne_none (mem_nonNull.mp hs).2 (hscalars s hs))).mpr hbetter

end Main

theorem agrees_sums {timed : Nat → Bool} {scale : Int → D → D} {f : SharedAggregate}
    {p : Partition lib} (hchoice : ∀ minimum, f ≠ .choice minimum)
    (hsum : f = .sum → ∃ storage, p.type = .integer storage 0) : Agrees timed scale f p := by
  intro w g hwtype hgtype hw hg
  have hlength := hw.length_eq
  have hvalues : w.values.Perm g.values := (hw.trans hg.symm).map _
  cases f with
  | countAll =>
    rw [window_countAll, group_countAll, hlength, hg.length_eq]
    rfl
  | count =>
    rw [window_count, group_count, hlength, hvalues.countP_eq]
    rfl
  | sum =>
    obtain ⟨storage, htype⟩ := hsum rfl
    rw [window_sum (hwtype.trans htype), group_sum (hgtype.trans htype), hlength,
      hvalues.countP_eq, sum_perm (hvalues.map integerOf)]
    rfl
  | choice minimum => exact absurd rfl (hchoice minimum)

/-- When the two agree: COUNT and SUM always, MIN and MAX if they are settled. -/
def Settles (f : SharedAggregate) (p : Partition lib) : Prop :=
  match f with
  | .choice minimum => Settled lib minimum p.type p.rows
  | _ => True

/-- **A window over the whole partition and GROUP BY agree exactly if the best value is settled**,
for every partition, with any nulls or only nulls; SUM over signed and unsigned integers.  In every
order of the rows the two must find the same best value, and GROUP BY must give it back as it
is. -/
theorem agrees_iff (lib : ValueLib D X) (hlib : OrderedDoubles lib) (timed : Nat → Bool)
    (scale : Int → D → D) (f : SharedAggregate) (p : Partition lib)
    (hsum : f = .sum → ∃ storage, p.type = .integer storage 0) :
    Agrees timed scale f p ↔ Settles f p := by
  cases f with
  | choice minimum => exact ⟨settled_of_agrees hlib, agrees_of_settled hlib⟩
  | countAll => exact iff_of_true (agrees_sums (fun _ h => by cases h) hsum) trivial
  | count => exact iff_of_true (agrees_sums (fun _ h => by cases h) hsum) trivial
  | sum => exact iff_of_true (agrees_sums (fun _ h => by cases h) hsum) trivial

theorem smallValues_fit : ∀ s ∈ ([.uint64 7, .nul, .uint64 5] : List (Stored Binary64 Nat)),
    Fits binaryLib (.integer .uint64 0) s ∧ s.InRange := by
  intro s hs
  simp only [mem_cons, not_mem_nil, or_false] at hs
  rcases hs with rfl | rfl | rfl
  · exact ⟨trivial, (by decide : 7 < 2 ^ 64)⟩
  · exact ⟨trivial, trivial⟩
  · exact ⟨trivial, (by decide : 5 < 2 ^ 64)⟩

/-- Unsigned values below 2^63. -/
def smallValues : Partition binaryLib :=
  ⟨.integer .uint64 0, [.uint64 7, .nul, .uint64 5], smallValues_fit⟩

theorem smallValues_agree : Agrees (fun _ => false) (fun _ d => d) (.choice true) smallValues :=
  (agrees_iff binaryLib (orderedDoubles_binary64 rfl rfl) (fun _ => false) (fun _ d => d)
    (.choice true) smallValues (fun h => by cases h)).mpr <| by
      refine .inr (.inr ⟨.uint64 5, ?_, ?_, ?_⟩)
      · exact mem_cons_of_mem _ mem_cons_self
      · exact (by decide : 5 < 2 ^ 63)
      · intro t ht
        rcases mem_cons.mp ht with rfl | ht
        · exact .inr ⟨-1, rfl, by decide⟩
        · rw [mem_singleton.mp ht]
          exact .inl rfl

theorem largeValue_fits : ∀ s ∈ ([.uint64 (2 ^ 63)] : List (Stored Binary64 Nat)),
    Fits binaryLib (.integer .uint64 0) s ∧ s.InRange := by
  intro s hs
  rw [mem_singleton.mp hs]
  exact ⟨trivial, (by decide : 2 ^ 63 < 2 ^ 64)⟩

/-- One unsigned value from 2^63 on. -/
def largeValue : Partition binaryLib :=
  ⟨.integer .uint64 0, [.uint64 (2 ^ 63)], largeValue_fits⟩

/-- **They do not always agree**: the window takes the value, GROUP BY reads a negative one and
cannot build its column. -/
theorem largeValue_not_agrees :
    ¬ Agrees (fun _ => false) (fun _ d => d) (.choice true) largeValue := by
  intro h
  have hagree := h largeValue largeValue rfl rfl (List.Perm.refl _) (List.Perm.refl _)
  have hwindow : windowColumn (fun _ => false) (fun _ d => d) (.choice true) largeValue =
      some [.int (2 ^ 63)] := rfl
  have hgroup : groupCell (.choice true) largeValue = none := rfl
  rw [hwindow, hgroup] at hagree
  cases hagree

end MldpDriver.Query.Window
