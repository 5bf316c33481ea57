/-
# The order of values in windows

Window functions compare values of five kinds (`compareRefs`): numbers by their values, texts
bytewise, booleans, and values of different kinds by the kind.  Two integers are compared as
integers, any other two numbers as doubles.  Values that are no scalars are refused.
-/
import Mathlib.Algebra.Group.Int.Defs
import Mathlib.Algebra.Group.Nat.Defs
import MldpDriver.Lib.Binary64
import MldpDriver.Query.AggregateValue

namespace MldpDriver.Query.Window

open Aggregate (Value ValueLib compareText)
open Lib (Binary64)

variable {D X : Type} {lib : ValueLib D X}

/-! ## 1. Comparing values

`before` is the order behind it.  With IEEE doubles it is transitive, NaN and integers beyond 2^53
included (`before_trans`), though "neither is before the other" is not. -/

/-- The place of a kind in `ValueKind`. -/
def kindRank : Value D X → Nat
  | .nul => 0
  | .int _ => 1
  | .double _ => 2
  | .bool _ => 3
  | .string _ => 4
  | .other _ => 5

/-- `(left > right) - (left < right)` -/
def threeWay (less greater : Bool) : Int :=
  (if greater then 1 else 0) - (if less then 1 else 0)

/-- `compareRefs`: numbers, texts and booleans by their values, values of different kinds by the
kind; `none` says that it throws. -/
def compareRefs (lib : ValueLib D X) (lhs rhs : Value D X) : Option Int :=
  match lhs, rhs with
  | .int l, .int r => some (threeWay (decide (l < r)) (decide (r < l)))
  | .string l, .string r => some (compareText l r)
  | .bool l, .bool r => some ((if l then 1 else 0) - (if r then 1 else 0))
  | lhs, rhs =>
    match lhs.asDouble lib, rhs.asDouble lib with
    | some l, some r => some (threeWay (lib.lt l r) (lib.lt r l))
    | _, _ =>
      if lhs.isOther || rhs.isOther then none
      else some (if kindRank lhs < kindRank rhs then -1 else 1)

/-- Is the earlier value better than a later one? -/
def keepsValue (lib : ValueLib D X) (minimum : Bool) (earlier later : Value D X) : Option Bool :=
  (compareRefs lib earlier later).map fun order =>
    (minimum && decide (order < 0)) || (!minimum && decide (0 < order))

/-- What is used of doubles: `<` is a strict order, and converting integers does not turn theirs
around. -/
structure OrderedDoubles (lib : ValueLib D X) : Prop where
  irrefl : ∀ d, lib.lt d d = false
  trans : ∀ d e f, lib.lt d e = true → lib.lt e f = true → lib.lt d f = true
  below : ∀ m n d, m ≤ n → lib.lt (lib.ofInt n) d = true → lib.lt (lib.ofInt m) d = true
  above : ∀ m n d, m ≤ n → lib.lt d (lib.ofInt m) = true → lib.lt d (lib.ofInt n) = true

theorem orderedDoubles_binary64 {lib : ValueLib Binary64 X} (hlt : lib.lt = Binary64.ltb)
    (hofInt : lib.ofInt = Binary64.ofInt) : OrderedDoubles lib where
  irrefl d := by
    rw [hlt]
    cases d with
    | nan => rfl
    | inf negative => cases negative <;> rfl
    | finite value => simp [Binary64.ltb]
  trans d e f := by
    rw [hlt]
    intro hde hef
    cases d <;> cases e <;> cases f <;> simp only [Binary64.ltb] at * <;> grind
  below m n d := by
    rw [hlt, hofInt]
    intro hmn hlt
    have hmono := Lib.Binary64.toBinary64_mono hmn
    cases d with
    | nan => cases hlt
    | inf negative => exact hlt
    | finite value =>
      simp only [Binary64.ofInt, Binary64.ltb, decide_eq_true_eq] at hlt ⊢
      exact lt_of_le_of_lt (Int.cast_le.mpr hmono) hlt
  above m n d := by
    rw [hlt, hofInt]
    intro hmn hlt
    have hmono := Lib.Binary64.toBinary64_mono hmn
    cases d with
    | nan => cases hlt
    | inf negative => exact hlt
    | finite value =>
      simp only [Binary64.ofInt, Binary64.ltb, decide_eq_true_eq] at hlt ⊢
      exact lt_of_lt_of_le hlt (Int.cast_le.mpr hmono)

theorem compareText_swap (l r : List UInt8) : compareText r l = -compareText l r := by
  induction l generalizing r with
  | nil => cases r <;> rfl
  | cons a l ih =>
    cases r with
    | nil => rfl
    | cons b r =>
      rw [compareText, compareText]
      by_cases hab : a < b
      · rw [if_neg (UInt8.lt_asymm hab), if_pos hab, if_pos hab, Int.neg_neg]
      · by_cases hba : b < a
        · rw [if_pos hba, if_neg hab, if_pos hba]
        · rw [if_neg hba, if_neg hab, if_neg hab, if_neg hba, ih]

theorem compareText_neg_cons {a b : UInt8} {l r : List UInt8} :
    compareText (a :: l) (b :: r) < 0 ↔ a < b ∨ a = b ∧ compareText l r < 0 := by
  rw [compareText]
  split
  · rename_i hab
    exact iff_of_true (by decide) (.inl hab)
  · rename_i hab
    split
    · rename_i hba
      refine iff_of_false (by decide) ?_
      rintro (h | ⟨rfl, -⟩)
      · exact hab h
      · exact hab hba
    · rename_i hba
      have heq : a = b := UInt8.le_antisymm (UInt8.not_lt.mp hba) (UInt8.not_lt.mp hab)
      exact ⟨fun h => .inr ⟨heq, h⟩, fun h => h.elim (fun h => absurd h hab) (·.2)⟩

theorem compareText_trans {l r t : List UInt8} (hlr : compareText l r < 0)
    (hrt : compareText r t < 0) : compareText l t < 0 := by
  induction l generalizing r t with
  | nil =>
    cases t with
    | nil => cases r <;> cases hrt
    | cons c t => exact (by decide : (-1 : Int) < 0)
  | cons a l ih =>
    cases r with
    | nil => cases hlr
    | cons b r =>
      cases t with
      | nil => cases hrt
      | cons c t =>
        rw [compareText_neg_cons] at *
        rcases hlr with hab | ⟨rfl, hlr⟩
        · rcases hrt with hbc | ⟨rfl, -⟩
          · exact .inl (UInt8.lt_trans hab hbc)
          · exact .inl hab
        · exact hrt.imp_right fun h => ⟨h.1, ih hlr h.2⟩

/-- The order that `compareRefs` has of values that it compares. -/
def before (lib : ValueLib D X) : Value D X → Value D X → Bool
  | .int m, .int n => decide (m < n)
  | .int m, .double d => lib.lt (lib.ofInt m) d
  | .double d, .int n => lib.lt d (lib.ofInt n)
  | .double d, .double e => lib.lt d e
  | .bool l, .bool r => !l && r
  | .string l, .string r => decide (compareText l r < 0)
  | .other _, _ => false
  | _, .other _ => false
  | lhs, rhs => decide (kindRank lhs < kindRank rhs)

theorem OrderedDoubles.asymm (hlib : OrderedDoubles lib) {d e : D} (h : lib.lt d e = true) :
    lib.lt e d = false := by
  by_contra hne
  have hself := hlib.trans d e d h (by simpa using hne)
  rw [hlib.irrefl] at hself
  cases hself

theorem OrderedDoubles.lt_of_ofInt (hlib : OrderedDoubles lib) {m n : Int}
    (h : lib.lt (lib.ofInt m) (lib.ofInt n) = true) : m < n := by
  by_contra hle
  have hself := hlib.below n m _ (Int.not_lt.mp hle) h
  rw [hlib.irrefl] at hself
  cases hself

theorem threeWay_neg_iff {less greater : Bool} (h : less = true → greater = false) :
    threeWay less greater < 0 ↔ less = true := by
  cases less with
  | false => cases greater <;> decide
  | true => rw [h rfl]; decide

theorem threeWay_pos_iff {less greater : Bool} (h : less = true → greater = false) :
    0 < threeWay less greater ↔ greater = true := by
  cases less with
  | false => cases greater <;> decide
  | true => rw [h rfl]; decide

theorem before_trans (hlib : OrderedDoubles lib) {a b c : Value D X}
    (hab : before lib a b = true) (hbc : before lib b c = true) : before lib a c = true := by
  cases b with
  | nul => cases a <;> simp [before, kindRank] at hab
  | other x => simp [before] at hbc
  | int n =>
    cases a <;> cases c <;> simp [before, kindRank] at hab hbc ⊢
    · omega
    · exact hlib.below _ _ _ (Int.le_of_lt hab) hbc
    · exact hlib.above _ _ _ (Int.le_of_lt hbc) hab
    · exact hlib.trans _ _ _ hab hbc
  | double d =>
    cases a <;> cases c <;> simp [before, kindRank] at hab hbc ⊢
    · exact hlib.lt_of_ofInt (hlib.trans _ _ _ hab hbc)
    · exact hlib.trans _ _ _ hab hbc
    · exact hlib.trans _ _ _ hab hbc
    · exact hlib.trans _ _ _ hab hbc
  | bool b =>
    cases a <;> cases c <;> simp [before, kindRank] at hab hbc ⊢
    exact absurd (hab.2.symm.trans hbc.1) (by decide)
  | string text =>
    cases a <;> cases c <;> simp [before, kindRank] at hab hbc ⊢
    exact compareText_trans hab hbc

/-- Is the first value better? -/
def outranks (lib : ValueLib D X) (minimum : Bool) (a b : Value D X) : Bool :=
  if minimum then before lib a b else before lib b a

theorem before_irrefl (hlib : OrderedDoubles lib) (a : Value D X) : before lib a a = false := by
  cases a with
  | nul => rfl
  | other x => rfl
  | int n => exact decide_eq_false (Int.lt_irrefl n)
  | double d => exact hlib.irrefl d
  | bool b => cases b <;> rfl
  | string text =>
    refine decide_eq_false ?_
    have hswap := compareText_swap text text
    omega

variable {minimum : Bool}

theorem outranks_trans (hlib : OrderedDoubles lib) (a b c : Value D X)
    (hab : outranks lib minimum a b = true) (hbc : outranks lib minimum b c = true) :
    outranks lib minimum a c = true := by
  cases minimum with
  | true => exact before_trans hlib hab hbc
  | false => exact before_trans hlib hbc hab

theorem outranks_irrefl (hlib : OrderedDoubles lib) (a : Value D X) :
    outranks lib minimum a a = false := by
  cases minimum with
  | true => exact before_irrefl hlib a
  | false => exact before_irrefl hlib a

/-- What `compareRefs` says of two scalars. -/
structure Compares (lib : ValueLib D X) (a b : Value D X) (order : Int) : Prop where
  eq : compareRefs lib a b = some order
  neg : order < 0 ↔ before lib a b = true
  pos : 0 < order ↔ before lib b a = true

variable {a b : Value D X}

theorem compares_threeWay (hasymm : before lib a b = true → before lib b a = false)
    (h : compareRefs lib a b = some (threeWay (before lib a b) (before lib b a))) :
    Compares lib a b (threeWay (before lib a b) (before lib b a)) :=
  ⟨h, threeWay_neg_iff hasymm, threeWay_pos_iff hasymm⟩

theorem compares_kinds (hne : kindRank a ≠ kindRank b)
    (hab : before lib a b = decide (kindRank a < kindRank b))
    (hba : before lib b a = decide (kindRank b < kindRank a))
    (h : compareRefs lib a b = some (if kindRank a < kindRank b then -1 else 1)) :
    Compares lib a b (if kindRank a < kindRank b then -1 else 1) := by
  refine ⟨h, ?_, ?_⟩
  · rw [hab, decide_eq_true_iff]
    split
    · rename_i hlt
      exact iff_of_true (by decide) hlt
    · rename_i hle
      exact iff_of_false (by decide) hle
  · rw [hba, decide_eq_true_iff]
    split
    · rename_i hlt
      exact iff_of_false (by decide) (Nat.lt_asymm hlt)
    · exact iff_of_true (by decide) (by omega)

theorem exists_compares (hlib : OrderedDoubles lib) (hnull : a.isNull = false ∨ b.isNull = false)
    (ha : a.isOther = false) (hb : b.isOther = false) : ∃ order, Compares lib a b order := by
  have hints : ∀ m n : Int, decide (m < n) = true → decide (n < m) = false := fun m n h =>
    decide_eq_false (Int.lt_asymm (of_decide_eq_true h))
  cases a with
  | other x => cases ha
  | nul =>
    cases b with
    | other x => cases hb
    | nul => cases hnull <;> contradiction
    | _ => exact ⟨_, compares_kinds (by simp [kindRank]) rfl rfl rfl⟩
  | int m =>
    cases b with
    | other x => cases hb
    | int n => exact ⟨_, compares_threeWay (hints m n) rfl⟩
    | double d => exact ⟨_, compares_threeWay hlib.asymm rfl⟩
    | _ => exact ⟨_, compares_kinds (by simp [kindRank]) rfl rfl rfl⟩
  | double d =>
    cases b with
    | other x => cases hb
    | int n => exact ⟨_, compares_threeWay hlib.asymm rfl⟩
    | double e => exact ⟨_, compares_threeWay hlib.asymm rfl⟩
    | _ => exact ⟨_, compares_kinds (by simp [kindRank]) rfl rfl rfl⟩
  | bool l =>
    cases b with
    | other x => cases hb
    | bool r =>
      refine ⟨(if l then 1 else 0) - (if r then 1 else 0), rfl, ?_, ?_⟩
      · cases l <;> cases r <;> simp [before]
      · cases l <;> cases r <;> simp [before]
    | _ => exact ⟨_, compares_kinds (by simp [kindRank]) rfl rfl rfl⟩
  | string l =>
    cases b with
    | other x => cases hb
    | string r =>
      refine ⟨compareText l r, rfl, decide_eq_true_iff.symm, ?_⟩
      rw [before, decide_eq_true_iff, compareText_swap l r]
      omega
    | _ => exact ⟨_, compares_kinds (by simp [kindRank]) rfl rfl rfl⟩

theorem compareRefs_other (h : a.isOther = true ∨ b.isOther = true) :
    compareRefs lib a b = none := by
  cases a <;> cases b <;> simp [Value.isOther] at h <;> rfl

theorem keepsValue_eq (hlib : OrderedDoubles lib) (hnull : a.isNull = false ∨ b.isNull = false) :
    keepsValue lib minimum a b =
      if a.isOther || b.isOther then none
      else some (if minimum then before lib a b else before lib b a) := by
  split
  · rename_i hother
    rw [keepsValue, compareRefs_other (Bool.or_eq_true_iff.mp hother), Option.map_none]
  · rename_i hother
    rw [Bool.not_eq_true, Bool.or_eq_false_iff] at hother
    obtain ⟨order, heq, hneg, hpos⟩ := exists_compares hlib hnull hother.1 hother.2
    rw [keepsValue, heq, Option.map_some]
    cases minimum with
    | true => simp [hneg]
    | false => simp [hpos]

theorem keepsValue_true (hlib : OrderedDoubles lib) (hnull : a.isNull = false ∨ b.isNull = false) :
    keepsValue lib minimum a b = some true ↔
      (a.isOther = false ∧ b.isOther = false) ∧
        (if minimum then before lib a b else before lib b a) = true := by
  rw [keepsValue_eq hlib hnull]
  split
  · rename_i hother
    refine iff_of_false (fun h => by cases h) ?_
    rintro ⟨⟨ha, hb⟩, -⟩
    rw [ha, hb] at hother
    cases hother
  · rename_i hother
    rw [Bool.not_eq_true, Bool.or_eq_false_iff] at hother
    rw [and_iff_right hother, Option.some_inj]

theorem eq_nul {a : Value D X} (h : a.isNull = true) : a = .nul := by
  cases a with
  | nul => rfl
  | _ => cases h

theorem keepsValue_trans (hlib : OrderedDoubles lib) (minimum : Bool) (a b c : Value D X)
    (hab : keepsValue lib minimum a b = some true) (hbc : keepsValue lib minimum b c = some true) :
    keepsValue lib minimum a c = some true := by
  by_cases habNull : a.isNull = true ∧ b.isNull = true
  · rwa [eq_nul habNull.1, ← eq_nul habNull.2]
  by_cases hbcNull : b.isNull = true ∧ c.isNull = true
  · rwa [eq_nul hbcNull.2, ← eq_nul hbcNull.1]
  rw [not_and_or, Bool.not_eq_true, Bool.not_eq_true] at habNull hbcNull
  obtain ⟨⟨ha, -⟩, hab⟩ := (keepsValue_true hlib habNull).mp hab
  obtain ⟨⟨-, hc⟩, hbc⟩ := (keepsValue_true hlib hbcNull).mp hbc
  have hac : (if minimum then before lib a c else before lib c a) = true := by
    cases minimum with
    | true => exact before_trans hlib hab hbc
    | false => exact before_trans hlib hbc hab
  refine (keepsValue_true hlib ?_).mpr ⟨⟨ha, hc⟩, hac⟩
  by_contra hnull
  rw [not_or, Bool.not_eq_false, Bool.not_eq_false] at hnull
  rw [eq_nul hnull.1, eq_nul hnull.2] at hac
  cases minimum <;> cases hac

end MldpDriver.Query.Window
