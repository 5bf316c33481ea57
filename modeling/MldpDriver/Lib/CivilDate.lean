/-
# Civil dates

Dates of the proleptic Gregorian calendar, and the number of days from 1970-01-01 to a date, counted
by whole years and months.

  * `daysSinceEpoch_next`: the day after has the next number.
  * `dateFrom_spec`: from the year 0 on, every number is that of a date.
-/
import Mathlib.Tactic.IntervalCases

namespace Lib.CivilDate

/-- A year, a month from 1 and a day of the month from 1. -/
structure Date where
  year : Int
  month : Nat
  day : Nat

def isLeap (year : Int) : Bool :=
  decide (year % 4 = 0) && (decide (year % 100 ≠ 0) || decide (year % 400 = 0))

def daysInMonth (year : Int) (month : Nat) : Nat :=
  match month with
  | 2 => if isLeap year then 29 else 28
  | 4 | 6 | 9 | 11 => 30
  | _ => 31

/-- A day of the calendar. -/
structure Date.Valid (date : Date) : Prop where
  month : 1 ≤ date.month ∧ date.month ≤ 12
  day : 1 ≤ date.day ∧ date.day ≤ daysInMonth date.year date.month

/-- The day after. -/
def Date.next (date : Date) : Date :=
  if date.day < daysInMonth date.year date.month then { date with day := date.day + 1 }
  else if date.month < 12 then ⟨date.year, date.month + 1, 1⟩
  else ⟨date.year + 1, 1, 1⟩

/-- The days from 1 January of the year 0, leap years counted. -/
def daysBeforeYear (year : Int) : Int :=
  365 * year + ((year + 3) / 4 - (year + 99) / 100 + (year + 399) / 400)

def daysBeforeMonth (year : Int) (month : Nat) : Nat :=
  ((List.range (month - 1)).map fun i => daysInMonth year (i + 1)).sum

def daysSinceEpoch (date : Date) : Int :=
  daysBeforeYear date.year + daysBeforeMonth date.year date.month + date.day - 719529

theorem isLeap_iff {year : Int} :
    isLeap year = true ↔ year % 4 = 0 ∧ (year % 100 ≠ 0 ∨ year % 400 = 0) := by
  simp [isLeap]

theorem daysBeforeYear_succ (year : Int) :
    daysBeforeYear (year + 1) = daysBeforeYear year + if isLeap year then 366 else 365 := by
  unfold daysBeforeYear
  split
  · next h =>
    rw [isLeap_iff] at h
    omega
  · next h =>
    rw [isLeap_iff] at h
    omega

theorem daysBeforeMonth_succ {year : Int} {month : Nat} (h : 1 ≤ month) :
    daysBeforeMonth year (month + 1) = daysBeforeMonth year month + daysInMonth year month := by
  obtain ⟨m, rfl⟩ := Nat.exists_eq_add_of_le' h
  simp [daysBeforeMonth, List.range_succ]

theorem daysBeforeMonth_december (year : Int) :
    daysBeforeMonth year 12 + daysInMonth year 12 = if isLeap year then 366 else 365 := by
  by_cases h : isLeap year <;> simp [daysBeforeMonth, List.range_succ, daysInMonth, h]

/-- **The day after has the next number.** -/
theorem daysSinceEpoch_next {date : Date} (h : date.Valid) :
    daysSinceEpoch date.next = daysSinceEpoch date + 1 := by
  have hday := h.day
  have hmonth := h.month
  unfold Date.next
  split
  · simp only [daysSinceEpoch, Nat.cast_add, Nat.cast_one]
    omega
  · split
    · simp only [daysSinceEpoch, daysBeforeMonth_succ hmonth.1]
      omega
    · obtain ⟨year, month, day⟩ := date
      obtain rfl : month = 12 := by
        dsimp only at *
        omega
      have hdecember := daysBeforeMonth_december year
      have hjanuary : daysBeforeMonth (year + 1) 1 = 0 := rfl
      simp only [daysSinceEpoch, daysBeforeYear_succ, hjanuary]
      dsimp only at *
      by_cases hleap : isLeap year = true
      · rw [if_pos hleap] at hdecember ⊢
        omega
      · rw [if_neg hleap] at hdecember ⊢
        omega

theorem daysInMonth_pos (year : Int) (month : Nat) : 1 ≤ daysInMonth year month := by
  unfold daysInMonth
  split <;> (try split) <;> omega

theorem daysInMonth_le (year : Int) (month : Nat) : daysInMonth year month ≤ 31 := by
  unfold daysInMonth
  split <;> (try split) <;> omega

theorem Date.Valid.next {date : Date} (h : date.Valid) : date.next.Valid := by
  have hday := h.day
  have hmonth := h.month
  unfold Date.next
  split
  · exact ⟨hmonth, by dsimp only; omega⟩
  · split
    · exact ⟨by dsimp only; omega, le_refl _, daysInMonth_pos _ _⟩
    · exact ⟨⟨le_refl _, by dsimp only; omega⟩, le_refl _, daysInMonth_pos _ _⟩

/-- The `n`-th day from the first one of the year 0. -/
def dateFrom : Nat → Date
  | 0 => ⟨0, 1, 1⟩
  | n + 1 => (dateFrom n).next

/-- **Every day from the year 0 on has a date.** -/
theorem dateFrom_spec (n : Nat) :
    (dateFrom n).Valid ∧ 0 ≤ (dateFrom n).year ∧ daysSinceEpoch (dateFrom n) = n - 719528 := by
  induction n with
  | zero => exact ⟨⟨by decide, by decide⟩, by decide, by decide⟩
  | succ n ih =>
    obtain ⟨hvalid, hyear, hdays⟩ := ih
    refine ⟨hvalid.next, ?_, ?_⟩
    · unfold dateFrom Date.next
      split
      · exact hyear
      · split
        · exact hyear
        · dsimp only
          omega
    · rw [dateFrom, daysSinceEpoch_next hvalid, hdays]
      omega

theorem year_le {date : Date} (h : date.Valid) (hyear : 0 ≤ date.year) :
    365 * date.year ≤ daysSinceEpoch date + 719528 := by
  have hday := h.day
  unfold daysSinceEpoch daysBeforeYear
  omega

end Lib.CivilDate
