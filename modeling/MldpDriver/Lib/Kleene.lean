/-
# Three-valued logic

A truth value is a `Bool` that may be unknown (`none`).  Conjunction and disjunction are decided by
one operand where it is decisive, whatever the others are; a conjunction or a disjunction of many is
the fold.  Only four facts are needed of the folds: when they are TRUE and when they are FALSE.
-/
import Mathlib.Data.List.Basic

namespace Lib.Kleene

open List

def not3 (a : Option Bool) : Option Bool := a.map (!·)

def and3 : Option Bool → Option Bool → Option Bool
  | some false, _ => some false
  | _, some false => some false
  | some true, some true => some true
  | _, _ => none

def or3 : Option Bool → Option Bool → Option Bool
  | some true, _ => some true
  | _, some true => some true
  | some false, some false => some false
  | _, _ => none

/-- The conjunction of all. -/
def all3 (values : List (Option Bool)) : Option Bool := values.foldr and3 (some true)

/-- The disjunction of all. -/
def any3 (values : List (Option Bool)) : Option Bool := values.foldr or3 (some false)

theorem not3_eq_some_iff {a : Option Bool} {b : Bool} : not3 a = some b ↔ a = some (!b) := by
  rcases a with _ | _ | _ <;> cases b <;> simp [not3]

variable {a b : Option Bool}

theorem and3_eq_true_iff :
    and3 a b = some true ↔ a = some true ∧ b = some true := by
  rcases a with _ | _ | _ <;> rcases b with _ | _ | _ <;> simp [and3]

theorem and3_eq_false_iff :
    and3 a b = some false ↔ a = some false ∨ b = some false := by
  rcases a with _ | _ | _ <;> rcases b with _ | _ | _ <;> simp [and3]

theorem or3_eq_true_iff :
    or3 a b = some true ↔ a = some true ∨ b = some true := by
  rcases a with _ | _ | _ <;> rcases b with _ | _ | _ <;> simp [or3]

theorem or3_eq_false_iff :
    or3 a b = some false ↔ a = some false ∧ b = some false := by
  rcases a with _ | _ | _ <;> rcases b with _ | _ | _ <;> simp [or3]

variable {values : List (Option Bool)}

theorem all3_beq_true : (all3 values == some true) = values.all (· == some true) := by
  induction values with
  | nil => rfl
  | cons v values ih =>
    rw [all3, foldr_cons, ← all3, all_cons, ← ih, Bool.eq_iff_iff]
    simp only [beq_iff_eq, and3_eq_true_iff, Bool.and_eq_true]

theorem all3_beq_false : (all3 values == some false) = values.any (· == some false) := by
  induction values with
  | nil => rfl
  | cons v values ih =>
    rw [all3, foldr_cons, ← all3, any_cons, ← ih, Bool.eq_iff_iff]
    simp only [beq_iff_eq, and3_eq_false_iff, Bool.or_eq_true]

theorem any3_beq_true : (any3 values == some true) = values.any (· == some true) := by
  induction values with
  | nil => rfl
  | cons v values ih =>
    rw [any3, foldr_cons, ← any3, any_cons, ← ih, Bool.eq_iff_iff]
    simp only [beq_iff_eq, or3_eq_true_iff, Bool.or_eq_true]

theorem any3_beq_false : (any3 values == some false) = values.all (· == some false) := by
  induction values with
  | nil => rfl
  | cons v values ih =>
    rw [any3, foldr_cons, ← any3, all_cons, ← ih, Bool.eq_iff_iff]
    simp only [beq_iff_eq, or3_eq_false_iff, Bool.and_eq_true]

end Lib.Kleene
