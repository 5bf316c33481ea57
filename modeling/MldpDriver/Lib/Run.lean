/-
# Runs of a guarded transition system

A system is a partial step function `step : σ → α → Option σ`: `none` says that the action is not
enabled.  A GUARD `ok s a` is a condition on the action and the state before it; `Runs step ok` are
the runs all of whose steps meet the guard, so `Runs step (fun _ _ => True)` are all runs.
-/
import Mathlib.Logic.Relation

namespace Lib.Run

variable {σ α : Type} {step : σ → α → Option σ} {ok ok' : σ → α → Prop}

/-- One guarded step. -/
def Move (step : σ → α → Option σ) (ok : σ → α → Prop) (s s' : σ) : Prop :=
  ∃ a, ok s a ∧ step s a = some s'

/-- The runs whose steps all meet the guard. -/
def Runs (step : σ → α → Option σ) (ok : σ → α → Prop) : σ → σ → Prop :=
  Relation.ReflTransGen (Move step ok)

/-- Every step is allowed. -/
def anyStep (_ : σ) (_ : α) : Prop := True

instance (s : σ) : DecidablePred (anyStep s : α → Prop) := fun _ => isTrue trivial

/-! ## 1. The induction over runs

`Runs.keeps` is the one induction over runs: what holds at the start and is kept by every guarded
step holds at the end.  `Runs.of_exec` produces runs from an explicit list of actions. -/

/-- **The invariant rule.** What guarded steps keep, guarded runs keep. -/
theorem Runs.keeps {Inv : σ → Prop}
    (hstep : ∀ s a s', Inv s → ok s a → step s a = some s' → Inv s')
    {s s' : σ} (hrun : Runs step ok s s') (h : Inv s) : Inv s' := by
  induction hrun with
  | refl => exact h
  | tail _ hmove ih =>
    obtain ⟨a, hok, ha⟩ := hmove
    exact hstep _ a _ ih hok ha

/-! ## 2. Runs from lists of actions -/

/-- The state after a list of actions, each of which must be enabled and meet the guard. -/
def exec (step : σ → α → Option σ) (ok : σ → α → Prop) [∀ s, DecidablePred (ok s)] :
    σ → List α → Option σ
  | s, [] => some s
  | s, a :: as =>
    if ok s a then
      match step s a with
      | some s' => exec step ok s' as
      | none => none
    else none

theorem exec_cons {s s' : σ} {a : α} (h : step s a = some s') (as : List α) :
    exec step anyStep s (a :: as) = exec step anyStep s' as := by
  have hany : anyStep s a := trivial
  rw [exec, if_pos hany, h]

theorem exec_cons_none {s : σ} {a : α} (h : step s a = none) (as : List α) :
    exec step anyStep s (a :: as) = none := by
  have hany : anyStep s a := trivial
  rw [exec, if_pos hany, h]

theorem exec_append (s : σ) (as bs : List α) :
    exec step anyStep s (as ++ bs) =
      (exec step anyStep s as).bind fun s => exec step anyStep s bs := by
  induction as generalizing s with
  | nil => rfl
  | cons a as ih =>
    have hany : anyStep s a := trivial
    rw [List.cons_append, exec, exec, if_pos hany, if_pos hany]
    cases step s a with
    | none => rfl
    | some s' => exact ih s'

theorem Runs.of_exec [∀ s, DecidablePred (ok s)] :
    ∀ (as : List α) {s s' : σ}, exec step ok s as = some s' → Runs step ok s s'
  | [], s, s', h => by
    simp only [exec, Option.some.injEq] at h
    exact h ▸ Relation.ReflTransGen.refl
  | a :: as, s, s', h => by
    simp only [exec] at h
    split at h
    · rename_i hok
      cases hm : step s a with
      | none => simp [hm] at h
      | some m =>
        rw [hm] at h
        exact Relation.ReflTransGen.head ⟨a, hok, hm⟩ (Runs.of_exec as h)
    · cases h

end Lib.Run
