/-
# Integer arithmetic on machine words

A `Calc` is a computation on integers of which every sum, product or quotient is one step: the step
carries the mathematical result, and the rest goes on from what the machine makes of it.  The same
computation is run over the integers (`exact`) and on words (`run word`).
-/
import Mathlib.Data.List.Basic

namespace Lib.WordArithmetic

open List

inductive Calc (ε α : Type) where
  | ret (value : α)
  | fail (error : ε)
  | step (result : Int) (rest : Int → Calc ε α)

namespace Calc

variable {ε α β γ : Type}

def bind : Calc ε α → (α → Calc ε β) → Calc ε β
  | .ret a, f => f a
  | .fail e, _ => .fail e
  | .step n rest, f => .step n fun m => (rest m).bind f

instance : Monad (Calc ε) where
  pure := Calc.ret
  bind := Calc.bind

theorem bind_ret (c : Calc ε α) : c.bind Calc.ret = c := by
  induction c with
  | ret a => rfl
  | fail e => rfl
  | step n rest ih => rw [bind, funext ih]

theorem bind_assoc_calc (c : Calc ε α) (f : α → Calc ε β) (g : β → Calc ε γ) :
    (c.bind f).bind g = c.bind fun a => (f a).bind g := by
  induction c with
  | ret a => rfl
  | fail e => rfl
  | step n rest ih => simp only [bind, ih]

instance : LawfulMonad (Calc ε) :=
  LawfulMonad.mk' (Calc ε) bind_ret (fun _ _ => rfl) bind_assoc_calc

/-- One operation. -/
def op (n : Int) : Calc ε Int := .step n .ret

def ofExcept : Except ε α → Calc ε α
  | .ok a => .ret a
  | .error e => .fail e

/-! ## 1. Running -/

/-- The run on words, where the machine makes `word n` of a result `n`. -/
def run (word : Int → Int) : Calc ε α → Except ε α
  | .ret a => .ok a
  | .fail e => .error e
  | .step n rest => (rest (word n)).run word

/-- The run over the integers. -/
def exact (c : Calc ε α) : Except ε α := c.run id

@[simp] theorem run_pure (word : Int → Int) (a : α) :
    (Pure.pure a : Calc ε α).run word = .ok a := rfl

@[simp] theorem run_fail (word : Int → Int) (e : ε) : (fail e : Calc ε α).run word = .error e := rfl

@[simp] theorem run_op (word : Int → Int) (n : Int) : (op n : Calc ε Int).run word = .ok (word n) :=
  rfl

@[simp] theorem run_ofExcept (word : Int → Int) (x : Except ε α) : (ofExcept x).run word = x := by
  cases x <;> rfl

@[simp] theorem run_bind (word : Int → Int) (c : Calc ε α) (f : α → Calc ε β) :
    (c >>= f).run word = c.run word >>= fun a => (f a).run word := by
  change (c.bind f).run word = _
  induction c with
  | ret a => rfl
  | fail e => rfl
  | step n rest ih => exact ih (word n)

/-- The run gives a result. -/
def Succeeds (word : Int → Int) (c : Calc ε α) : Prop := ∃ a, c.run word = .ok a

@[simp] theorem succeeds_pure (word : Int → Int) (a : α) : (Pure.pure a : Calc ε α).Succeeds word :=
  ⟨a, rfl⟩

@[simp] theorem not_succeeds_fail (word : Int → Int) (e : ε) :
    ¬ (fail e : Calc ε α).Succeeds word := fun ⟨_, h⟩ => by cases h

@[simp] theorem succeeds_op (word : Int → Int) (n : Int) : (op n : Calc ε Int).Succeeds word :=
  ⟨word n, rfl⟩

variable {f : α → Calc ε β}
variable {c : Calc ε α}
variable {word : Int → Int}

theorem succeeds_bind :
    (c >>= f).Succeeds word ↔ ∃ a, c.run word = .ok a ∧ (f a).Succeeds word := by
  rw [Succeeds, run_bind]
  cases c.run word with
  | error e => simp [Bind.bind, Except.bind]
  | ok a => simp [Bind.bind, Except.bind, Succeeds]

theorem succeeds_bind_iff {P Q : Prop} (hc : c.Succeeds word ↔ P)
    (hf : ∀ a, (f a).Succeeds word ↔ Q) :
    (c >>= f).Succeeds word ↔ P ∧ Q := by
  rw [← hc]
  simp only [succeeds_bind, hf, exists_and_right]
  rfl

theorem succeeds_bind_left (hf : ∀ a, (f a).Succeeds word) :
    (c >>= f).Succeeds word ↔ c.Succeeds word :=
  (succeeds_bind_iff Iff.rfl fun a => iff_true_intro (hf a)).trans (and_iff_left trivial)

@[simp] theorem succeeds_map {f : α → β} :
    (f <$> c).Succeeds word ↔ c.Succeeds word := by
  rw [map_eq_pure_bind, succeeds_bind_left fun a => succeeds_pure word _]

theorem succeeds_mapM {l : List α} :
    (l.mapM f).Succeeds word ↔ ∀ a ∈ l, (f a).Succeeds word := by
  induction l with
  | nil => simp
  | cons a l ih =>
    rw [mapM_cons, forall_mem_cons]
    exact succeeds_bind_iff Iff.rfl fun b => (succeeds_bind_left fun _ => succeeds_pure word _).trans ih

/-! ## 2. Overflow

A run on words overflows (`Overflows`) when one of its steps has a result outside the range of the
words.  That depends on the words the earlier steps produced; `not_overflows_iff` trades it for the
exact run, on which it can be read off compositionally (`within_bind`, `within_mapM`). -/

section

variable (fits : Int → Prop) (word : Int → Int)

/-- A step of the run on words has a result outside the range. -/
def Overflows : Calc ε α → Prop
  | .ret _ => False
  | .fail _ => False
  | .step n rest => ¬ fits n ∨ (rest (word n)).Overflows

instance decidableOverflows [DecidablePred fits] : ∀ c : Calc ε α, Decidable (c.Overflows fits word)
  | .ret _ => isFalse id
  | .fail _ => isFalse id
  | .step n rest => @instDecidableOr _ _ _ (decidableOverflows (rest (word n)))

/-- Every step of the exact run stays in the range. -/
def Within : Calc ε α → Prop
  | .ret _ => True
  | .fail _ => True
  | .step n rest => fits n ∧ (rest n).Within

end

variable {fits : Int → Prop} {word : Int → Int}

@[simp] theorem within_pure (a : α) : (Pure.pure a : Calc ε α).Within fits := trivial

@[simp] theorem within_fail (e : ε) : (fail e : Calc ε α).Within fits := trivial

@[simp] theorem within_op (n : Int) : (op n : Calc ε Int).Within fits ↔ fits n :=
  and_iff_left trivial

@[simp] theorem within_ofExcept (x : Except ε α) : (ofExcept x).Within fits := by
  cases x <;> trivial

theorem within_bind :
    (c >>= f).Within fits ↔ c.Within fits ∧ ∀ a, c.exact = .ok a → (f a).Within fits := by
  change (c.bind f).Within fits ↔ _
  induction c with
  | ret a => simp [bind, Within, exact, run]
  | fail e => simp [bind, Within, exact, run]
  | step n rest ih =>
    rw [bind, Within, ih n, Within, and_assoc]
    rfl

theorem within_op_bind {n : Int} {f : Int → Calc ε α} :
    (op n >>= f).Within fits ↔ fits n ∧ (f n).Within fits := Iff.rfl

theorem within_bind_iff {P Q : Prop} (hs : c.Succeeds id) (hc : c.Within fits ↔ P)
    (hf : ∀ a, (f a).Within fits ↔ Q) :
    (c >>= f).Within fits ↔ P ∧ Q := by
  obtain ⟨a, ha⟩ := hs
  rw [within_bind, ← hc]
  refine and_congr_right fun _ => ⟨fun h => (hf a).mp (h a ha), fun h b _ => (hf b).mpr h⟩

theorem within_bind_left (hf : ∀ a, (f a).Within fits) :
    (c >>= f).Within fits ↔ c.Within fits :=
  within_bind.trans (and_iff_left fun a _ => hf a)

@[simp] theorem within_map {f : α → β} :
    (f <$> c).Within fits ↔ c.Within fits := by
  rw [map_eq_pure_bind, within_bind_left fun a => within_pure _]

/-- **The overflow of a run on words is visible in the exact run.** -/
theorem not_overflows_iff (hword : ∀ n, fits n → word n = n) (c : Calc ε α) :
    ¬ c.Overflows fits word ↔ c.Within fits := by
  induction c with
  | ret a => exact iff_of_true id trivial
  | fail e => exact iff_of_true id trivial
  | step n rest ih =>
    rw [Overflows, Within, not_or, not_not]
    refine and_congr_right fun hn => ?_
    rw [hword n hn]
    exact ih n

theorem within_mapM {l : List α} :
    (l.mapM f).Within fits ↔ ∀ done a later, l = done ++ a :: later →
      (∀ d ∈ done, (f d).Succeeds id) → (f a).Within fits := by
  induction l with
  | nil =>
    refine iff_of_true trivial fun done a later h => ?_
    exact absurd h.symm (by simp)
  | cons x l ih =>
    rw [mapM_cons, within_bind]
    have hrest : ∀ b, (l.mapM f >>= fun bs => Pure.pure (b :: bs)).Within fits ↔
        (l.mapM f).Within fits := fun b => within_bind_left fun _ => within_pure _
    constructor
    · rintro ⟨hx, hl⟩ done a later heq hdone
      cases done with
      | nil =>
        obtain ⟨rfl, rfl⟩ := List.cons.inj heq
        exact hx
      | cons d done =>
        obtain ⟨rfl, rfl⟩ := List.cons.inj heq
        obtain ⟨b, hb⟩ := hdone x mem_cons_self
        exact ih.mp ((hrest b).mp (hl b hb)) done a later rfl
          fun d hd => hdone d (mem_cons_of_mem _ hd)
    · intro h
      refine ⟨h [] x l rfl (fun d hd => absurd hd not_mem_nil), fun b hb => (hrest b).mpr ?_⟩
      refine ih.mpr fun done a later heq hdone => h (x :: done) a later (by rw [heq]; rfl) ?_
      exact forall_mem_cons.mpr ⟨⟨b, hb⟩, hdone⟩

theorem within_mapM_iff {l : List α} (h : ∀ a ∈ l, (f a).Succeeds id) :
    (l.mapM f).Within fits ↔ ∀ a ∈ l, (f a).Within fits := by
  rw [within_mapM]
  constructor
  · intro hall a ha
    obtain ⟨done, later, rfl⟩ := append_of_mem ha
    exact hall done a later rfl fun d hd => h d (mem_append_left _ hd)
  · intro hall done a later heq _
    exact hall a (heq ▸ mem_append_right _ mem_cons_self)

end Calc

end Lib.WordArithmetic
