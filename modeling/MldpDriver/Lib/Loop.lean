/-
# Loops that may throw

A loop over a list whose body may throw is `List.foldlM` in `Except`.  `foldlM_outcome` is its
rule: the body either keeps an invariant of the elements done so far or throws on elements that are
bad, and being bad does not depend on what follows.
-/
import Mathlib.Data.List.Basic
import Mathlib.Data.List.Forall2

namespace Lib.Loop

open List

variable {σ α ε : Type}

/-- A computation either returns a value with a property or throws while a condition holds. -/
def Outcome (x : Except ε σ) (good : σ → Prop) (bad : Prop) : Prop :=
  (∃ s, x = .ok s ∧ good s) ∨ (∃ e, x = .error e) ∧ bad

variable {good : σ → Prop} {bad : Prop}

theorem Outcome.ok {s : σ} (h : good s) : Outcome (ε := ε) (.ok s) good bad :=
  Or.inl ⟨s, rfl, h⟩

theorem Outcome.error {e : ε} (h : bad) : Outcome (.error e) good bad := Or.inr ⟨⟨e, rfl⟩, h⟩

variable {τ : Type}

theorem Outcome.bind {x : Except ε σ} {f : σ → Except ε τ} {good' : τ → Prop}
    (hx : Outcome x good bad) (hf : ∀ s, good s → Outcome (f s) good' bad) :
    Outcome (x >>= f) good' bad := by
  rcases hx with ⟨s, rfl, hs⟩ | ⟨⟨e, rfl⟩, hbad⟩
  · exact hf s hs
  · exact Or.inr ⟨⟨e, rfl⟩, hbad⟩

theorem Outcome.mono {x : Except ε σ} {good' : σ → Prop} {bad' : Prop} (h : Outcome x good bad)
    (hgood : ∀ s, good s → good' s) (hbad : bad → bad') : Outcome x good' bad' :=
  h.imp (fun ⟨s, hx, hs⟩ => ⟨s, hx, hgood s hs⟩) fun ⟨hx, hb⟩ => ⟨hx, hbad hb⟩

/-- When good results and bad inputs exclude each other, the computation throws exactly on bad
inputs. -/
theorem Outcome.error_iff {x : Except ε σ} (h : Outcome x good bad)
    (hexcl : ∀ s, good s → ¬ bad) : (∃ e, x = .error e) ↔ bad := by
  rcases h with ⟨s, rfl, hs⟩ | ⟨hx, hbad⟩
  · simpa using hexcl s hs
  · exact iff_of_true hx hbad

/-- **The rule of a loop that may throw.** -/
theorem foldlM_outcome {f : σ → α → Except ε σ} {Inv : List α → σ → Prop} {Bad : List α → Prop}
    (hmono : ∀ done more, Bad done → Bad (done ++ more)) (as : List α)
    (hstep : ∀ done, ∀ a ∈ as, ∀ s, Inv done s →
      Outcome (f s a) (Inv (done ++ [a])) (Bad (done ++ [a]))) :
    ∀ {done : List α} {s : σ}, Inv done s →
      Outcome (as.foldlM f s) (Inv (done ++ as)) (Bad (done ++ as)) := by
  induction as with
  | nil =>
    intro done s h
    rw [append_nil]
    exact Outcome.ok h
  | cons a as ih =>
    intro done s h
    rw [foldlM_cons, append_cons]
    rcases hstep done a (by simp) s h with ⟨s', hs', h'⟩ | ⟨⟨e, he⟩, hbad⟩
    · rw [hs']
      exact ih (fun done b hb => hstep done b (by simp [hb])) h'
    · rw [he]
      exact Or.inr ⟨⟨e, rfl⟩, hmono _ _ hbad⟩

/-! ## Loops that collect results

A loop that collects a result for every element is `List.mapM`.  Two of them in `Option` go together
when their bodies do (`mapM_forall₂`, `mapM_of_parts`). -/

variable {l : List α}

theorem mapM_eq_pure {m : Type → Type} [Monad m] [LawfulMonad m] {f : α → m τ} {g : α → τ}
    (h : ∀ a ∈ l, f a = pure (g a)) : l.mapM f = pure (l.map g) := by
  induction l with
  | nil => simp
  | cons a l ih =>
    rw [mapM_cons, h a mem_cons_self, pure_bind,
      ih fun b hb => h b (mem_cons_of_mem _ hb), pure_bind, map_cons]

theorem mapM_outcome {f : α → Except ε τ} {g : α → τ} {Bad : α → Prop}
    (h : ∀ a ∈ l, Outcome (f a) (fun x => x = g a ∧ ¬ Bad a) (Bad a)) :
    Outcome (l.mapM f) (fun xs => xs = l.map g ∧ ∀ a ∈ l, ¬ Bad a) (∃ a ∈ l, Bad a) := by
  induction l with
  | nil =>
    rw [mapM_nil]
    exact Outcome.ok ⟨rfl, fun a ha => absurd ha not_mem_nil⟩
  | cons a l ih =>
    rw [mapM_cons]
    refine Outcome.bind ((h a mem_cons_self).mono (fun x hx => hx) fun hbad =>
      ⟨a, mem_cons_self, hbad⟩) fun x hx => ?_
    refine Outcome.bind ((ih fun b hb => h b (mem_cons_of_mem _ hb)).mono (fun xs hxs => hxs)
      fun ⟨b, hb, hbad⟩ => ⟨b, mem_cons_of_mem _ hb, hbad⟩) fun xs hxs => ?_
    refine Outcome.ok ⟨?_, forall_mem_cons.mpr ⟨hx.2, hxs.2⟩⟩
    rw [hx.1, hxs.1, map_cons]

/-- The result of a step, `d` where there is none. -/
def okOr {τ : Type} (d : τ) : Except ε τ → τ
  | .ok x => x
  | .error _ => d

@[simp] theorem okOr_ok (d x : τ) : okOr d (.ok x : Except ε τ) = x := rfl

/-- The results of a loop that may fail, one by one; `d` is never used. -/
theorem mapM_eq_ok_iff {f : α → Except ε τ} {xs : List τ} (d : τ) :
    l.mapM f = .ok xs ↔ (∀ a ∈ l, ∃ x, f a = .ok x) ∧ l.map (fun a => okOr d (f a)) = xs := by
  induction l generalizing xs with
  | nil => simp [pure, Except.pure]
  | cons a l ih =>
    rw [mapM_cons, forall_mem_cons, map_cons]
    cases hx : f a with
    | error e => simp [bind, Except.bind]
    | ok x =>
      cases hxs : l.mapM f with
      | error e =>
        simp only [bind, Except.bind, reduceCtorEq, false_iff]
        rintro ⟨⟨-, hall⟩, -⟩
        rw [ih.mpr ⟨hall, rfl⟩] at hxs
        cases hxs
      | ok rest =>
        obtain ⟨hall, hrest⟩ := ih.mp hxs
        simp only [bind, Except.bind, pure, Except.pure, Except.ok.injEq, okOr_ok, hrest]
        exact ⟨fun h => ⟨⟨⟨x, rfl⟩, hall⟩, h⟩, And.right⟩

variable {τ τ' : Type} {f : α → Option τ} {f' : α → Option τ'}

theorem mapM_cons_eq_some {a : α} {results : List τ} :
    (a :: l).mapM f = some results ↔
      ∃ x xs, f a = some x ∧ l.mapM f = some xs ∧ x :: xs = results := by
  simp [mapM_cons, Option.bind_eq_some_iff]

/-- The results of a loop, one by one; `d` is never used. -/
theorem mapM_eq_some_iff {xs : List τ} (d : τ) :
    l.mapM f = some xs ↔ (∀ a ∈ l, ∃ x, f a = some x) ∧ l.map (fun a => (f a).getD d) = xs := by
  induction l generalizing xs with
  | nil => simp
  | cons a l ih =>
    rw [mapM_cons_eq_some, forall_mem_cons, map_cons]
    constructor
    · rintro ⟨x, xs, hx, hxs, rfl⟩
      obtain ⟨hall, rfl⟩ := ih.mp hxs
      exact ⟨⟨⟨x, hx⟩, hall⟩, by rw [hx]; rfl⟩
    · rintro ⟨⟨⟨x, hx⟩, hall⟩, rfl⟩
      exact ⟨x, _, hx, ih.mpr ⟨hall, rfl⟩, by rw [hx]; rfl⟩

theorem mapM_forall₂ {R : τ → τ' → Prop}
    (h : ∀ a ∈ l, ∀ x, f a = some x → ∃ y, f' a = some y ∧ R x y) :
    ∀ {xs : List τ}, l.mapM f = some xs → ∃ ys, l.mapM f' = some ys ∧ List.Forall₂ R xs ys := by
  induction l with
  | nil =>
    rintro xs h'
    obtain rfl := Option.some.inj h'
    exact ⟨[], rfl, .nil⟩
  | cons a l ih =>
    intro xs hxs
    obtain ⟨x, xs, hx, hrest, rfl⟩ := mapM_cons_eq_some.mp hxs
    obtain ⟨y, hy, hR⟩ := h a mem_cons_self x hx
    obtain ⟨ys, hys, hRs⟩ := ih (fun b hb => h b (mem_cons_of_mem _ hb)) hrest
    exact ⟨y :: ys, mapM_cons_eq_some.mpr ⟨y, ys, hy, hys, rfl⟩, .cons hR hRs⟩

theorem mapM_of_parts {P : τ' → Prop} (h : ∀ a ∈ l, ∀ y, f' a = some y → P y → ∃ x, f a = some x) :
    ∀ {ys : List τ'}, l.mapM f' = some ys → (∀ y ∈ ys, P y) → ∃ xs, l.mapM f = some xs := by
  induction l with
  | nil => exact fun _ _ => ⟨[], rfl⟩
  | cons a l ih =>
    intro ys hys hP
    obtain ⟨y, ys, hy, hrest, rfl⟩ := mapM_cons_eq_some.mp hys
    obtain ⟨x, hx⟩ := h a mem_cons_self y hy (hP y mem_cons_self)
    obtain ⟨xs, hxs⟩ := ih (fun b hb => h b (mem_cons_of_mem _ hb)) hrest
      fun z hz => hP z (mem_cons_of_mem _ hz)
    exact ⟨x :: xs, mapM_cons_eq_some.mpr ⟨x, xs, hx, hxs, rfl⟩⟩

/-! ## Computations with fuel -/

/-- A computation has the fuel it needs, and ends in an outcome. -/
def Ends (x : ExceptT ε Option σ) (good : σ → Prop) (bad : Prop) : Prop :=
  ∃ y, x.run = some y ∧ Outcome y good bad

theorem Ends.ok {s : σ} (h : good s) : Ends (ε := ε) (pure s) good bad := ⟨_, rfl, .ok h⟩

theorem Ends.error {e : ε} (h : bad) : Ends (throw e : ExceptT ε Option σ) good bad :=
  ⟨_, rfl, .error h⟩

theorem Ends.mono {x : ExceptT ε Option σ} {good' : σ → Prop} {bad' : Prop} (h : Ends x good bad)
    (hgood : ∀ s, good s → good' s) (hbad : bad → bad') : Ends x good' bad' :=
  h.imp fun _ hy => ⟨hy.1, hy.2.mono hgood hbad⟩

theorem Ends.bind {x : ExceptT ε Option σ} {f : σ → ExceptT ε Option τ} {good' : τ → Prop}
    (hx : Ends x good bad) (hf : ∀ s, good s → Ends (f s) good' bad) :
    Ends (x >>= f) good' bad := by
  obtain ⟨y, hy, ⟨s, rfl, hs⟩ | ⟨⟨e, rfl⟩, hbad⟩⟩ := hx
  · obtain ⟨z, hz, hout⟩ := hf s hs
    exact ⟨z, by rw [ExceptT.run_bind, hy]; exact hz, hout⟩
  · exact ⟨.error e, by rw [ExceptT.run_bind, hy]; rfl, .error hbad⟩

theorem Ends.mapM {f : α → ExceptT ε Option τ} {Good : α → τ → Prop} {Bad : α → Prop}
    (h : ∀ a ∈ l, Ends (f a) (Good a) (Bad a)) :
    Ends (l.mapM f) (List.Forall₂ Good l) (∃ a ∈ l, Bad a) := by
  induction l with
  | nil => exact .ok .nil
  | cons a l ih =>
    rw [mapM_cons]
    refine Ends.bind ((h a mem_cons_self).mono (fun x hx => hx) fun hbad =>
      ⟨a, mem_cons_self, hbad⟩) fun x hx => ?_
    refine Ends.bind ((ih fun b hb => h b (mem_cons_of_mem _ hb)).mono (fun xs hxs => hxs)
      fun ⟨b, hb, hbad⟩ => ⟨b, mem_cons_of_mem _ hb, hbad⟩) fun xs hxs => ?_
    exact .ok (.cons hx hxs)

end Lib.Loop
