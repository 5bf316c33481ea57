/-
# Appending chunks when an append may fail

`Lib.AppendTable` appends chunks to datasets; here each append may FAIL, at the opening of its
dataset, at the extension, or at the write, when the rows are there and hold whatever they hold.
The first failure ends the run over the chunks.
-/
import MldpDriver.Lib.AppendTable

namespace Lib.TornAppend

open Lib.AppendTable List

variable {K T R : Type}

/-! ## 1. One append -/

/-- Where an append fails; `writing` leaves rows of its own. -/
inductive AppendFault (R : Type)
  | opening
  | extending
  | writing (row : Nat → R)

/-- The dataset was extended before the failure. -/
def AppendFault.extends : AppendFault R → Bool
  | .opening => false
  | .extending => false
  | .writing _ => true

variable [DecidableEq K]

/-- Open or create a dataset and put rows at its end. -/
def extend (t : Table K T R) (key : K) (type : T) (rows : List R) : Table K T R :=
  Function.update t key (some ⟨(t key).elim type (·.type), rowsOf t key ++ rows⟩)

@[simp] theorem rowsOf_extend_self (t : Table K T R) (key : K) (type : T) (rows : List R) :
    rowsOf (extend t key type rows) key = rowsOf t key ++ rows := by
  simp [extend, rowsOf]

theorem rowsOf_extend_of_ne {key k : K} (h : k ≠ key) (t : Table K T R) (type : T)
    (rows : List R) : rowsOf (extend t key type rows) k = rowsOf t k := by
  simp [extend, rowsOf, Function.update_of_ne h]

theorem extend_of_ne {key k : K} (h : k ≠ key) (t : Table K T R) (type : T) (rows : List R) :
    extend t key type rows k = t k := Function.update_of_ne h ..

/-- Append one chunk; `false` says that it failed. -/
def appendUnder (t : Table K T R) (c : Chunk K T R) : Option (AppendFault R) → Table K T R × Bool
  | none => (extend t c.key c.type c.rows, true)
  | some .opening => (t, false)
  | some .extending => (extend t c.key c.type [], false)
  | some (.writing row) => (extend t c.key c.type ((List.range c.rows.length).map row), false)

theorem appendUnder_of_ne {c : Chunk K T R} {k : K} (h : k ≠ c.key) (t : Table K T R)
    (fault : Option (AppendFault R)) : (appendUnder t c fault).1 k = t k := by
  rcases fault with _ | _ | _ | _
  · exact extend_of_ne h ..
  · rfl
  · exact extend_of_ne h ..
  · exact extend_of_ne h ..

/-! ## 2. Chunks in order

`length_appendAllUnder` counts: with chunks of `n` rows, a dataset grows by `n` for each time it is
named among the first `reach` chunks, those whose append extended a dataset.  So datasets of one
length keep one length exactly when they are named equally often there (`Evenly`). -/

/-- Append chunks in order, up to the first that fails; the chunks are numbered from `i`. -/
def appendAllUnder (faults : Nat → Option (AppendFault R)) :
    Nat → Table K T R → List (Chunk K T R) → Table K T R × Bool
  | _, t, [] => (t, true)
  | i, t, c :: cs =>
    match appendUnder t c (faults i) with
    | (t, true) => appendAllUnder faults (i + 1) t cs
    | (t, false) => (t, false)

/-- How many of `n` chunks, numbered from `i`, extend a dataset. -/
def reach (faults : Nat → Option (AppendFault R)) : Nat → Nat → Nat
  | _, 0 => 0
  | i, n + 1 =>
    match faults i with
    | none => reach faults (i + 1) n + 1
    | some fault => fault.extends.toNat

theorem appendAllUnder_append (faults : Nat → Option (AppendFault R)) (i : Nat) (t : Table K T R)
    (cs ds : List (Chunk K T R)) :
    appendAllUnder faults i t (cs ++ ds) =
      if (appendAllUnder faults i t cs).2 then
        appendAllUnder faults (i + cs.length) (appendAllUnder faults i t cs).1 ds
      else appendAllUnder faults i t cs := by
  induction cs generalizing i t with
  | nil => simp [appendAllUnder]
  | cons c cs ih =>
    rw [cons_append, appendAllUnder, appendAllUnder]
    obtain ⟨t', ok⟩ := appendUnder t c (faults i)
    cases ok with
    | true =>
      simp only [ih, length_cons]
      rw [Nat.add_assoc, Nat.add_comm 1]
    | false => simp

variable {faults : Nat → Option (AppendFault R)}

/-- **A dataset grows with every chunk that reaches it.** -/
theorem length_appendAllUnder {n : Nat} {cs : List (Chunk K T R)} (hn : ∀ c ∈ cs, c.rows.length = n)
    (i : Nat) (t : Table K T R) (k : K) :
    (rowsOf (appendAllUnder faults i t cs).1 k).length =
      (rowsOf t k).length + n * ((cs.map (·.key)).take (reach faults i cs.length)).count k := by
  induction cs generalizing i t with
  | nil => simp [appendAllUnder]
  | cons c cs ih =>
    have hc : c.rows.length = n := hn c mem_cons_self
    have hext : ∀ rows : List R, rows.length = n →
        (rowsOf (extend t c.key c.type rows) k).length =
          (rowsOf t k).length + n * [c.key].count k := by
      intro rows hrows
      by_cases hk : k = c.key
      · subst hk
        simp [hrows]
      · rw [rowsOf_extend_of_ne hk, count_singleton, if_neg (by simpa using Ne.symm hk)]
        rfl
    rw [appendAllUnder, length_cons, reach]
    rcases faults i with _ | _ | _ | row
    · simp only [appendUnder, map_cons, take_succ_cons]
      rw [ih (fun c' hc' => hn c' (mem_cons_of_mem _ hc')), hext _ hc, Nat.add_assoc,
        ← Nat.mul_add, ← count_append, singleton_append]
    · simp [appendUnder, AppendFault.extends]
    · by_cases hk : k = c.key
      · subst hk
        simp [appendUnder, AppendFault.extends]
      · simp [appendUnder, AppendFault.extends, rowsOf_extend_of_ne hk]
    · simp only [appendUnder, AppendFault.extends, Bool.toNat_true, map_cons]
      rw [hext _ (by simpa using hc)]
      rfl

theorem appendAllUnder_of_notMem {cs : List (Chunk K T R)} {k : K} (h : ∀ c ∈ cs, k ≠ c.key)
    (i : Nat) (t : Table K T R) :
    (appendAllUnder faults i t cs).1 k = t k := by
  induction cs generalizing i t with
  | nil => rfl
  | cons c cs ih =>
    have hhead := appendUnder_of_ne (h c mem_cons_self) t (faults i)
    rw [appendAllUnder]
    generalize appendUnder t c (faults i) = written at hhead ⊢
    obtain ⟨t', ok⟩ := written
    cases ok with
    | true => exact (ih (fun c' hc' => h c' (mem_cons_of_mem _ hc')) _ t').trans hhead
    | false => exact hhead

/-! ## 3. Named equally often -/

/-- Every name occurs equally often among the first `m`. -/
def Evenly (names : List K) (m : Nat) : Prop :=
  ∀ a ∈ names, ∀ b ∈ names, (names.take m).count a = (names.take m).count b

instance (names : List K) (m : Nat) : Decidable (Evenly names m) :=
  inferInstanceAs (Decidable (∀ a ∈ names, ∀ b ∈ names, _))

end Lib.TornAppend
