/-
# Tables of typed, append-only columns

A table maps a key to a dataset: a type and rows, which only grow.  A chunk is rows of one type for
one key; appending it creates the dataset when there is none.  What happens to rows of another type
than the dataset's is left to the caller (`mismatch`): the write may change the dataset and fail.

`appendAll_fits` is what a list of chunks does when no type clashes: nothing fails, and every
dataset gets the rows of its chunks in their order.  -/
import Mathlib.Data.List.Basic

namespace Lib.AppendTable

open List

variable {K T R : Type}

structure Dataset (T R : Type) where
  type : T
  rows : List R

/-- Rows for one dataset. -/
structure Chunk (K T R : Type) where
  key : K
  type : T
  rows : List R

abbrev Table (K T R : Type) := K → Option (Dataset T R)

/-- The rows under a key; none without a dataset. -/
def rowsOf (t : Table K T R) (k : K) : List R := (t k).elim [] (·.rows)

variable [DecidableEq K] [DecidableEq T]
  (mismatch : Dataset T R → Chunk K T R → Dataset T R × Bool)

/-- Append one chunk; `false` says that it failed. -/
def appendChunk (t : Table K T R) (c : Chunk K T R) : Table K T R × Bool :=
  match t c.key with
  | none => (Function.update t c.key (some ⟨c.type, c.rows⟩), true)
  | some d =>
    if d.type = c.type then (Function.update t c.key (some { d with rows := d.rows ++ c.rows }), true)
    else
      let (d', ok) := mismatch d c
      (Function.update t c.key (some d'), ok)

/-- Append chunks in order, up to the first that fails. -/
def appendAll (t : Table K T R) : List (Chunk K T R) → Table K T R × Bool
  | [] => (t, true)
  | c :: cs =>
    match appendChunk mismatch t c with
    | (t', true) => appendAll t' cs
    | (t', false) => (t', false)

/-- The rows of the chunks of a key, in order. -/
def chunkRows (k : K) (cs : List (Chunk K T R)) : List R :=
  (cs.filter fun c => c.key = k).flatMap (·.rows)

omit [DecidableEq T] in
@[simp] theorem chunkRows_nil (k : K) : chunkRows k ([] : List (Chunk K T R)) = [] := rfl

omit [DecidableEq T] in
theorem chunkRows_cons (k : K) (c : Chunk K T R) (cs : List (Chunk K T R)) :
    chunkRows k (c :: cs) = (if c.key = k then c.rows else []) ++ chunkRows k cs := by
  unfold chunkRows
  rw [filter_cons]
  by_cases h : c.key = k <;> simp [h]

omit [DecidableEq T] in
theorem chunkRows_append (k : K) (cs ds : List (Chunk K T R)) :
    chunkRows k (cs ++ ds) = chunkRows k cs ++ chunkRows k ds := by
  simp [chunkRows]

variable {cs : List (Chunk K T R)}

omit [DecidableEq T] in
theorem chunkRows_of_not_mem {k : K} (h : ∀ c ∈ cs, c.key ≠ k) :
    chunkRows k cs = [] := by
  have : cs.filter (fun c => c.key = k) = [] :=
    filter_eq_nil_iff.mpr fun c hc => by simpa using h c hc
  rw [chunkRows, this]
  rfl

variable {c : Chunk K T R}

omit [DecidableEq T] in
theorem chunkRows_of_mem (hkeys : (cs.map (·.key)).Nodup) (hc : c ∈ cs) :
    chunkRows c.key cs = c.rows := by
  induction cs with
  | nil => cases hc
  | cons d cs ih =>
    rw [map_cons, nodup_cons] at hkeys
    rw [chunkRows_cons]
    rcases mem_cons.mp hc with rfl | hc
    · have hnone : chunkRows c.key cs = [] :=
        chunkRows_of_not_mem fun d hd hkey => hkeys.1 (mem_map.mpr ⟨d, hd, hkey⟩)
      rw [if_pos rfl, hnone, append_nil]
    · have hne : d.key ≠ c.key := fun hkey => hkeys.1 (mem_map.mpr ⟨c, hc, hkey.symm⟩)
      rw [if_neg hne, nil_append, ih hkeys.2 hc]

omit [DecidableEq T] in
theorem pairwise_of_chunkRows (h : ∀ c ∈ cs, chunkRows c.key cs = c.rows) :
    cs.Pairwise fun c d => c.key = d.key → d.rows = [] := by
  induction cs with
  | nil => exact .nil
  | cons c cs ih =>
    have hfirst := h c mem_cons_self
    rw [chunkRows_cons, if_pos rfl, append_right_eq_self] at hfirst
    have hempty : ∀ d ∈ cs, c.key = d.key → d.rows = [] := by
      intro d hd hkey
      have hmem : d ∈ cs.filter fun d => d.key = c.key :=
        mem_filter.mpr ⟨hd, decide_eq_true hkey.symm⟩
      exact flatMap_eq_nil_iff.mp hfirst d hmem
    refine pairwise_cons.mpr ⟨hempty, ih fun d hd => ?_⟩
    have hrest := h d (mem_cons_of_mem _ hd)
    rw [chunkRows_cons] at hrest
    by_cases hkey : c.key = d.key
    · rw [hempty d hd hkey, ← hkey]
      exact hfirst
    · rwa [if_neg hkey, nil_append] at hrest

/-- No chunk is of another type than its dataset, or than another chunk of its key. -/
def Fits (t : Table K T R) (cs : List (Chunk K T R)) : Prop :=
  ∃ type : K → T, ∀ c ∈ cs, c.type = type c.key ∧ ∀ d, t c.key = some d → d.type = type c.key

variable {mismatch}
variable {t : Table K T R}

theorem appendChunk_fits (h : ∀ d, t c.key = some d → d.type = c.type) :
    appendChunk mismatch t c =
      (Function.update t c.key (some ⟨c.type, rowsOf t c.key ++ c.rows⟩), true) := by
  unfold appendChunk rowsOf
  cases ht : t c.key with
  | none => simp
  | some d => simp [← h d ht]

theorem appendAll_append (t : Table K T R) (cs ds : List (Chunk K T R)) :
    appendAll mismatch t (cs ++ ds) =
      if (appendAll mismatch t cs).2 then appendAll mismatch (appendAll mismatch t cs).1 ds
      else appendAll mismatch t cs := by
  induction cs generalizing t with
  | nil => simp [appendAll]
  | cons c cs ih =>
    rw [cons_append, appendAll, appendAll]
    obtain ⟨t', ok⟩ := appendChunk mismatch t c
    cases ok with
    | true => exact ih t'
    | false => simp

omit [DecidableEq T] in
theorem Fits.tail (h : Fits t (c :: cs)) :
    Fits (Function.update t c.key (some ⟨c.type, rowsOf t c.key ++ c.rows⟩)) cs := by
  obtain ⟨type, htype⟩ := h
  refine ⟨type, fun c' hc' => ⟨(htype c' (mem_cons_of_mem _ hc')).1, fun d hd => ?_⟩⟩
  by_cases hk : c'.key = c.key
  · rw [hk, Function.update_self] at hd
    obtain rfl := Option.some.inj hd
    rw [(htype c mem_cons_self).1, hk]
  · rw [Function.update_of_ne hk] at hd
    exact (htype c' (mem_cons_of_mem _ hc')).2 d hd

omit [DecidableEq K] [DecidableEq T] in
theorem Fits.head (h : Fits t (c :: cs)) :
    ∀ d, t c.key = some d → d.type = c.type := by
  obtain ⟨type, htype⟩ := h
  obtain ⟨hc, hd⟩ := htype c mem_cons_self
  exact fun d h => (hd d h).trans hc.symm

/-- **Fitting chunks are all appended**: every dataset gets its rows, and a key has a dataset when
it had one or when there is a chunk for it. -/
theorem appendAll_fits (h : Fits t cs) :
    (appendAll mismatch t cs).2 = true ∧
      (∀ k, rowsOf (appendAll mismatch t cs).1 k = rowsOf t k ++ chunkRows k cs) ∧
      ∀ k, (appendAll mismatch t cs).1 k ≠ none ↔ t k ≠ none ∨ ∃ c ∈ cs, c.key = k := by
  induction cs generalizing t with
  | nil => simp [appendAll]
  | cons c cs ih =>
    rw [appendAll, appendChunk_fits h.head]
    obtain ⟨hok, hrows, hsome⟩ := ih h.tail
    refine ⟨hok, fun k => ?_, fun k => ?_⟩
    · rw [hrows k, chunkRows_cons]
      by_cases hk : c.key = k
      · subst hk
        simp [rowsOf]
      · have hne : k ≠ c.key := fun h => hk h.symm
        simp [rowsOf, Function.update_of_ne hne, hk]
    · rw [hsome k]
      by_cases hk : c.key = k
      · subst hk
        simp
      · have hne : k ≠ c.key := fun h => hk h.symm
        simp [Function.update_of_ne hne, hk]

theorem appendAll_typed {type : K → T} (ht : ∀ k d, t k = some d → d.type = type k)
    (hcs : ∀ c ∈ cs, c.type = type c.key) :
    ∀ k d, (appendAll mismatch t cs).1 k = some d → d.type = type k := by
  induction cs generalizing t with
  | nil => exact ht
  | cons c cs ih =>
    have hc := hcs c mem_cons_self
    rw [appendAll, appendChunk_fits fun d hd => (ht _ d hd).trans hc.symm]
    refine ih (fun k d hd => ?_) fun c' hc' => hcs c' (mem_cons_of_mem _ hc')
    by_cases hk : k = c.key
    · subst hk
      rw [Function.update_self] at hd
      rw [← Option.some.inj hd]
      exact hc
    · rw [Function.update_of_ne hk] at hd
      exact ht k d hd

end Lib.AppendTable
