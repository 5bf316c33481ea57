/-
# Cutting a closed interval into half-open pieces

A closed interval `[b, e]` is cut at interior points; every piece but the last is half open, the
last one is closed.  A point is tested against a piece through a monotone map `f` (the identity,
or a lossy conversion both sides of the test go through).
-/
import Mathlib.Data.Int.Order.Basic
import Mathlib.Data.List.Basic
import Mathlib.Order.Monotone.Defs
import Mathlib.Tactic.Linarith
import Mathlib.Tactic.Ring

namespace Lib.Tiling

open List

variable {α β : Type} [LinearOrder α] [LinearOrder β]

/-! ## 1. Pieces and cuts

The one fact used over and over is `Cut.countP_keeps`: whatever the cut points, EXACTLY ONE
piece keeps a point whose image lies between the images of the ends, and no piece keeps another
point.  `evenPieces_cut` instantiates it at the cut of an integer interval in equal steps. -/

/-- A piece of a cut: `[start, stop)`, or `[start, stop]` when it is the last one. -/
structure Piece (α : Type) where
  start : α
  stop : α
  last : Bool

/-- The test of a point against a piece, through `f`. -/
def Piece.keeps (f : α → β) (p : Piece α) (t : α) : Bool :=
  decide (f p.start ≤ f t) && if p.last then decide (f t ≤ f p.stop) else decide (f t < f p.stop)

/-- `ps` cuts `[b, e]`: the pieces follow each other without a gap. -/
inductive Cut : α → α → List (Piece α) → Prop
  | last {b e : α} : b ≤ e → Cut b e [⟨b, e, true⟩]
  | cons {b m e : α} {ps : List (Piece α)} : b ≤ m → Cut m e ps → Cut b e (⟨b, m, false⟩ :: ps)

variable {ps : List (Piece α)}
variable {b e : α}

theorem Cut.le (h : Cut b e ps) : b ≤ e := by
  induction h with
  | last h => exact h
  | cons h _ ih => exact le_trans h ih

variable {f : α → β}

/-- **Exactly one piece keeps a point of the interval, and none keeps another point.** -/
theorem Cut.countP_keeps (hf : Monotone f) (h : Cut b e ps) (t : α) :
    ps.countP (Piece.keeps f · t) = if f b ≤ f t ∧ f t ≤ f e then 1 else 0 := by
  induction h with
  | last => simp [Piece.keeps, countP_singleton]
  | @cons b m e ps hbm htail ih =>
    have hb : f b ≤ f m := hf hbm
    have he : f m ≤ f e := hf htail.le
    rw [countP_cons, ih]
    simp only [Piece.keeps, Bool.false_eq_true, if_false, Bool.and_eq_true, decide_eq_true_eq]
    by_cases hm : f m ≤ f t
    · -- the head piece stops before the point
      simp [hm, le_trans hb hm]
    · have hlt : f t < f m := not_le.mp hm
      simp [hm, hlt, le_trans (le_of_lt hlt) he]

theorem Cut.keeps_some (hf : Monotone f) (h : Cut b e ps) {t : α} (hb : f b ≤ f t) (he : f t ≤ f
    e) :
    ∃ p ∈ ps, p.keeps f t = true := by
  have hc := h.countP_keeps hf t
  rw [if_pos ⟨hb, he⟩] at hc
  exact countP_pos_iff.mp (by omega)

theorem Cut.keeps_bounds (hf : Monotone f) (h : Cut b e ps) {t : α} {p : Piece α} (hp : p ∈ ps)
    (hk : p.keeps f t = true) :
    f b ≤ f t ∧ f t ≤ f e := by
  have hpos : 0 < ps.countP (Piece.keeps f · t) := countP_pos_iff.mpr ⟨p, hp, hk⟩
  rw [h.countP_keeps hf t] at hpos
  by_contra hn
  rw [if_neg hn] at hpos
  exact absurd hpos (lt_irrefl 0)

theorem Cut.last_stop (h : Cut b e ps) :
    ∀ p ∈ ps, p.last = true → p.stop = e := by
  induction h with
  | last h =>
    intro p hp _
    rw [mem_singleton.mp hp]
  | cons _ _ ih =>
    intro p hp hl
    rcases mem_cons.mp hp with rfl | hp'
    · exact absurd hl Bool.false_ne_true
    · exact ih p hp' hl

/-- The test that does not bound the last piece above. -/
def Piece.keepsFrom (f : α → β) (p : Piece α) (t : α) : Bool :=
  decide (f p.start ≤ f t) && (p.last || decide (f t < f p.stop))

/-- Exactly one piece keeps a point that is not before the interval, when nothing bounds the last
piece. -/
theorem Cut.countP_keepsFrom (hf : Monotone f) (h : Cut b e ps) (t : α) :
    ps.countP (Piece.keepsFrom f · t) = if f b ≤ f t then 1 else 0 := by
  induction h with
  | last => simp [Piece.keepsFrom, countP_singleton]
  | @cons b m e ps hbm htail ih =>
    have hb : f b ≤ f m := hf hbm
    rw [countP_cons, ih]
    by_cases hm : f m ≤ f t
    · simp [Piece.keepsFrom, not_lt.mpr hm, hm, le_trans hb hm]
    · simp [Piece.keepsFrom, not_le.mp hm, hm]

theorem Cut.keepsFrom_eq (h : Cut b e ps) {p : Piece α} (hp : p ∈ ps) {t : α} (ht : f t ≤ f e) :
    p.keepsFrom f t = p.keeps f t := by
  unfold Piece.keepsFrom Piece.keeps
  cases hl : p.last with
  | true => simp [h.last_stop p hp hl, ht]
  | false => simp

/-! ## 2. Equal steps -/

/-- How many pieces an interval of length `len` has when it is cut every `step`. -/
def stepCount (len step : Int) : Nat := ((len - 1) / step).toNat + 1

/-- The piece number `i` of the cut of `[b, e]` every `step`. -/
def evenPiece (b e step : Int) (i : Nat) : Piece Int :=
  if i + 1 = stepCount (e - b) step then ⟨b + i * step, e, true⟩
  else ⟨b + i * step, b + (i + 1) * step, false⟩

/-- The cut of `[b, e]` every `step`, from piece `i` on. -/
def evenPiecesFrom (b e step : Int) (i : Nat) : List (Piece Int) :=
  (List.range' i (stepCount (e - b) step - i)).map (evenPiece b e step)

def evenPieces (b e step : Int) : List (Piece Int) := evenPiecesFrom b e step 0

theorem stepCount_pos (len step : Int) : 0 < stepCount len step := Nat.succ_pos _

theorem lt_of_lt_stepCount {len step : Int} (hs : 0 < step) {i : Nat}
    (hi : i < stepCount len step) : i = 0 ∨ i * step < len := by
  rcases Nat.eq_zero_or_pos i with h | h
  · exact Or.inl h
  · right
    have hle : (i : Int) ≤ (len - 1) / step := by
      unfold stepCount at hi
      omega
    have := (Int.le_ediv_iff_mul_le hs).mp hle
    omega

theorem succ_eq_stepCount_iff {len step : Int} (hs : 0 < step) {i : Nat}
    (hi : i < stepCount len step) : i + 1 = stepCount len step ↔ len ≤ (i + 1) * step := by
  have key : (len - 1) / step < i + 1 ↔ len - 1 < (i + 1) * step :=
    Int.ediv_lt_iff_lt_mul hs
  unfold stepCount at *
  omega

variable {b e step : Int}

theorem evenPiecesFrom_nil {i : Nat} (h : stepCount (e - b) step ≤ i) :
    evenPiecesFrom b e step i = [] := by
  unfold evenPiecesFrom
  rw [Nat.sub_eq_zero_of_le h]
  rfl

theorem evenPiecesFrom_cons {i : Nat} (h : i < stepCount (e - b) step) :
    evenPiecesFrom b e step i = evenPiece b e step i :: evenPiecesFrom b e step (i + 1) := by
  unfold evenPiecesFrom
  obtain ⟨k, hk⟩ : ∃ k, stepCount (e - b) step - i = k + 1 := ⟨_, (Nat.succ_pred (by omega)).symm⟩
  have hk' : stepCount (e - b) step - (i + 1) = k := by omega
  rw [hk, hk', range'_succ, map_cons]

/-- **The equal steps cut the interval.** -/
theorem evenPiecesFrom_cut (hbe : b ≤ e) (hs : 0 < step) :
    ∀ (k i : Nat), i + k + 1 = stepCount (e - b) step →
      Cut (b + i * step) e (evenPiecesFrom b e step i)
  | 0, i, h => by
    have hi : i < stepCount (e - b) step := by omega
    rw [evenPiecesFrom_cons hi, evenPiecesFrom_nil (by omega)]
    simp only [evenPiece, if_pos h]
    refine Cut.last ?_
    rcases lt_of_lt_stepCount hs hi with h0 | h0
    · subst h0; simpa using hbe
    · omega
  | k + 1, i, h => by
    have hi : i < stepCount (e - b) step := by omega
    have ih := evenPiecesFrom_cut hbe hs k (i + 1) (by omega)
    rw [evenPiecesFrom_cons hi]
    simp only [evenPiece, if_neg (by omega : ¬ i + 1 = stepCount (e - b) step)]
    push_cast at ih
    refine Cut.cons ?_ ih
    have : (i + 1 : Int) * step = i * step + step := by ring
    omega

theorem evenPieces_cut (hbe : b ≤ e) (hs : 0 < step) :
    Cut b e (evenPieces b e step) := by
  have hpos := stepCount_pos (e - b) step
  have := evenPiecesFrom_cut hbe hs (stepCount (e - b) step - 1) 0 (by omega)
  simpa [evenPieces] using this

end Lib.Tiling
