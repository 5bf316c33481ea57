/-
# Binary64 comparison of 64-bit integers

A C++ function that takes `double` parameters and is called with `int64_t` arguments compares
the ROUNDED values.  This module is the arithmetic of that conversion: rounding an integer to a
53-bit significand, ties to even (`toBinary64`), and the three facts every argument about a
comparison through `double` needs -- the conversion is monotone (`toBinary64_mono`), it is exact
up to `2 ^ 53` (`toBinary64_of_natAbs_lt`), and it moves a value by at most half a quantum
(`toBinary64_error`).
-/
import Mathlib.Data.Nat.Log
import Mathlib.Data.Int.ConditionallyCompleteOrder
import Mathlib.Tactic.Linarith
import Mathlib.Tactic.Ring

namespace Lib.Binary64

/-! ## 1. Rounding to a multiple -/

/-- The multiple of `q` nearest to `n`, a tie going to the even multiple. -/
def roundTo (q n : Int) : Int :=
  let k := n / q
  let r := n % q
  if 2 * r < q ∨ (2 * r = q ∧ k % 2 = 0) then k * q else (k + 1) * q

theorem roundTo_one (n : Int) : roundTo 1 n = n := by
  simp [roundTo]

variable {q : Int}

theorem roundTo_error (hq : 0 < q) (n : Int) :
    2 * (roundTo q n - n) ≤ q ∧ 2 * (n - roundTo q n) ≤ q := by
  have hdiv : n / q * q + n % q = n := Int.ediv_mul_add_emod n q
  have hlt : n % q < q := Int.emod_lt_of_pos n hq
  have hnn : 0 ≤ n % q := Int.emod_nonneg n (ne_of_gt hq)
  have hsucc : (n / q + 1) * q = n / q * q + q := by ring
  simp only [roundTo]
  split
  · rename_i h
    constructor <;> omega
  · rename_i h
    rw [hsucc]
    constructor <;> omega

theorem mul_le_roundTo (hq : 0 < q) {a n : Int} (h : a * q ≤ n) :
    a * q ≤ roundTo q n := by
  have hak : a ≤ n / q := (Int.le_ediv_iff_mul_le hq).mpr h
  have hkq : a * q ≤ n / q * q := Int.mul_le_mul_of_nonneg_right hak (le_of_lt hq)
  have hsucc : (n / q + 1) * q = n / q * q + q := by ring
  simp only [roundTo]
  split <;> omega

theorem roundTo_le_mul (hq : 0 < q) {a n : Int} (h : n ≤ a * q) :
    roundTo q n ≤ a * q := by
  have hdiv : n / q * q + n % q = n := Int.ediv_mul_add_emod n q
  have hnn : 0 ≤ n % q := Int.emod_nonneg n (ne_of_gt hq)
  have hka : n / q ≤ a := by
    have : n / q * q ≤ a * q := by omega
    exact le_of_mul_le_mul_right this hq
  simp only [roundTo]
  split
  · exact Int.mul_le_mul_of_nonneg_right hka (le_of_lt hq)
  · rename_i hr
    -- a value above the midpoint is not itself a multiple, so `k < a`
    have hpos : 0 < n % q := by
      rcases lt_or_eq_of_le hnn with h0 | h0
      · exact h0
      · exact absurd (Or.inl (by omega)) hr
    have hlt : n / q < a := by
      rcases lt_or_eq_of_le hka with h0 | h0
      · exact h0
      · rw [h0] at hdiv; omega
    exact Int.mul_le_mul_of_nonneg_right (by omega) (le_of_lt hq)

theorem roundTo_mono (hq : 0 < q) {m n : Int} (h : m ≤ n) :
    roundTo q m ≤ roundTo q n := by
  have hdm : m / q * q + m % q = m := Int.ediv_mul_add_emod m q
  have hdn : n / q * q + n % q = n := Int.ediv_mul_add_emod n q
  have hk : m / q ≤ n / q := Int.ediv_le_ediv hq h
  rcases lt_or_eq_of_le hk with hlt | heq
  · -- the multiple just above `m` separates the two
    have hm : roundTo q m ≤ (m / q + 1) * q := by
      refine roundTo_le_mul hq ?_
      have := Int.emod_lt_of_pos m hq
      have hs : (m / q + 1) * q = m / q * q + q := by ring
      omega
    have hn : (m / q + 1) * q ≤ roundTo q n := by
      refine mul_le_roundTo hq ?_
      have hs : (m / q + 1) * q ≤ n / q * q :=
        Int.mul_le_mul_of_nonneg_right (by omega) (le_of_lt hq)
      have := Int.emod_nonneg n (ne_of_gt hq)
      omega
    exact le_trans hm hn
  · have hs : (n / q + 1) * q = n / q * q + q := by ring
    simp only [roundTo, heq] at *
    split <;> split <;> omega

theorem roundTo_neg (hq : 0 < q) (n : Int) : roundTo q (-n) = -roundTo q n := by
  have hdiv : n / q * q + n % q = n := Int.ediv_mul_add_emod n q
  have hlt : n % q < q := Int.emod_lt_of_pos n hq
  have hnn : 0 ≤ n % q := Int.emod_nonneg n (ne_of_gt hq)
  have hsucc : (n / q + 1) * q = n / q * q + q := by ring
  by_cases h0 : n % q = 0
  · have hd : -n / q = -(n / q) ∧ -n % q = 0 := by
      refine Int.ediv_emod_unique hq |>.mpr ⟨?_, le_refl 0, hq⟩
      have : q * -(n / q) = -(n / q * q) := by ring
      omega
    have hr : 2 * (0 : Int) < q := by omega
    simp only [roundTo, hd.1, hd.2, h0, hr, true_or, if_true]
    ring
  · have hd : -n / q = -(n / q) - 1 ∧ -n % q = q - n % q := by
      refine Int.ediv_emod_unique hq |>.mpr ⟨?_, by omega, by omega⟩
      have : q * (-(n / q) - 1) = -(n / q * q) - q := by ring
      omega
    have hk : (-(n / q) - 1) * q = -(n / q * q) - q := by ring
    have hk1 : (-(n / q) - 1 + 1) * q = -(n / q * q) := by ring
    simp only [roundTo, hd.1, hd.2, hk, hk1, hsucc]
    split <;> split <;> omega

/-! ## 2. The conversion `int64 → double` -/

/-- The distance between neighbouring doubles in the binade of `n` (at least `1`: the fraction
bits below the unit are not needed for an integer). -/
def quantum (n : Int) : Int := 2 ^ (Nat.log 2 n.natAbs - 52)

/-- `static_cast<double>(n)`, as the integer it denotes. -/
def toBinary64 (n : Int) : Int := roundTo (quantum n) n

theorem quantum_pos (n : Int) : 0 < quantum n := by
  unfold quantum
  positivity

theorem quantum_neg (n : Int) : quantum (-n) = quantum n := by
  simp [quantum]

variable {n : Int}

theorem toBinary64_of_natAbs_lt (h : n.natAbs < 2 ^ 53) : toBinary64 n = n := by
  have hlog : Nat.log 2 n.natAbs ≤ 52 := Nat.lt_succ_iff.mp (Nat.log_lt_of_lt_pow' (by decide) h)
  have hq : quantum n = 1 := by
    unfold quantum
    rw [Nat.sub_eq_zero_of_le hlog, pow_zero]
  unfold toBinary64
  rw [hq, roundTo_one]

theorem toBinary64_error (n : Int) :
    2 * (toBinary64 n - n) ≤ quantum n ∧ 2 * (n - toBinary64 n) ≤ quantum n :=
  roundTo_error (quantum_pos n) n

/-- The lower end of the binade of `n` is a multiple of its quantum. -/
theorem binade_low (h : 0 < n) :
    ∃ a : Int, a * quantum n = 2 ^ Nat.log 2 n.natAbs ∧ a * quantum n ≤ n := by
  have hne : n.natAbs ≠ 0 := by omega
  have hle : 2 ^ Nat.log 2 n.natAbs ≤ n.natAbs := Nat.pow_log_le_self 2 hne
  have hcast : (2 : Int) ^ Nat.log 2 n.natAbs ≤ n := by
    have hnn : (n.natAbs : Int) = n := Int.natAbs_of_nonneg (le_of_lt h)
    calc (2 : Int) ^ Nat.log 2 n.natAbs = ((2 ^ Nat.log 2 n.natAbs : Nat) : Int) := by push_cast; rfl
      _ ≤ (n.natAbs : Int) := Int.ofNat_le.mpr hle
      _ = n := hnn
  refine ⟨2 ^ (Nat.log 2 n.natAbs - (Nat.log 2 n.natAbs - 52)), ?_, ?_⟩
  · unfold quantum
    rw [← pow_add]
    congr 1
    omega
  · unfold quantum
    rw [← pow_add]
    calc (2 : Int) ^ (Nat.log 2 n.natAbs - (Nat.log 2 n.natAbs - 52) + (Nat.log 2 n.natAbs - 52))
        = 2 ^ Nat.log 2 n.natAbs := by congr 1; omega
      _ ≤ n := hcast

/-- The upper end of the binade of `n` is a multiple of its quantum. -/
theorem binade_high (h : 0 < n) :
    ∃ a : Int, a * quantum n = 2 ^ (Nat.log 2 n.natAbs + 1) ∧ n ≤ a * quantum n := by
  have hlt : n.natAbs < 2 ^ (Nat.log 2 n.natAbs + 1) := Nat.lt_pow_succ_log_self (by decide) _
  have hcast : n ≤ (2 : Int) ^ (Nat.log 2 n.natAbs + 1) := by
    have hnn : (n.natAbs : Int) = n := Int.natAbs_of_nonneg (le_of_lt h)
    calc n = (n.natAbs : Int) := hnn.symm
      _ ≤ ((2 ^ (Nat.log 2 n.natAbs + 1) : Nat) : Int) := Int.ofNat_le.mpr (le_of_lt hlt)
      _ = (2 : Int) ^ (Nat.log 2 n.natAbs + 1) := by push_cast; rfl
  have heq : (2 : Int) ^ (Nat.log 2 n.natAbs + 1 - (Nat.log 2 n.natAbs - 52)) * quantum n
      = 2 ^ (Nat.log 2 n.natAbs + 1) := by
    unfold quantum
    rw [← pow_add]
    congr 1
    omega
  exact ⟨_, heq, heq ▸ hcast⟩

theorem toBinary64_nonneg (h : 0 ≤ n) : 0 ≤ toBinary64 n := by
  have := mul_le_roundTo (quantum_pos n) (a := 0) (n := n) (by simpa using h)
  simpa [toBinary64] using this

theorem toBinary64_nonpos (h : n ≤ 0) : toBinary64 n ≤ 0 := by
  have := roundTo_le_mul (quantum_pos n) (a := 0) (n := n) (by simpa using h)
  simpa [toBinary64] using this

theorem toBinary64_le_of_log_lt {m n : Int} (hm : 0 < m) (hn : 0 < n)
    (h : Nat.log 2 m.natAbs < Nat.log 2 n.natAbs) : toBinary64 m ≤ toBinary64 n := by
  obtain ⟨a, ha, hma⟩ := binade_high hm
  obtain ⟨b, hb, hbn⟩ := binade_low hn
  calc toBinary64 m ≤ a * quantum m := roundTo_le_mul (quantum_pos m) hma
    _ = 2 ^ (Nat.log 2 m.natAbs + 1) := ha
    _ ≤ 2 ^ Nat.log 2 n.natAbs := pow_le_pow_right₀ (by decide) h
    _ = b * quantum n := hb.symm
    _ ≤ toBinary64 n := mul_le_roundTo (quantum_pos n) hbn

theorem toBinary64_mono_pos {m n : Int} (hm : 0 < m) (h : m ≤ n) :
    toBinary64 m ≤ toBinary64 n := by
  have hlog : Nat.log 2 m.natAbs ≤ Nat.log 2 n.natAbs := Nat.log_mono_right (by omega)
  rcases lt_or_eq_of_le hlog with hlt | heq
  · exact toBinary64_le_of_log_lt hm (by omega) hlt
  · have hq : quantum m = quantum n := by unfold quantum; rw [heq]
    unfold toBinary64
    rw [hq]
    exact roundTo_mono (quantum_pos n) h

theorem toBinary64_neg (n : Int) : toBinary64 (-n) = -toBinary64 n := by
  unfold toBinary64
  rw [quantum_neg, roundTo_neg (quantum_pos n)]

/-- **The conversion is monotone**, so an order decided on the rounded values is never the
reverse of the order of the integers: it can only lose a strict inequality. -/
theorem toBinary64_mono : Monotone toBinary64 := by
  intro m n h
  rcases lt_trichotomy 0 m with hm | hm | hm
  · exact toBinary64_mono_pos hm h
  · exact le_trans (toBinary64_nonpos (by omega)) (toBinary64_nonneg (by omega))
  · rcases le_or_gt 0 n with hn | hn
    · exact le_trans (toBinary64_nonpos (le_of_lt hm)) (toBinary64_nonneg hn)
    · -- both negative: reflect
      have := toBinary64_mono_pos (m := -n) (n := -m) (by omega) (by omega)
      rw [toBinary64_neg, toBinary64_neg] at this
      omega

theorem toBinary64_near (hlo : -2 ^ 63 ≤ n) (hhi : n ≤ 2 ^ 63) :
    n - 1024 ≤ toBinary64 n ∧ toBinary64 n ≤ n + 1024 := by
  have hlog : Nat.log 2 n.natAbs ≤ 63 := by
    refine Nat.lt_succ_iff.mp (Nat.log_lt_of_lt_pow' (by decide) ?_)
    omega
  have hq : quantum n ≤ 2 ^ 11 := by
    unfold quantum
    exact pow_le_pow_right₀ (by decide) (by omega)
  obtain ⟨h1, h2⟩ := toBinary64_error n
  constructor <;> omega

theorem toBinary64_lt_of_add_lt {m n : Int} (hm : -2 ^ 63 ≤ m) (hn : n ≤ 2 ^ 63)
    (h : m + 2048 < n) : toBinary64 m < toBinary64 n := by
  have h1 := (toBinary64_near hm (by omega)).2
  have h2 := (toBinary64_near (show -2 ^ 63 ≤ n by omega) hn).1
  omega

end Lib.Binary64

/-! ## 3. The values of a `double` and the comparison operators

It also carries the IEEE comparison operators on the values a `double` can take (`Binary64`).
Signed zeros compare equal, so a finite value is represented by the rational it denotes. -/

namespace Lib

/-- A `double`: the two zeros are one value, since no comparison tells them apart. -/
inductive Binary64 where
  | nan
  | inf (negative : Bool)
  | finite (value : ℚ)
  deriving DecidableEq

namespace Binary64

/-- The value of a bit pattern. -/
def ofBits (bits : BitVec 64) : Binary64 :=
  let exponent := (bits.extractLsb' 52 11).toNat
  let fraction := (bits.extractLsb' 0 52).toNat
  if exponent = 2047 then (if fraction = 0 then .inf bits.msb else .nan)
  else
    let magnitude : ℚ :=
      if exponent = 0 then fraction / 2 ^ 1074
      else (2 ^ 52 + fraction) * 2 ^ exponent / 2 ^ 1075
    .finite (if bits.msb then -magnitude else magnitude)

/-- `static_cast<double>` of an integer. -/
def ofInt (n : Int) : Binary64 := .finite (toBinary64 n)

/-- `lhs == rhs`. -/
def eqb : Binary64 → Binary64 → Bool
  | nan, _ => false
  | _, nan => false
  | inf a, inf b => a == b
  | finite a, finite b => a == b
  | _, _ => false

/-- `lhs < rhs`. -/
def ltb : Binary64 → Binary64 → Bool
  | nan, _ => false
  | _, nan => false
  | inf a, inf b => a && !b
  | inf a, finite _ => a
  | finite _, inf b => !b
  | finite a, finite b => decide (a < b)

/-- `lhs <= rhs`. -/
def leb (a b : Binary64) : Bool := ltb a b || eqb a b

@[simp] theorem ltb_ofInt (m n : Int) :
    ltb (ofInt m) (ofInt n) = decide (toBinary64 m < toBinary64 n) := by
  simp only [ofInt, ltb, Int.cast_lt]

@[simp] theorem eqb_ofInt (m n : Int) :
    eqb (ofInt m) (ofInt n) = decide (toBinary64 m = toBinary64 n) := by
  simp only [ofInt, eqb, beq_eq_decide, Int.cast_inj]

@[simp] theorem leb_ofInt (m n : Int) :
    leb (ofInt m) (ofInt n) = decide (toBinary64 m ≤ toBinary64 n) := by
  unfold leb
  rw [ltb_ofInt, eqb_ofInt, ← Bool.decide_or]
  exact decide_eq_decide.mpr le_iff_lt_or_eq.symm

end Binary64

end Lib
