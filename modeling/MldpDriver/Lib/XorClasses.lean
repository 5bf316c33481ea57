/-
# Residue classes under an exclusive or

Two numbers fall into one class modulo `n`.  Do they still, after the bits of a fixed mask are
flipped in both?  Modulo a power of two they always do (`not_splits_of_two_pow`), since flipping is
then a function of the residue.  Modulo any other `n` below `2 ^ 32` every class falls apart, if the
mask passes two small checks of its upper half (`splits_of_mask`).
-/
import Mathlib.Data.Nat.Factorization.Basic
import Mathlib.Data.Int.ModEq
import Mathlib.Tactic.Ring

namespace Lib.XorClasses

/-! ## 1. Bits -/

theorem xor_add_two_mul_and (x mask : Nat) : (x ^^^ mask) + 2 * (x &&& mask) = x + mask := by
  induction x using Nat.strongRecOn generalizing mask with
  | ind x ih =>
    rcases Nat.eq_zero_or_pos x with rfl | hx
    · simp
    · have hhalf := ih (x / 2) (Nat.div_lt_self hx (by decide)) (mask / 2)
      have hxor := Nat.div_add_mod (x ^^^ mask) 2
      have hand := Nat.div_add_mod (x &&& mask) 2
      have hx2 := Nat.div_add_mod x 2
      have hm2 := Nat.div_add_mod mask 2
      have hxd : (x ^^^ mask) / 2 = x / 2 ^^^ mask / 2 := Nat.xor_div_two
      have had : (x &&& mask) / 2 = x / 2 &&& mask / 2 := Nat.and_div_two
      have hbits : (x ^^^ mask) % 2 + 2 * ((x &&& mask) % 2) = x % 2 + mask % 2 := by
        have h1 : (x ^^^ mask) % 2 ^ 1 = x % 2 ^ 1 ^^^ mask % 2 ^ 1 := Nat.xor_mod_two_pow
        have h2 : (x &&& mask) % 2 ^ 1 = x % 2 ^ 1 &&& mask % 2 ^ 1 := Nat.and_mod_two_pow
        rw [pow_one] at h1 h2
        rw [h1, h2]
        rcases Nat.mod_two_eq_zero_or_one x with hx | hx <;>
          rcases Nat.mod_two_eq_zero_or_one mask with hm | hm <;> rw [hx, hm] <;> rfl
      omega

/-- The bits below and from place `t` on. -/
theorem and_split (t x mask : Nat) :
    x &&& mask = 2 ^ t * (x / 2 ^ t &&& mask / 2 ^ t) + (x % 2 ^ t &&& mask % 2 ^ t) := by
  rw [← Nat.and_div_two_pow, ← Nat.and_mod_two_pow, Nat.div_add_mod]

/-! ## 2. Classes -/

/-- Two 64-bit numbers of the class `p` are in different classes once the mask is flipped. -/
def Splits (mask n p : Nat) : Prop :=
  ∃ x y, x < 2 ^ 64 ∧ y < 2 ^ 64 ∧ x % n = p ∧ y % n = p ∧ (x ^^^ mask) % n ≠ (y ^^^ mask) % n

theorem not_splits_of_two_pow (mask k p : Nat) : ¬ Splits mask (2 ^ k) p := by
  rintro ⟨x, y, _, _, hx, hy, hne⟩
  exact hne (by rw [Nat.xor_mod_two_pow, Nat.xor_mod_two_pow, hx, hy])

/-- Where a class stays together, the bits under the mask agree up to a factor of 2. -/
theorem two_mul_and_modEq {mask n x y : Nat} (hxy : x ≡ y [MOD n])
    (hflip : x ^^^ mask ≡ y ^^^ mask [MOD n]) :
    2 * (x &&& mask) ≡ 2 * (y &&& mask) [MOD n] := by
  have hsum : (x ^^^ mask) + 2 * (x &&& mask) ≡ (y ^^^ mask) + 2 * (y &&& mask) [MOD n] := by
    rw [xor_add_two_mul_and, xor_add_two_mul_and]
    exact hxy.add_right mask
  exact Nat.ModEq.add_left_cancel hflip hsum

/-! ## 3. What adding the odd part gains

The argument: `x ^^^ mask = x + mask - 2 * (x &&& mask)`, so the class would have to be constant
under `&&&` as well, modulo the odd part `m` of `n`.  Adding `m` to the upper half of `x` keeps the
class, so `m` would divide what this adds under the mask (`gain`), at one place and at the next; but
there is a place where the two differ by 1, 2 or 4. -/

/-- What the mask sees of `m` added at `w`. -/
def gain (mask m w : Nat) : Int := ((w + m &&& mask : Nat) : Int) - ((w &&& mask : Nat) : Int)

theorem exists_low {n p : Nat} (hp : p < n) (v : Nat) : ∃ low, low < n ∧ (low + v) % n = p := by
  have hpos : 0 < n := by omega
  have hlt := Nat.mod_lt v hpos
  refine ⟨(p + (n - v % n)) % n, Nat.mod_lt _ hpos, ?_⟩
  have hmod : (p + (n - v % n)) % n + v ≡ p [MOD n] := by
    calc (p + (n - v % n)) % n + v ≡ p + (n - v % n) + v % n [MOD n] :=
          Nat.ModEq.add (Nat.mod_modEq _ _) (Nat.mod_modEq _ _).symm
      _ = p + n := by omega
      _ ≡ p [MOD n] := Nat.add_mod_right p n
  rw [hmod, Nat.mod_eq_of_lt hp]

theorem and_halves {low : Nat} (hlow : low < 2 ^ 32) (w mask : Nat) :
    low + 2 ^ 32 * w &&& mask = 2 ^ 32 * (w &&& mask / 2 ^ 32) + (low &&& mask % 2 ^ 32) := by
  have hdiv : (low + 2 ^ 32 * w) / 2 ^ 32 = w := by omega
  have hmod : (low + 2 ^ 32 * w) % 2 ^ 32 = low := by omega
  rw [and_split 32 (low + 2 ^ 32 * w), hdiv, hmod]

/-- **A class that stays together**: the odd part divides every gain in the upper half. -/
theorem dvd_gain {mask a m p : Nat} (hodd : Odd m) (hle : 2 ^ a * m < 2 ^ 32)
    (hp : p < 2 ^ a * m) (h : ¬ Splits mask (2 ^ a * m) p) {w : Nat} (hw : w + m < 2 ^ 32) :
    (m : Int) ∣ gain (mask / 2 ^ 32) m w := by
  have hm : 0 < m := Nat.pos_of_ne_zero fun h0 => by simp [h0] at hp
  have ha : a ≤ 32 := by
    by_contra hlt
    have h1 : 2 ^ 32 ≤ 2 ^ a := Nat.pow_le_pow_right (by decide) (by omega)
    have h2 : 2 ^ a * 1 ≤ 2 ^ a * m := Nat.mul_le_mul_left _ hm
    omega
  have h32 : 2 ^ 32 * m = 2 ^ a * m * 2 ^ (32 - a) := by
    rw [show (2 : Nat) ^ 32 = 2 ^ a * 2 ^ (32 - a) by rw [← pow_add, Nat.add_sub_cancel' ha]]
    ring
  -- the lower half brings the number into the class, and adding `m` to the upper half keeps it
  obtain ⟨low, hlow, hx⟩ := exists_low hp (2 ^ 32 * w)
  have hy : (low + 2 ^ 32 * (w + m)) % (2 ^ a * m) = p := by
    rw [Nat.mul_add, ← Nat.add_assoc, h32, Nat.add_mul_mod_self_left, hx]
  have hflip : (low + 2 ^ 32 * w) ^^^ mask ≡ (low + 2 ^ 32 * (w + m)) ^^^ mask
      [MOD 2 ^ a * m] := by
    by_contra hne
    exact h ⟨_, _, by omega, by omega, hx, hy, hne⟩
  have hand := (two_mul_and_modEq (hx.trans hy.symm) hflip).of_dvd (Nat.dvd_mul_left m (2 ^ a))
  rw [and_halves (by omega), and_halves (by omega)] at hand
  have hdvd := Nat.modEq_iff_dvd.mp hand
  have hmul : (m : Int) ∣ 2 ^ 33 * gain (mask / 2 ^ 32) m w := by
    have heq : 2 ^ 33 * gain (mask / 2 ^ 32) m w =
        ((2 * (2 ^ 32 * (w + m &&& mask / 2 ^ 32) + (low &&& mask % 2 ^ 32)) : Nat) : Int) -
          ((2 * (2 ^ 32 * (w &&& mask / 2 ^ 32) + (low &&& mask % 2 ^ 32)) : Nat) : Int) := by
      rw [gain]
      push_cast
      ring
    rw [heq]
    exact hdvd
  have hcop : Int.gcd m (2 ^ 33) = 1 := Nat.Coprime.pow_right 33 hodd.coprime_two_right
  exact Int.dvd_of_dvd_mul_right_of_gcd_one hmul hcop

/-! ## 4. Two places next to each other -/

/-- What the mask sees of adding 1 to three low bits `r` that do not carry over. -/
def rise (mask r : Nat) : Int := ((r + 1 &&& mask % 8 : Nat) : Int) - ((r &&& mask % 8 : Nat) : Int)

theorem and_succ (mask : Nat) {v : Nat} (hv : v % 8 < 7) :
    ((v + 1 &&& mask : Nat) : Int) - ((v &&& mask : Nat) : Int) = rise mask (v % 8) := by
  have hdiv : (v + 1) / 2 ^ 3 = v / 2 ^ 3 := by omega
  have hmod : (v + 1) % 2 ^ 3 = v % 8 + 1 := by omega
  have h1 := and_split 3 (v + 1) mask
  have h2 := and_split 3 v mask
  rw [hdiv, hmod] at h1
  rw [h1, h2, rise, show (2 : Nat) ^ 3 = 8 from rfl]
  push_cast
  ring

/-- **The gain at the next place.** -/
theorem gain_succ (mask m : Nat) {w : Nat} (hw : w % 8 < 7) (hwm : (w + m) % 8 < 7) :
    gain mask m (w + 1) - gain mask m w = rise mask ((w + m) % 8) - rise mask (w % 8) := by
  have h1 := and_succ mask hw
  have h2 := and_succ mask hwm
  rw [gain, gain, ← h1, ← h2, Nat.add_right_comm]
  ring

/-! ## 5. Every class falls apart -/

theorem odd_not_dvd_four {m : Nat} (hodd : Odd m) (h3 : 3 ≤ m) {d : Int} (hd : d ∣ 4)
    (h : (m : Int) ∣ d) : False := by
  have h4 : m ∣ 4 := by exact_mod_cast h.trans hd
  have hle := Nat.le_of_dvd (by decide) h4
  obtain ⟨k, rfl⟩ := hodd
  have : k = 1 := by omega
  subst this
  exact absurd h4 (by decide)

/-- **Modulo a number with an odd part every class falls apart.**  The first check finds, for every
odd `m` modulo 8, a place where the gain of `m` changes by a divisor of 4; the second one is about
the few `m` that leave no room for such a place. -/
theorem splits_of_mask {mask n p : Nat}
    (hplaces : ∀ r ∈ [1, 3, 5, 7], ∃ w < 7, (w + r) % 8 < 7 ∧
      rise (mask / 2 ^ 32) ((w + r) % 8) - rise (mask / 2 ^ 32) w ∣ 4)
    (hlast : mask / 2 ^ 32 < 2 ^ 32 - 7 ∧
      ∀ e ∈ [1, 3, 5, 7], 2 ^ 32 - e &&& mask / 2 ^ 32 ≠ 0)
    (hn : n < 2 ^ 32) (hpow : ∀ k, n ≠ 2 ^ k) (hp : p < n) : Splits mask n p := by
  obtain ⟨a, m, hodd, rfl⟩ := Nat.exists_eq_two_pow_mul_odd (n := n) (by omega)
  have hm1 : m ≠ 1 := fun h1 => hpow a (by rw [h1, Nat.mul_one])
  have hmod2 := Nat.odd_iff.mp hodd
  have h3 : 3 ≤ m := by omega
  have hm : m < 2 ^ 32 := Nat.lt_of_le_of_lt (Nat.le_mul_of_pos_left m (Nat.two_pow_pos a)) hn
  by_contra h
  have hdvd {w : Nat} (hw : w + m < 2 ^ 32) := dvd_gain hodd hn hp h hw
  by_cases hroom : m < 2 ^ 32 - 7
  · -- two places next to each other
    have hmem : m % 8 ∈ [1, 3, 5, 7] := by
      have : m % 8 = 1 ∨ m % 8 = 3 ∨ m % 8 = 5 ∨ m % 8 = 7 := by omega
      simpa using this
    obtain ⟨w, hw, hwm, hd⟩ := hplaces (m % 8) hmem
    have hplace : (w + m) % 8 = (w + m % 8) % 8 := by omega
    have hchange := gain_succ (mask / 2 ^ 32) m (w := w) (by omega) (by omega)
    rw [hplace, Nat.mod_eq_of_lt (by omega : w < 8)] at hchange
    refine odd_not_dvd_four hodd h3 hd ?_
    rw [← hchange]
    exact dvd_sub (hdvd (by omega)) (hdvd (by omega))
  · -- hardly any room: the gain at 0 is positive and below `m`
    have he : 2 ^ 32 - m ∈ [1, 3, 5, 7] := by
      have : 2 ^ 32 - m = 1 ∨ 2 ^ 32 - m = 3 ∨ 2 ^ 32 - m = 5 ∨ 2 ^ 32 - m = 7 := by omega
      simpa using this
    have hne := hlast.2 _ he
    rw [Nat.sub_sub_self (by omega : m ≤ 2 ^ 32)] at hne
    have hgain := hdvd (w := 0) (by omega)
    rw [gain, Nat.zero_add, Nat.zero_and, Int.natCast_zero, Int.sub_zero, Int.natCast_dvd_natCast]
      at hgain
    have hle := Nat.le_of_dvd (Nat.pos_of_ne_zero hne) hgain
    have hland : m &&& mask / 2 ^ 32 ≤ mask / 2 ^ 32 := Nat.and_le_right
    have := hlast.1
    omega

end Lib.XorClasses
