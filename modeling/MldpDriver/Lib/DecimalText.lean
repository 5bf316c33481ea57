/-
# Numbers as decimal text

What `std::to_string` prints: the digits of a natural number, an integer with its sign, and a
floating-point number with six decimals.  The first two tell the number (`intText_inj`).  The last
tells it to the sixth decimal only (`doubleText_eq`).

The two zeros are one value here; both are `0` to the sixth decimal.
-/
import MldpDriver.Lib.Binary64
import MldpDriver.Lib.Directory

namespace Lib.DecimalText

open List
open Lib.Directory (split_unique)

/-! ## 1. Natural numbers and integers -/

def natText (n : Nat) : List Char := Nat.toDigits 10 n

theorem natText_inj {m n : Nat} (h : natText m = natText n) : m = n := by
  have hvalue := congrArg (Nat.ofDigitChars 10 · 0) h
  simpa [natText] using hvalue

theorem isDigit_of_mem_natText {n : Nat} {c : Char} (h : c ∈ natText n) : c.isDigit = true :=
  Nat.isDigit_of_mem_toDigits (by decide) (by decide) h

/-- `std::to_string` of an integer. -/
def intText : Int → List Char
  | .ofNat n => natText n
  | .negSucc n => '-' :: natText (n + 1)

theorem minus_notMem_natText (n : Nat) : '-' ∉ natText n := fun h =>
  absurd (isDigit_of_mem_natText h) (by decide)

theorem intText_inj {m n : Int} (h : intText m = intText n) : m = n := by
  cases m with
  | ofNat m =>
    cases n with
    | ofNat n => exact congrArg Int.ofNat (natText_inj h)
    | negSucc n =>
      have hminus : '-' ∈ natText m := by
        rw [show natText m = '-' :: natText (n + 1) from h]
        exact mem_cons_self
      exact absurd hminus (minus_notMem_natText m)
  | negSucc m =>
    cases n with
    | ofNat n =>
      have hminus : '-' ∈ natText n := by
        rw [show natText n = '-' :: natText (m + 1) from h.symm]
        exact mem_cons_self
      exact absurd hminus (minus_notMem_natText n)
    | negSucc n =>
      have htail := natText_inj (List.cons.inj h).2
      exact congrArg Int.negSucc (Nat.succ.inj htail)

theorem mem_intText {n : Int} {c : Char} (h : c ∈ intText n) : c = '-' ∨ c.isDigit = true := by
  cases n with
  | ofNat n => exact .inr (isDigit_of_mem_natText h)
  | negSucc n =>
    rcases mem_cons.mp h with rfl | h
    · exact .inl rfl
    · exact .inr (isDigit_of_mem_natText h)

/-! ## 2. Six decimals -/

/-- The nearest integer; a tie goes to the even one. -/
def nearest (q : ℚ) : Int :=
  let rest := q - q.floor
  if rest < 1 / 2 ∨ (rest = 1 / 2 ∧ q.floor % 2 = 0) then q.floor else q.floor + 1

/-- The digit before the decimal with this weight. -/
def digitAt (weight n : Nat) : Char := Nat.digitChar (n / weight % 10)

/-- A number of millionths: sign, integral part, point, six digits. -/
def millionthsText (negative : Bool) (n : Nat) : List Char :=
  (if negative then ['-'] else []) ++ natText (n / 1000000) ++ '.' ::
    [digitAt 100000 n, digitAt 10000 n, digitAt 1000 n, digitAt 100 n, digitAt 10 n, digitAt 1 n]

theorem digitChar_inj {a b : Nat} (ha : a < 10) (hb : b < 10)
    (h : Nat.digitChar a = Nat.digitChar b) : a = b := by
  have hall : ∀ a < 10, ∀ b < 10, Nat.digitChar a = Nat.digitChar b → a = b := by decide
  exact hall a ha b hb h

theorem digitAt_inj {weight m n : Nat} (h : digitAt weight m = digitAt weight n) :
    m / weight % 10 = n / weight % 10 :=
  digitChar_inj (Nat.mod_lt _ (by decide)) (Nat.mod_lt _ (by decide)) h

theorem point_notMem_natText (n : Nat) : '.' ∉ natText n := fun h =>
  absurd (isDigit_of_mem_natText h) (by decide)

theorem millionths_inj {m n : Nat} (h : millionthsText false m = millionthsText false n) :
    m = n := by
  obtain ⟨hwhole, hrest⟩ := split_unique (point_notMem_natText _) (point_notMem_natText _) h
  have hquot := natText_inj hwhole
  simp only [List.cons.injEq, and_true] at hrest
  obtain ⟨h5, h4, h3, h2, h1, h0⟩ := hrest
  have h5 := digitAt_inj h5
  have h4 := digitAt_inj h4
  have h3 := digitAt_inj h3
  have h2 := digitAt_inj h2
  have h1 := digitAt_inj h1
  have h0 := digitAt_inj h0
  omega

theorem minus_notMem_millionths (n : Nat) : '-' ∉ millionthsText false n := by
  have hdigit : ∀ weight, '-' ≠ digitAt weight n := by
    intro weight h
    have hall : ∀ d < 10, '-' ≠ Nat.digitChar d := by decide
    exact hall _ (Nat.mod_lt _ (by decide)) h
  simp only [millionthsText, Bool.false_eq_true, if_false, nil_append, mem_append,
    mem_cons, not_mem_nil, or_false, not_or]
  exact ⟨minus_notMem_natText _, by decide, hdigit _, hdigit _, hdigit _, hdigit _, hdigit _,
    hdigit _⟩

theorem millionthsText_inj {s s' : Bool} {m n : Nat}
    (h : millionthsText s m = millionthsText s' n) : s = s' ∧ m = n := by
  cases s with
  | false =>
    cases s' with
    | false => exact ⟨rfl, millionths_inj h⟩
    | true =>
      have hminus : '-' ∈ millionthsText false m := h ▸ mem_cons_self
      exact absurd hminus (minus_notMem_millionths m)
  | true =>
    cases s' with
    | false =>
      have hminus : '-' ∈ millionthsText false n := h ▸ mem_cons_self
      exact absurd hminus (minus_notMem_millionths n)
    | true => exact ⟨rfl, millionths_inj (List.cons.inj h).2⟩

/-! ## 3. Floating-point numbers -/

/-- The millionths of a magnitude. -/
def millionths (q : ℚ) : Nat := (nearest (|q| * 1000000)).toNat

/-- `std::to_string` of a `double`. -/
def doubleText : Binary64 → List Char
  | .nan => "nan".toList
  | .inf true => "-inf".toList
  | .inf false => "inf".toList
  | .finite q => millionthsText (decide (q < 0)) (millionths q)

/-- The number to the sixth decimal, in millionths. -/
def sixthDecimal : Binary64 → Binary64
  | .finite q => .finite (if q < 0 then -(millionths q : ℚ) else millionths q)
  | d => d

theorem mem_millionthsText {s : Bool} {n : Nat} {c : Char} (h : c ∈ millionthsText s n) :
    c = '-' ∨ c = '.' ∨ c.isDigit = true := by
  have hdigit : ∀ weight, c = digitAt weight n → c.isDigit = true := by
    rintro weight rfl
    have hall : ∀ d < 10, (Nat.digitChar d).isDigit = true := by decide
    exact hall _ (Nat.mod_lt _ (by decide))
  simp only [millionthsText, mem_append, mem_cons, not_mem_nil, or_false] at h
  rcases h with (h | h) | h | h | h | h | h | h | h
  · cases s with
    | false => cases h
    | true => exact .inl (mem_singleton.mp h)
  · exact .inr (.inr (isDigit_of_mem_natText h))
  · exact .inr (.inl h)
  all_goals exact .inr (.inr (hdigit _ h))

theorem point_mem_millionthsText (s : Bool) (n : Nat) : '.' ∈ millionthsText s n := by
  rw [millionthsText]
  exact mem_append_right _ mem_cons_self

/-- **The text tells the number to the sixth decimal.** -/
theorem doubleText_eq {d d' : Binary64} (h : doubleText d = doubleText d') :
    sixthDecimal d = sixthDecimal d' := by
  have hpoint : ∀ q, '.' ∈ doubleText (.finite q) := fun q => point_mem_millionthsText _ _
  cases d with
  | nan =>
    cases d' with
    | nan => rfl
    | inf negative => cases negative <;> exact absurd h (by decide)
    | finite q => exact absurd (h ▸ hpoint q) (by decide)
  | inf negative =>
    cases d' with
    | nan => cases negative <;> exact absurd h (by decide)
    | inf negative' =>
      cases negative <;> cases negative' <;> first | rfl | exact absurd h (by decide)
    | finite q => cases negative <;> exact absurd (h ▸ hpoint q) (by decide)
  | finite q =>
    cases d' with
    | nan => exact absurd (h.symm ▸ hpoint q) (by decide)
    | inf negative => cases negative <;> exact absurd (h.symm ▸ hpoint q) (by decide)
    | finite q' =>
      obtain ⟨hsign, hmillionths⟩ := millionthsText_inj h
      have hsign : q < 0 ↔ q' < 0 := by simpa using hsign
      rw [sixthDecimal, sixthDecimal, hmillionths]
      simp only [hsign]

end Lib.DecimalText
