/-
# Texts as UTF-8 bytes

The encoding of a text is read back character by character: no encoding is the beginning of another
(`encode_append_inj`), and the bytes of a character are found only where that character stands
(`utf8_split`), because the first byte of an encoding never occurs inside one.
-/
import Mathlib.Data.List.Basic

namespace Lib.Utf8

open List

/-- The UTF-8 bytes of a character. -/
def encode (c : Char) : List UInt8 := String.utf8EncodeChar c

/-- The UTF-8 bytes of a text. -/
def utf8 (text : List Char) : List UInt8 := text.flatMap encode

@[simp] theorem utf8_nil : utf8 [] = [] := rfl

@[simp] theorem utf8_cons (c : Char) (text : List Char) :
    utf8 (c :: text) = encode c ++ utf8 text := rfl

@[simp] theorem utf8_append (a b : List Char) : utf8 (a ++ b) = utf8 a ++ utf8 b :=
  flatMap_append

theorem toByteArray_toList (s : String) : s.toByteArray.data.toList = utf8 s.toList := by
  rw [← String.utf8Encode_toList]
  exact congrArg Array.toList (data_toByteArray (l := utf8 s.toList))

theorem encode_ne_nil (c : Char) : encode c ≠ [] := String.utf8EncodeChar_ne_nil

theorem length_encode_pos (c : Char) : 0 < (encode c).length :=
  length_pos_iff.mpr (encode_ne_nil c)

/-! ## 1. Reading a text back -/

/-- **No encoding begins another**: the character and the rest are determined. -/
theorem encode_append_inj {c d : Char} {a b : List UInt8} (h : encode c ++ a = encode d ++ b) :
    c = d ∧ a = b := by
  have hdecode : ∀ (c : Char) (a : List UInt8),
      (encode c ++ a).toByteArray.utf8DecodeChar? 0 = some c := by
    intro c a
    have hparts : (encode c ++ a).toByteArray = [c].utf8Encode ++ a.toByteArray := by
      rw [utf8Encode_singleton, toByteArray_append]
      rfl
    rw [hparts, List.utf8DecodeChar?_utf8Encode_singleton_append]
  have hc : c = d := by
    have := hdecode c a
    rw [h, hdecode d b] at this
    exact (Option.some.inj this).symm
  subst hc
  exact ⟨rfl, append_cancel_left h⟩

theorem encode_inj {c d : Char} (h : encode c = encode d) : c = d :=
  (encode_append_inj (congrArg (· ++ []) h)).1

theorem utf8_append_eq {front text : List Char} {rest : List UInt8}
    (h : utf8 front ++ rest = utf8 text) : ∃ more, text = front ++ more ∧ rest = utf8 more := by
  induction front generalizing text with
  | nil => exact ⟨text, rfl, h⟩
  | cons c front ih =>
    cases text with
    | nil =>
      rw [utf8_cons, append_assoc, utf8_nil] at h
      exact absurd (append_eq_nil_iff.mp h).1 (encode_ne_nil c)
    | cons d text =>
      rw [utf8_cons, utf8_cons, append_assoc] at h
      obtain ⟨rfl, htext⟩ := encode_append_inj h
      obtain ⟨more, rfl, hrest⟩ := ih htext
      exact ⟨more, rfl, hrest⟩

theorem utf8_inj {a b : List Char} (h : utf8 a = utf8 b) : a = b := by
  have hfront : utf8 a ++ [] = utf8 b := by rw [append_nil, h]
  obtain ⟨more, rfl, hmore⟩ := utf8_append_eq hfront
  cases more with
  | nil => exact (append_nil a).symm
  | cons c more =>
    rw [utf8_cons] at hmore
    exact absurd (append_eq_nil_iff.mp hmore.symm).1 (encode_ne_nil c)

/-! ## 2. Where a character stands -/

theorem isFirst_iff {c : Char} {i : Nat} {b : UInt8} (h : (encode c)[i]? = some b) :
    b.IsUTF8FirstByte ↔ i = 0 := by
  obtain ⟨hi, rfl⟩ := List.getElem?_eq_some_iff.mp h
  exact UInt8.isUTF8FirstByte_getElem_utf8EncodeChar

/-- **The bytes of a character stand for it wherever they occur.** -/
theorem utf8_split {text : List Char} {before after : List UInt8} {c : Char}
    (h : utf8 text = before ++ (encode c ++ after)) :
    ∃ front back, text = front ++ c :: back ∧ before = utf8 front ∧ after = utf8 back := by
  induction text generalizing before with
  | nil =>
    have hnil := (append_eq_nil_iff.mp (append_eq_nil_iff.mp h.symm).2).1
    exact absurd hnil (encode_ne_nil c)
  | cons d text ih =>
    rw [utf8_cons] at h
    cases before with
    | nil =>
      obtain ⟨rfl, hafter⟩ := encode_append_inj h
      exact ⟨[], text, rfl, rfl, hafter.symm⟩
    | cons b before =>
      have hlength : (encode d).length ≤ (b :: before).length := by
        by_contra hlt
        rw [Nat.not_le] at hlt
        -- the first byte of `c` would stand inside the encoding of `d`
        have hinside : (encode d ++ utf8 text)[(b :: before).length]? = (encode c)[0]? := by
          rw [h, List.getElem?_append_right (Nat.le_refl _), Nat.sub_self,
            List.getElem?_append_left (length_encode_pos c)]
        rw [List.getElem?_append_left hlt] at hinside
        have hfirst : (encode c)[0]? = some ((encode c).head (encode_ne_nil c)) := by
          rw [← List.head?_eq_getElem?, List.head?_eq_some_head (encode_ne_nil c)]
        have hzero := (isFirst_iff (hinside.trans hfirst)).mp ((isFirst_iff hfirst).mpr rfl)
        exact absurd hzero (by simp)
      obtain ⟨before', hbefore, htext⟩ : ∃ before', b :: before = encode d ++ before' ∧
          utf8 text = before' ++ (encode c ++ after) := by
        rcases append_eq_append_iff.mp h with ⟨a, hb, ha⟩ | ⟨a, hd, ha⟩
        · exact ⟨a, hb, ha⟩
        · have hnil : a = [] := by
            rw [hd, length_append] at hlength
            exact length_eq_zero_iff.mp (by omega)
          subst hnil
          exact ⟨[], by rw [hd, append_nil, append_nil], ha.symm⟩
      obtain ⟨front, back, rfl, rfl, rfl⟩ := ih htext
      exact ⟨d :: front, back, rfl, hbefore, rfl⟩

/-! ## 3. One byte for a character -/

theorem encode_ascii {c : Char} (h : c.toNat < 128) : encode c = [UInt8.ofNat c.toNat] :=
  if_pos (Nat.le_of_lt_succ h)

theorem encode_wide {c : Char} (h : 128 ≤ c.toNat) :
    2 ≤ (encode c).length ∧ ∀ b ∈ encode c, 128 ≤ b.toNat := by
  have hbyte : ∀ n m k, 0 < m → 128 ≤ k → k + m ≤ 256 →
      128 ≤ (UInt8.ofNat (n % m + k)).toNat := by
    intro n m k hm hk hsum
    have := Nat.mod_lt n hm
    rw [UInt8.toNat_ofNat']
    omega
  have htail : ∀ n, 128 ≤ (UInt8.ofNat (n % 64 + 128)).toNat := fun n =>
    hbyte n 64 128 (by decide) (by decide) (by decide)
  have hwide : ¬ c.val.toNat ≤ 127 := Nat.not_le.mpr h
  simp only [encode, String.utf8EncodeChar, if_neg hwide]
  have hadd : ∀ {lead : UInt8} {tail : List UInt8}, 128 ≤ lead.toNat →
      (∀ b ∈ tail, 128 ≤ b.toNat) → ∀ b ∈ lead :: tail, 128 ≤ b.toNat := fun hlead htail =>
    forall_mem_cons.mpr ⟨hlead, htail⟩
  have hnil : ∀ b ∈ ([] : List UInt8), 128 ≤ b.toNat := fun _ h => absurd h not_mem_nil
  split
  · exact ⟨by simp, hadd (hbyte _ 32 192 (by decide) (by decide) (by decide))
      (hadd (htail _) hnil)⟩
  · split
    · exact ⟨by simp, hadd (hbyte _ 16 224 (by decide) (by decide) (by decide))
        (hadd (htail _) (hadd (htail _) hnil))⟩
    · exact ⟨by simp, hadd (hbyte _ 8 240 (by decide) (by decide) (by decide))
        (hadd (htail _) (hadd (htail _) (hadd (htail _) hnil)))⟩

theorem length_le_utf8 (text : List Char) : text.length ≤ (utf8 text).length := by
  induction text with
  | nil => exact Nat.le_refl _
  | cons c text ih =>
    have := length_encode_pos c
    rw [utf8_cons, length_append, length_cons]
    omega

end Lib.Utf8
