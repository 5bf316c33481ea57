/-
# The names of columns

The reader makes the name of a dataset fit to be sent (`normalizeColumnName`): a name that is no
UTF-8 is reduced to its printable ASCII characters, control characters become underscores, and what
is empty then is called `unnamed_column`.  The result is always readable; but names that differ only
in what is taken from them become one name (`Alike`).
-/
import Mathlib.Algebra.Group.Nat.Defs
import MldpDriver.Lib.Utf8
import MldpDriver.Reader.HDF5BsasGen1Reader

namespace MldpDriver.Reader.BsasGen1

open Lib.Utf8 List

/-! ## 1. What is accepted is UTF-8 -/

/-- The bits of a byte as arithmetic. -/
abbrev ByteBits (b : UInt8) : Prop :=
  (b &&& 0xE0 = 0xC0 ↔ 192 ≤ b.toNat ∧ b.toNat < 224) ∧
    (b &&& 0xF0 = 0xE0 ↔ 224 ≤ b.toNat ∧ b.toNat < 240) ∧
    (b &&& 0xF8 = 0xF0 ↔ 240 ≤ b.toNat ∧ b.toNat < 248) ∧
    (isContinuationByte b = true ↔ 128 ≤ b.toNat ∧ b.toNat < 192) ∧
    (b &&& 0x0F).toNat = b.toNat % 16 ∧ (b &&& 0x07).toNat = b.toNat % 8 ∧
    (b &&& 0x3F).toNat = b.toNat % 64

theorem byteBits (b : UInt8) : ByteBits b := by
  have hall : ∀ n < 256, ByteBits (UInt8.ofNat n) := by decide +kernel
  have hb := hall b.toNat b.toNat_lt
  rwa [UInt8.ofNat_toNat] at hb

theorem codePoint_step (ch : UInt32) (byte : UInt8) (h : ch.toNat < 2 ^ 26) :
    (ch <<< 6 ||| (byte &&& 0x3F).toUInt32).toNat = ch.toNat * 64 + byte.toNat % 64 := by
  obtain ⟨-, -, -, -, -, -, hlow⟩ := byteBits byte
  rw [UInt32.toNat_or, UInt32.toNat_shiftLeft, UInt8.toNat_toUInt32, hlow,
    show (6 : UInt32).toNat % 32 = 6 from rfl, Nat.mod_eq_of_lt (by rw [Nat.shiftLeft_eq]; omega),
    ← Nat.shiftLeft_add_eq_or_of_lt (Nat.mod_lt _ (by decide)), Nat.shiftLeft_eq]

theorem encode_ofNat (n : Nat) (bytes : List UInt8) (hn : n.isValidChar)
    (h : bytes.map UInt8.toNat =
      if n ≤ 127 then [n]
      else if n ≤ 2047 then [n / 64 % 32 + 192, n % 64 + 128]
      else if n ≤ 65535 then [n / 4096 % 16 + 224, n / 64 % 64 + 128, n % 64 + 128]
      else [n / 262144 % 8 + 240, n / 4096 % 64 + 128, n / 64 % 64 + 128, n % 64 + 128]) :
    encode (Char.ofNat n) = bytes := by
  have hback : bytes = (bytes.map UInt8.toNat).map UInt8.ofNat := by
    simp [Function.comp_def]
  have hval : (Char.ofNat n).val.toNat = n := by
    rw [Char.ofNat, dif_pos hn]
    rfl
  rw [hback, h, encode, String.utf8EncodeChar, hval]
  split_ifs <;> rfl

theorem isValidUtf8_sound {bytes : List UInt8} (h : isValidUtf8 bytes = true) :
    ∃ text, bytes = utf8 text := by
  have hcons : ∀ {n : Nat} {seq rest : List UInt8}, n.isValidChar → encode (Char.ofNat n) = seq →
      (∃ text, rest = utf8 text) → ∃ text, seq ++ rest = utf8 text := by
    rintro n seq rest - hseq ⟨text, rfl⟩
    exact ⟨Char.ofNat n :: text, by rw [utf8_cons, hseq]⟩
  fun_induction isValidUtf8 bytes with
  | case1 => exact ⟨[], rfl⟩
  | case2 p rest hp ih =>
    have hlt : p.toNat < 128 := hp
    have hvalid : p.toNat.isValidChar := .inl (by omega)
    exact hcons hvalid (encode_ofNat _ [p] hvalid (by rw [if_pos (by omega)]; rfl)) (ih h)
  | case3 p hp hlead p1 rest ih =>
    simp only [Bool.and_eq_true, Bool.not_eq_true', decide_eq_false_iff_not, UInt8.lt_iff_toNat_lt,
      (byteBits p1).2.2.2.1] at h
    obtain ⟨⟨hcont, hlong⟩, hrest⟩ := h
    have hrange := (byteBits p).1.mp hlead
    have hlow : 194 ≤ p.toNat := Nat.not_lt.mp hlong
    have hvalid : ((p.toNat - 192) * 64 + (p1.toNat - 128)).isValidChar := .inl (by omega)
    refine hcons hvalid (encode_ofNat _ [p, p1] hvalid ?_) (ih hrest)
    rw [if_neg (by omega), if_pos (by omega)]
    simp only [map_cons, map_nil, List.cons.injEq, and_true]
    omega
  | case4 => cases h
  | case5 p hp htwo hlead p1 p2 rest ch ih =>
    obtain ⟨-, hthree, -, -, hmask, -⟩ := byteBits p
    have hrange := hthree.mp hlead
    have hstart : (p &&& 0x0F).toUInt32.toNat = p.toNat % 16 := by rw [UInt8.toNat_toUInt32, hmask]
    have hone := codePoint_step _ p1 (by omega : (p &&& 0x0F).toUInt32.toNat < 2 ^ 26)
    have hch : ch.toNat = _ := codePoint_step _ p2 (by rw [hone]; omega)
    simp only [Bool.and_eq_true, Bool.not_eq_true', Bool.or_eq_false_iff, Bool.and_eq_false_iff,
      decide_eq_false_iff_not, UInt32.lt_iff_toNat_lt, UInt32.le_iff_toNat_le,
      (byteBits p1).2.2.2.1, (byteBits p2).2.2.2.1, hch, hone, hstart] at h
    obtain ⟨⟨⟨hcont1, hcont2⟩, hlong, hsurrogate⟩, hrest⟩ := h
    simp only [UInt32.reduceToNat] at hlong hsurrogate
    have hvalid : ((p.toNat % 16 * 64 + p1.toNat % 64) * 64 + p2.toNat % 64).isValidChar := by
      rcases hsurrogate with hlow | hhigh
      · exact .inl (by omega)
      · exact .inr ⟨by omega, by omega⟩
    refine hcons hvalid (encode_ofNat _ [p, p1, p2] hvalid ?_) (ih hrest)
    rw [if_neg (by omega), if_neg (by omega), if_pos (by omega)]
    simp only [map_cons, map_nil, List.cons.injEq, and_true]
    omega
  | case6 => cases h
  | case7 p hp htwo hthree hlead p1 p2 p3 rest ch ih =>
    obtain ⟨-, -, hfour, -, -, hmask, -⟩ := byteBits p
    have hrange := hfour.mp hlead
    have hstart : (p &&& 0x07).toUInt32.toNat = p.toNat % 8 := by rw [UInt8.toNat_toUInt32, hmask]
    have hone := codePoint_step _ p1 (by omega : (p &&& 0x07).toUInt32.toNat < 2 ^ 26)
    have hsecond := codePoint_step _ p2 (by rw [hone]; omega)
    have hch : ch.toNat = _ := codePoint_step _ p3 (by rw [hsecond, hone]; omega)
    simp only [Bool.and_eq_true, Bool.not_eq_true', Bool.or_eq_false_iff, decide_eq_false_iff_not,
      UInt32.lt_iff_toNat_lt, (byteBits p1).2.2.2.1, (byteBits p2).2.2.2.1, (byteBits p3).2.2.2.1,
      hch, hsecond, hone, hstart] at h
    obtain ⟨⟨⟨⟨hcont1, hcont2⟩, hcont3⟩, hlong, hlast⟩, hrest⟩ := h
    simp only [UInt32.reduceToNat] at hlong hlast
    have hvalid : (((p.toNat % 8 * 64 + p1.toNat % 64) * 64 + p2.toNat % 64) * 64 +
        p3.toNat % 64).isValidChar := .inr ⟨by omega, by omega⟩
    refine hcons hvalid (encode_ofNat _ [p, p1, p2, p3] hvalid ?_) (ih hrest)
    rw [if_neg (by omega), if_neg (by omega), if_neg (by omega)]
    simp only [map_cons, map_nil, List.cons.injEq, and_true]
    omega
  | case8 => cases h
  | case9 => cases h

/-! ## 2. What is left of a name -/

def isPrintable (b : UInt8) : Bool := decide (0x20 ≤ b) && decide (b < 0x7F)

/-- What can be read of a name: all of it, or its printable ASCII characters. -/
def readable (name : List UInt8) : List UInt8 :=
  let kept := if isValidUtf8 name then name else name.filter isPrintable
  if kept.isEmpty then unnamedColumn else kept

/-- A control character or an underscore. -/
def isFiller (b : UInt8) : Bool := isControl b || b == 0x5F

/-- What can be read differs in fillers only.  Fillers are the underscore and the characters that
become one. -/
def Alike (name name' : List UInt8) : Prop :=
  List.Forall₂ (fun x y => x = y ∨ isFiller x = true ∧ isFiller y = true)
    (readable name) (readable name')

/-- The last pass of `normalizeColumnName`. -/
def fill (b : UInt8) : UInt8 := if isControl b then 0x5F else b

theorem normalizeColumnName_eq (name : List UInt8) :
    normalizeColumnName name name = (readable name).map fill := by
  have hsanitize : sanitizeUtf8 name =
      if isValidUtf8 name then name else name.filter isPrintable := by
    rw [sanitizeUtf8, ← filterMap_eq_filter]
    refine if_congr Iff.rfl rfl (congrArg (List.filterMap · name) (funext fun p => ?_))
    by_cases hp : 0x20 ≤ p ∧ p < 0x7F
    · simp [Option.guard, isPrintable, hp]
    · have hblank : p ≠ 0x20 := by
        rintro rfl
        exact hp (by decide)
      rw [if_neg hp, if_neg hblank, Option.guard, if_neg (by simpa [isPrintable] using hp)]
  have hunnamed : unnamedColumn = unnamedColumn.map fill := by decide +kernel
  rw [normalizeColumnName, readable, ← hsanitize]
  cases hkept : sanitizeUtf8 name with
  | nil =>
    simp only [isEmpty_nil, if_true, map_nil]
    exact hunnamed
  | cons b kept => rfl

theorem isValidUtf8_readable (name : List UInt8) : isValidUtf8 (readable name) = true := by
  have hascii : ∀ bytes : List UInt8, (∀ b ∈ bytes, b < 0x80) → isValidUtf8 bytes = true := by
    intro bytes h
    induction bytes with
    | nil => rfl
    | cons b bytes ih =>
      rw [isValidUtf8.eq_def]
      simp only [if_pos (h b mem_cons_self)]
      exact ih fun c hc => h c (mem_cons_of_mem b hc)
  have hunnamed : isValidUtf8 unnamedColumn = true := by decide +kernel
  have hkept : isValidUtf8 (if isValidUtf8 name then name else name.filter isPrintable) = true := by
    split
    · assumption
    · refine hascii _ fun b hb => ?_
      have hprintable := (mem_filter.mp hb).2
      simp only [isPrintable, Bool.and_eq_true, decide_eq_true_eq] at hprintable
      exact UInt8.lt_trans hprintable.2 (by decide)
  simp only [readable]
  generalize (if isValidUtf8 name then name else name.filter isPrintable) = kept at hkept ⊢
  cases kept with
  | nil => exact hunnamed
  | cons b kept => exact hkept

/-- The same pass on characters. -/
def fillChar (c : Char) : Char := if c.toNat < 0x20 ∨ c.toNat = 0x7F then '_' else c

theorem map_fill (text : List Char) : (utf8 text).map fill = utf8 (text.map fillChar) := by
  induction text with
  | nil => rfl
  | cons c text ih =>
    rw [utf8_cons, map_append, ih, map_cons, utf8_cons]
    congr 1
    by_cases hc : c.toNat < 128
    · have hascii : ∀ n < 128, [UInt8.ofNat n].map fill =
          if n < 0x20 ∨ n = 0x7F then [0x5F] else [UInt8.ofNat n] := by decide +kernel
      rw [encode_ascii hc, hascii c.toNat hc, fillChar]
      split
      · rfl
      · exact (encode_ascii hc).symm
    · rw [fillChar, if_neg (by omega)]
      refine (map_congr_left fun b hb => ?_).trans (map_id _)
      have hwide := (encode_wide (Nat.not_lt.mp hc)).2 b hb
      refine if_neg ?_
      simp only [isControl, Bool.or_eq_true, decide_eq_true_eq, UInt8.lt_iff_toNat_lt, beq_iff_eq,
        ← UInt8.toNat_inj, UInt8.reduceToNat]
      omega

theorem normalizeColumnName_eq_iff (name name' : List UInt8) :
    normalizeColumnName name name = normalizeColumnName name' name' ↔ Alike name name' := by
  have hfill : ∀ x y, fill x = fill y ↔ x = y ∨ isFiller x = true ∧ isFiller y = true := by
    intro x y
    have hfiller : isControl 0x5F = false := rfl
    simp only [fill, isFiller, Bool.or_eq_true, beq_iff_eq]
    grind
  rw [normalizeColumnName_eq, normalizeColumnName_eq, Alike, ← List.forall₂_eq_eq_eq,
    List.forall₂_map_left_iff, List.forall₂_map_right_iff]
  simp only [hfill]

/-- **The names of the columns are UTF-8 without control characters, and they are different exactly
if no two different names of datasets are alike**, that is, differ only in what is taken from
them. -/
theorem columnNames_iff (names : List (List UInt8)) :
    ((∀ name ∈ names, ∃ text, normalizeColumnName name name = utf8 text ∧
        ∀ c ∈ text, 0x20 ≤ c.toNat ∧ c.toNat ≠ 0x7F) ∧
      ∀ name ∈ names, ∀ name' ∈ names, name ≠ name' →
        normalizeColumnName name name ≠ normalizeColumnName name' name') ↔
    ∀ name ∈ names, ∀ name' ∈ names, Alike name name' → name = name' := by
  have hreadable : ∀ name ∈ names, ∃ text, normalizeColumnName name name = utf8 text ∧
      ∀ c ∈ text, 0x20 ≤ c.toNat ∧ c.toNat ≠ 0x7F := by
    intro name _
    obtain ⟨text, htext⟩ := isValidUtf8_sound (isValidUtf8_readable name)
    refine ⟨text.map fillChar, by rw [normalizeColumnName_eq, htext, map_fill], ?_⟩
    intro c hc
    obtain ⟨d, -, rfl⟩ := mem_map.mp hc
    rw [fillChar]
    split
    · decide
    · omega
  rw [and_iff_right hreadable]
  refine forall₄_congr fun name _ name' _ => ?_
  rw [← normalizeColumnName_eq_iff]
  exact not_imp_not

/-- The datasets `a<01>` and `a_` become one column name. -/
theorem controlName_not_distinct : ¬ ∀ name ∈ [[0x61, 0x01], [0x61, 0x5F]],
    ∀ name' ∈ [[0x61, 0x01], [0x61, 0x5F]], name ≠ name' →
      normalizeColumnName name name ≠ normalizeColumnName name' name' := by
  decide +kernel

end MldpDriver.Reader.BsasGen1
