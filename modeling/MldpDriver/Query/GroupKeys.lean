/-
# The key columns of GROUP BY

Each key of a row is read (`Stored.read`), and rows are in one group when the bytes of their keys
are equal (`appendValueKey`).  In the end the keys of each group become columns of the types they
had (`buildValueColumn`).  -/
import MldpDriver.Query.WholeGroup

namespace MldpDriver.Query.Window

open List
open Aggregate (Value ValueLib ArrowType IntegerStorage EvaluatedRow preservedType typedCell
  buildValueColumn appendValueKey littleEndian sizedText inferredCell inferType)

variable {X : Type} {lib : ValueLib (BitVec 64) X} {m : Nat}

/-! ## 1. The bytes of keys -/

/-- The bits of a double; 0.0 for -0.0. -/
def positive (real : BitVec 64) : BitVec 64 := if real = BitVec.intMin 64 then 0 else real

/-- Doubles as the machine has them. -/
def machine (lib : ValueLib (BitVec 64) X) : ValueLib (BitVec 64) X :=
  { lib with keyBytes := fun real => littleEndian 8 (positive real).toNat }

theorem littleEndian_append {n : Nat} {x y : Int} {a b : List UInt8} :
    littleEndian n x ++ a = littleEndian n y ++ b ↔ x % 256 ^ n = y % 256 ^ n ∧ a = b := by
  induction n generalizing a b with
  | zero => simp [littleEndian]
  | succ n ih =>
    have hsucc : ∀ z : Int, littleEndian (n + 1) z =
        littleEndian n z ++ [UInt8.ofNat ((z / 256 ^ n) % 256).toNat] := by
      intro z
      simp [littleEndian, range_succ]
    have hmod : ∀ z : Int, z % 256 ^ (n + 1) = z % 256 ^ n + 256 ^ n * (z / 256 ^ n % 256) := by
      intro z
      rw [pow_succ, Int.emod_def, Int.emod_def z, Int.emod_def (z / _),
        ← Int.ediv_ediv_of_nonneg (by positivity)]
      ring
    have hbyte : ∀ z w : Int, UInt8.ofNat (z % 256).toNat = UInt8.ofNat (w % 256).toNat ↔
        z % 256 = w % 256 := by
      intro z w
      rw [← UInt8.toNat_inj, UInt8.toNat_ofNat', UInt8.toNat_ofNat']
      omega
    rw [hsucc, hsucc, append_assoc, append_assoc, ih, singleton_append,
      singleton_append, List.cons.injEq, hbyte, hmod, hmod, ← and_assoc]
    refine and_congr_left fun _ => ⟨fun h => by rw [h.1, h.2], fun h => ?_⟩
    have hpos : (0 : Int) < 256 ^ n := by positivity
    have hlow : ∀ z k : Int, (z % 256 ^ n + 256 ^ n * k) % 256 ^ n = z % 256 ^ n := by
      intro z k
      rw [Int.add_mul_emod_self_left, Int.emod_emod_of_dvd _ (dvd_refl _)]
    have heq : x % 256 ^ n = y % 256 ^ n := by
      rw [← hlow x, h, hlow]
    rw [heq] at h
    exact ⟨heq, mul_left_cancel₀ hpos.ne' (Int.add_left_cancel h)⟩

/-! ## 2. Tables of keys -/

/-- The types of keys: numbers, booleans, texts, timestamps and null. -/
def keyType : ArrowType → Bool
  | .na => true
  | .integer _ _ => true
  | .float => true
  | .double => true
  | .bool => true
  | .string => true
  | _ => false

/-- The offsets of a string column have 32 bits. -/
def Stored.Short : Stored (BitVec 64) X → Prop
  | .string text => text.length < 2 ^ 31
  | _ => True

/-- The key columns of a table, by rows. -/
structure KeyTable (lib : ValueLib (BitVec 64) X) (m : Nat) where
  types : Fin m → ArrowType
  rows : List (Fin m → Stored (BitVec 64) X)
  keys : ∀ j, keyType (types j) = true
  fits : ∀ row ∈ rows, ∀ j, Fits (machine lib) (types j) (row j) ∧ (row j).InRange ∧ (row j).Short

/-- Equal keys: the zeros are equal. -/
def Same : Stored (BitVec 64) X → Stored (BitVec 64) X → Prop
  | .double d, .double e => positive d = positive e
  | a, b => a = b

theorem fits_key {type : ArrowType} (hkey : keyType type = true) {a : Stored (BitVec 64) X}
    (h : Fits (machine lib) type a) : a.read.isOther = false ∧
      ((∃ n, a = .uint64 n) → ∃ logical, type = .integer .uint64 logical) ∧
      ((∃ n, a = .int n) → ∀ logical, type ≠ .integer .uint64 logical) := by
  cases a with
  | other x => cases type <;> simp [Fits, keyType] at h hkey
  | uint64 n =>
    refine ⟨rfl, fun _ => ?_, by simp⟩
    cases type with
    | integer storage logical =>
      cases storage with
      | uint64 => exact ⟨logical, rfl⟩
      | _ => simp [Fits] at h
    | _ => simp [Fits, keyType] at h hkey
  | int n =>
    refine ⟨rfl, by simp, fun _ logical htype => ?_⟩
    subst htype
    exact h.1 rfl
  | _ => exact ⟨rfl, by simp, by simp⟩

theorem boolTag_ne {tag : UInt8} (v : Bool) (htrue : tag ≠ 84) (hfalse : tag ≠ 70) :
    ¬ tag = if v then 84 else 70 := by
  cases v
  · exact hfalse
  · exact htrue

/-- **The bytes of keys of one column tell them apart, whatever follows.** -/
theorem key_append {type : ArrowType} (hkey : keyType type = true) {a b : Stored (BitVec 64) X}
    (ha : Fits (machine lib) type a ∧ a.InRange ∧ a.Short)
    (hb : Fits (machine lib) type b ∧ b.InRange ∧ b.Short) {x y : List UInt8} :
    appendValueKey (machine lib) a.read ++ x = appendValueKey (machine lib) b.read ++ y ↔
      Same a b ∧ x = y := by
  obtain ⟨hother, hunsigned, hsigned⟩ := fits_key hkey ha.1
  obtain ⟨hother', hunsigned', hsigned'⟩ := fits_key hkey hb.1
  obtain ⟨-, har, has⟩ := ha
  obtain ⟨-, hbr, hbs⟩ := hb
  cases a with
  | other z => cases hother
  | nul => cases b <;> simp [Stored.read, appendValueKey, sizedText, Same, boolTag_ne]
  | int k =>
    cases b with
    | int l =>
      simp only [Stored.read, appendValueKey, cons_append, List.cons.injEq, true_and,
        littleEndian_append, Same, Stored.int.injEq, Stored.InRange] at *
      refine and_congr_left fun _ => ⟨fun h => ?_, fun h => by rw [h]⟩
      omega
    | uint64 n =>
      obtain ⟨logical, htype⟩ := hunsigned' ⟨n, rfl⟩
      exact absurd htype (hsigned ⟨k, rfl⟩ logical)
    | _ => simp [Stored.read, appendValueKey, sizedText, Same, boolTag_ne]
  | uint64 k =>
    cases b with
    | uint64 l =>
      simp only [Stored.read, appendValueKey, cons_append, List.cons.injEq, true_and,
        littleEndian_append, Same, Stored.uint64.injEq, Stored.InRange] at *
      refine and_congr_left fun _ => ⟨fun h => ?_, fun h => by rw [h]⟩
      rw [bmod_unsigned har, bmod_unsigned hbr] at h
      split at h <;> split at h <;> omega
    | int n =>
      obtain ⟨logical, htype⟩ := hunsigned ⟨k, rfl⟩
      exact absurd htype (hsigned' ⟨n, rfl⟩ logical)
    | _ => simp [Stored.read, appendValueKey, sizedText, Same, boolTag_ne]
  | double d =>
    cases b with
    | double e =>
      simp only [Stored.read, appendValueKey, machine, cons_append, List.cons.injEq, true_and,
        littleEndian_append, Same]
      refine and_congr_left fun _ => ⟨fun h => ?_, fun h => by rw [h]⟩
      refine BitVec.eq_of_toNat_eq ?_
      have := (positive d).isLt
      have := (positive e).isLt
      omega
    | _ => simp [Stored.read, appendValueKey, sizedText, Same, boolTag_ne]
  | bool v => cases b with
    | bool w => cases v <;> cases w <;> simp [Stored.read, appendValueKey, Same]
    | _ => cases v <;> simp [Stored.read, appendValueKey, sizedText, Same]
  | string text =>
    cases b with
    | string other =>
      simp only [Stored.read, appendValueKey, sizedText, cons_append, append_assoc,
        List.cons.injEq, true_and, littleEndian_append, Same, Stored.string.injEq, Stored.Short] at *
      constructor
      · rintro ⟨hsize, htext⟩
        exact append_inj htext (by omega)
      · rintro ⟨rfl, rfl⟩
        exact ⟨rfl, rfl⟩
    | _ => simp [Stored.read, appendValueKey, sizedText, Same, boolTag_ne]

/-- The keys of a row, read. -/
def readRow (row : Fin m → Stored (BitVec 64) X) : EvaluatedRow (BitVec 64) X m 0 :=
  ⟨fun j => (row j).read, fun j => j.elim0⟩

theorem key_eq_iff {types : Fin m → ArrowType} (hkeys : ∀ j, keyType (types j) = true)
    {r s : Fin m → Stored (BitVec 64) X}
    (hr : ∀ j, Fits (machine lib) (types j) (r j) ∧ (r j).InRange ∧ (r j).Short)
    (hs : ∀ j, Fits (machine lib) (types j) (s j) ∧ (s j).InRange ∧ (s j).Short) :
    (readRow r).key (machine lib) = (readRow s).key (machine lib) ↔ ∀ j, Same (r j) (s j) := by
  rw [EvaluatedRow.key, EvaluatedRow.key, readRow, readRow]
  induction m with
  | zero => simp
  | succ m ih =>
    have hrest := ih (fun j => hkeys j.succ) (fun j => hr j.succ) fun j => hs j.succ
    simp only [ofFn_succ, flatMap_cons, Fin.forall_fin_succ]
    rw [key_append (hkeys 0) (hr 0) (hs 0), hrest]

/-! ## 3. The columns built -/

theorem built_cell_iff {type : ArrowType} {s : Stored (BitVec 64) X} (hkey : keyType type = true)
    (hne : type ≠ .na) (h : Fits (machine lib) type s ∧ s.InRange ∧ s.Short) :
    typedCell (machine lib) type s.read = some s.cell ↔ ∀ n, s = .uint64 n → n < 2 ^ 63 := by
  have htyped : preservedType type = some type := by
    cases type <;> first | rfl | exact absurd rfl hne | cases hkey
  cases hnull : s.isNull with
  | true =>
    cases s <;> cases hnull
    refine iff_of_true ?_ (by simp)
    cases type <;> rfl
  | false =>
    rw [← built_typed htyped, built_iff h.1 h.2.1 hnull]
    cases s with
    | string text => cases type <;> simp [Kept, keyType] at *
    | other x => cases type <;> simp [Fits, keyType] at *
    | uint64 n => simp [Kept]
    | _ => cases type <;> simp [Kept]

/-- **Reading keys and building their columns.** Each column comes back with its type and its
values, and two rows are one group exactly when their keys are the same values. -/
def KeyTable.GivenBack (t : KeyTable lib m) : Prop :=
  (∀ j, buildValueColumn (machine lib) (t.rows.map fun row => (row j).read)
      (preservedType (t.types j)) = some ⟨t.types j, t.rows.map fun row => (row j).cell⟩) ∧
    ∀ r ∈ t.rows, ∀ s ∈ t.rows,
      ((readRow r).key (machine lib) = (readRow s).key (machine lib) ↔ ∀ j, Same (r j) (s j))

theorem mapM_cells_iff {α β γ : Type} {f : β → Option γ} {value : α → β} {cell : α → γ} {l : List α} :
    (l.map value).mapM f = some (l.map cell) ↔ ∀ a ∈ l, f (value a) = some (cell a) := by
  induction l with
  | nil => simp
  | cons a l ih =>
    rw [map_cons, map_cons, mapM_cons, forall_mem_cons, ← ih]
    cases f (value a) with
    | none => simp
    | some c => cases (l.map value).mapM f <;> simp

/-- **Keys are told apart, and every key column is given back exactly if no unsigned 64-bit value
of it is 2^63 or more.** Equal bytes are equal keys (`key_eq_iff`); such a value is read as a
negative number, which the column it came from cannot hold. -/
theorem givenBack_iff (t : KeyTable lib m) :
    t.GivenBack ↔ ∀ j, ∀ row ∈ t.rows, ∀ n, row j = .uint64 n → n < 2 ^ 63 := by
  have hkeys : ∀ r ∈ t.rows, ∀ s ∈ t.rows,
      ((readRow r).key (machine lib) = (readRow s).key (machine lib) ↔ ∀ j, Same (r j) (s j)) := by
    intro r hr s hs
    exact key_eq_iff t.keys (t.fits r hr) (t.fits s hs)
  rw [KeyTable.GivenBack, and_iff_left hkeys]
  refine forall_congr' fun j => ?_
  by_cases hna : t.types j = .na
  · have hnul : ∀ row ∈ t.rows, row j = .nul := by
      intro row hrow
      have hfits := (t.fits row hrow j).1
      rw [hna] at hfits
      cases hcell : row j <;> rw [hcell] at hfits <;> first | rfl | cases hfits
    refine iff_of_true ?_ fun row hrow n hn => by rw [hnul row hrow] at hn; cases hn
    have hread : t.rows.map (fun row => (row j).read) = t.rows.map fun _ => .nul :=
      map_congr_left fun row hrow => by rw [hnul row hrow]; rfl
    have hcell : t.rows.map (fun row => (row j).cell) = t.rows.map fun _ => .null :=
      map_congr_left fun row hrow => by rw [hnul row hrow]; rfl
    rw [hread, hcell, hna]
    simp [preservedType, buildValueColumn, inferType, Value.isNull, inferredCell]
  · have htyped : preservedType (t.types j) = some (t.types j) := by
      cases htype : t.types j with
      | na => exact absurd htype hna
      | union =>
        have hkey := t.keys j
        rw [htype] at hkey
        cases hkey
      | _ => rfl
    rw [htyped, buildValueColumn, Option.map_eq_some_iff]
    simp only [Aggregate.Column.mk.injEq, true_and, exists_eq_right]
    rw [mapM_cells_iff]
    exact forall₂_congr fun row hrow => built_cell_iff (t.keys j) hna (t.fits row hrow j)

/-- Nothing of the library matters here. -/
def bitsLib : ValueLib (BitVec 64) Unit where
  lt _ _ := false
  zero := 0
  add a _ := a
  divNat a _ := a
  ofInt _ := 0
  toInt _ := 0
  toFloat d := d
  keyBytes _ := []
  doubleText _ := []
  otherText _ := []
  accepts _ _ := true
  utf8 _ := true

/-- One unsigned key, 2^63. -/
def unsignedTable : KeyTable bitsLib 1 where
  types _ := .integer .uint64 0
  rows := [fun _ => .uint64 (2 ^ 63)]
  keys _ := rfl
  fits row hrow j := by
    rw [mem_singleton.mp hrow]
    exact ⟨trivial, (by decide : 2 ^ 63 < 2 ^ 64), trivial⟩

/-- It is read as -2^63, which no unsigned column takes. -/
theorem unsignedTable_not_givenBack : ¬ unsignedTable.GivenBack := by
  intro h
  exact absurd (h.1 0) (by decide)

end MldpDriver.Query.Window
