/-
# ORDER BY

`applySort` combines its input into one batch, sorts the row numbers by the keys and gathers the
rows.  Two rows are compared key by key, null last; two valid values are compared by the TEXTS
Arrow prints for them.  `text` stands for `arrow::Scalar::ToString`.

Section 3 states what ORDER BY is for, with the typed order of the values in place of the texts.
-/
import MldpDriver.Arrow.RecordBatch
import MldpDriver.Lib.Binary64
import MldpDriver.Lib.StableSort

namespace MldpDriver.Query.Sort

open MldpDriver.Arrow List
open Lib (Binary64)
open Lib.StableSort

/-! ## 1. Values and the comparison -/

/-- A valid Arrow scalar of a sortable type; `bits` are those of the `double`, `bytes` those of the
`std::string`. -/
inductive Scalar where
  | boolean (value : Bool)
  | integer (value : Int)
  | float64 (bits : BitVec 64)
  | string (bytes : List UInt8)
  | timestamp (ns : Int)
  deriving DecidableEq

/-- `plan::SortKey`. -/
structure SortKey where
  column : String
  descending : Bool := false

/-- A row, slot by slot. -/
abbrev Row := List (Option Scalar)

/-- A sort key after the name lookup: the column's number and the direction. -/
abbrev ResolvedKey := Nat × Bool

variable {T : Type} (text : Scalar → List UInt8)

/-- The lambda of `std::stable_sort`: the texts of the first key whose texts differ decide. -/
def rowLess : List ResolvedKey → Row → Row → Bool
  | [], _, _ => false
  | (column, descending) :: keys, lhs, rhs =>
    match lhs[column]?.join, rhs[column]?.join with
    | some l, some r =>
      if text l == text r then rowLess keys lhs rhs
      else if descending then decide (text r < text l)
      else decide (text l < text r)
    | some _, none => true
    | none, some _ => false
    | none, none => rowLess keys lhs rhs

/-- The index lookup of `applySortImpl`: the column of that name, else the first column qualified
with it. -/
def resolveKey (schema : List (Arrow.Field T)) (key : SortKey) : Except String ResolvedKey :=
  match fieldIndex schema key.column with
  | some i => .ok (i, key.descending)
  | none =>
    match (schema.zipIdx.find? fun f =>
        (key.column.length + 1 < f.1.name.length) && f.1.name.endsWith ("." ++ key.column)) with
    | some (_, i) => .ok (i, key.descending)
    | none => .error ("ORDER BY references unknown column: " ++ key.column)

def resolveKeys (schema : List (Arrow.Field T)) (keys : List SortKey) :
    Except String (List ResolvedKey) :=
  keys.mapM (resolveKey schema)

/-- The sorted row numbers. -/
def sortedRows (keys : List ResolvedKey) (batch : Arrow.RecordBatch T Scalar) : List Nat :=
  stableSort (onKey batch.row (rowLess text keys)) (List.range batch.numRows)

/-- `applySort`. -/
def applySort [DecidableEq T] (input : List (Arrow.RecordBatch T Scalar)) (keys : List SortKey) :
    Except String (List (Arrow.RecordBatch T Scalar)) :=
  if input.isEmpty || keys.isEmpty then .ok input
  else do
    match ← combineBatches input with
    | none => .ok []
    | some batch =>
      let resolved ← resolveKeys batch.schema keys
      .ok [batch.take ((sortedRows text resolved batch).map some)]

/-! ## 2. The comparison is a weak order -/

/-- The comparison at one key. -/
def keyLess (less : Scalar → Scalar → Bool) (key : ResolvedKey) : Row → Row → Bool :=
  onKey (fun row => row[key.1]?.join)
    (nullsLast (if key.2 then reversed less else less))

/-- The comparison by a list of keys, the first key deciding first. -/
def keysLess (less : Scalar → Scalar → Bool) (keys : List ResolvedKey) : Row → Row → Bool :=
  keys.foldr (fun key rest => thenBy (keyLess less key) rest) tied

theorem keysLess_weakOrder {less : Scalar → Scalar → Bool} (h : WeakOrder less)
    (keys : List ResolvedKey) : WeakOrder (keysLess less keys) := by
  induction keys with
  | nil => exact WeakOrder.tied
  | cons key keys ih =>
    refine WeakOrder.thenBy (WeakOrder.onKey (WeakOrder.nullsLast ?_) _) ih
    split
    · exact h.reversed
    · exact h

/-- The order of the texts. -/
def textLess : Scalar → Scalar → Bool := onKey text fun l r => decide (l < r)

theorem bytesLess_weakOrder : WeakOrder fun l r : List UInt8 => decide (l < r) where
  asymm a b h := by
    simp only [decide_eq_true_eq, decide_eq_false_iff_not] at h ⊢
    exact List.lt_asymm h
  trans a b c hab hbc := by
    simp only [decide_eq_false_iff_not] at hab hbc ⊢
    exact List.not_lt.mpr (List.le_trans (List.not_lt.mp hbc) (List.not_lt.mp hab))

theorem textLess_weakOrder : WeakOrder (textLess text) := bytesLess_weakOrder.onKey text

theorem bytes_eq_of_not_lt {l r : List UInt8} (h1 : ¬ l < r) (h2 : ¬ r < l) : l = r :=
  List.le_antisymm (List.not_lt.mp h2) (List.not_lt.mp h1)

/-- **The lambda compares by the texts, null last.** -/
theorem rowLess_eq (keys : List ResolvedKey) : rowLess text keys = keysLess (textLess text) keys := by
  induction keys with
  | nil => rfl
  | cons key keys ih =>
    obtain ⟨column, descending⟩ := key
    funext lhs rhs
    have hrest : keysLess (textLess text) ((column, descending) :: keys) lhs rhs =
        thenBy (keyLess (textLess text) (column, descending)) (keysLess (textLess text) keys)
          lhs rhs := rfl
    rw [hrest, ← ih]
    simp only [rowLess, thenBy, keyLess, onKey]
    cases lhs[column]?.join with
    | none => cases rhs[column]?.join <;> simp [nullsLast]
    | some l =>
      cases rhs[column]?.join with
      | none => simp [nullsLast]
      | some r =>
        by_cases heq : text l = text r
        · have hlt : ¬ text r < text r := List.lt_irrefl _
          cases descending <;> simp [nullsLast, reversed, textLess, onKey, heq, hlt]
        · -- the texts differ, so one of them is less
          rcases Classical.em (text l < text r) with hlt | hlt
          · have := List.lt_asymm hlt
            cases descending <;> simp [nullsLast, reversed, textLess, onKey, heq, hlt, this]
          · have hgt : text r < text l := by
              by_contra hgt
              exact heq (bytes_eq_of_not_lt hlt hgt)
            cases descending <;> simp [nullsLast, reversed, textLess, onKey, heq, hlt, hgt]

theorem rowLess_weakOrder (keys : List ResolvedKey) : WeakOrder (rowLess text keys) := by
  rw [rowLess_eq]
  exact keysLess_weakOrder (textLess_weakOrder text) keys

/-! ## 3. What ORDER BY is for -/

/-- The numeric order of doubles; NaN after all numbers. -/
def floatLess (l r : Binary64) : Bool := l.ltb r || (l != .nan && r == .nan)

/-- The typed order of two values of one type. -/
def typedLess : Scalar → Scalar → Bool
  | .boolean l, .boolean r => !l && r
  | .integer l, .integer r => decide (l < r)
  | .float64 l, .float64 r => floatLess (.ofBits l) (.ofBits r)
  | .string l, .string r => decide (l < r)
  | .timestamp l, .timestamp r => decide (l < r)
  | _, _ => false

/-- The row of a number. -/
def rowOf (input : List Row) (i : Nat) : Row := input[i]?.getD []

/-- **The purpose of ORDER BY.**  The output is the input rearranged, sorted by the typed order of
the keys with nulls last, rows with equal keys in their input order. -/
def Sorts (keys : List ResolvedKey) (input output : List Row) : Prop :=
  ∃ order : List Nat, order.Perm (List.range input.length) ∧
    order.Pairwise (Before (onKey (rowOf input) (keysLess typedLess keys)) Earlier) ∧
    output = order.map (rowOf input)

/-- For every two rows, the texts and the typed values agree on whether the later one goes first. -/
def TextsAgree (keys : List ResolvedKey) (input : List Row) : Prop :=
  ∀ i j, i < j → j < input.length →
    rowLess text keys (rowOf input j) (rowOf input i) =
      keysLess typedLess keys (rowOf input j) (rowOf input i)

theorem ltb_asymm {l r : Binary64} (h : l.ltb r = true) : r.ltb l = false := by
  cases l <;> cases r <;> simp_all [Binary64.ltb]
  exact le_of_lt h

theorem floatLess_asymm : Asymmetric floatLess := by
  intro l r h
  simp only [floatLess, Bool.or_eq_true, Bool.and_eq_true, bne_iff_ne, beq_iff_eq] at h
  rcases h with h | ⟨hl, rfl⟩
  · have hl : l ≠ .nan := by
      rintro rfl
      simp [Binary64.ltb] at h
    simp [floatLess, ltb_asymm h, hl]
  · simp [floatLess, Binary64.ltb]

theorem typedLess_asymm : Asymmetric typedLess := by
  intro l r h
  cases l <;> cases r <;> simp only [typedLess] at h ⊢
  case boolean.boolean => simp_all
  case integer.integer | timestamp.timestamp => simp only [decide_eq_true_eq] at h; simp; omega
  case float64.float64 => exact floatLess_asymm _ _ h
  case string.string => exact bytesLess_weakOrder.asymm _ _ h

theorem keysLess_asymm {less : Scalar → Scalar → Bool} (h : Asymmetric less)
    (keys : List ResolvedKey) : Asymmetric (keysLess less keys) := by
  induction keys with
  | nil => exact Asymmetric.tied
  | cons key keys ih =>
    refine Asymmetric.thenBy (Asymmetric.onKey (Asymmetric.nullsLast ?_) _) ih
    split
    · exact h.reversed
    · exact h

theorem rowOf_rows (batch : Arrow.RecordBatch T Scalar) {i : Nat} (h : i < batch.numRows) :
    rowOf batch.rows i = batch.row i := by
  simp [rowOf, Arrow.RecordBatch.rows, h]

theorem rows_sorted (keys : List ResolvedKey) (batch : Arrow.RecordBatch T Scalar) :
    (batch.take ((sortedRows text keys batch).map some)).rows =
      (stableSort (onKey (rowOf batch.rows) (rowLess text keys))
        (List.range batch.rows.length)).map (rowOf batch.rows) := by
  have hkey : ∀ i ∈ List.range batch.numRows, rowOf batch.rows i = batch.row i := fun i hi =>
    rowOf_rows batch (mem_range.mp hi)
  have hsort : sortedRows text keys batch = stableSort (onKey (rowOf batch.rows) (rowLess text keys))
      (List.range batch.rows.length) := by
    rw [Arrow.RecordBatch.length_rows]
    exact stableSort_congr fun a ha b hb => by simp only [onKey, hkey a ha, hkey b hb]
  rw [rows_take, map_map, ← hsort]
  refine map_congr_left fun i hi => ?_
  have hi' : i ∈ List.range batch.numRows := (stableSort_perm _ _).mem_iff.mp hi
  simpa [Arrow.RecordBatch.rowAt] using (hkey i hi').symm

theorem sorts_take_iff (keys : List ResolvedKey) (batch : Arrow.RecordBatch T Scalar) :
    Sorts keys batch.rows (batch.take ((sortedRows text keys batch).map some)).rows ↔
      TextsAgree text keys batch.rows := by
  rw [rows_sorted]
  exact stableSort_shows_iff (rowLess_weakOrder text keys) (keysLess_asymm typedLess_asymm keys)

theorem sorts_refl {keys : List ResolvedKey} {input : List Row} (h : keys = [] ∨ input = []) :
    Sorts keys input input := by
  refine ⟨List.range input.length, List.Perm.refl _, ?_, ?_⟩
  · rcases h with rfl | rfl
    · exact pairwise_lt_range.imp fun hij => ⟨rfl, fun _ => hij⟩
    · exact List.Pairwise.nil
  · refine ext_getElem (by simp) fun i hi _ => ?_
    simp [rowOf, hi]

theorem textsAgree_trivial {keys : List ResolvedKey} {input : List Row}
    (h : keys = [] ∨ input = []) : TextsAgree text keys input := by
  rcases h with rfl | rfl
  · exact fun _ _ _ _ => rfl
  · intro i j _ hj
    simp at hj

theorem resolveKeys_nil_iff {schema : List (Arrow.Field T)} {keys : List SortKey}
    {resolved : List ResolvedKey} (h : resolveKeys schema keys = .ok resolved) :
    keys = [] → resolved = [] := by
  rintro rfl
  exact (Except.ok.inj h).symm

variable [DecidableEq T]

/-- **ORDER BY sorts by the typed order exactly when the printed texts of the keys order every two
rows as their values do.**  The input is any list of batches of one schema, and the keys any that
the schema resolves. -/
theorem applySort_sorts_iff {schema : List (Arrow.Field T)} {input : List (Arrow.RecordBatch T Scalar)}
    {keys : List SortKey} {resolved : List ResolvedKey} (hschema : ∀ b ∈ input, b.schema = schema)
    (hkeys : resolveKeys schema keys = .ok resolved) :
    ∃ output, applySort text input keys = .ok output ∧
      (Sorts resolved (input.flatMap (·.rows)) (output.flatMap (·.rows)) ↔
        TextsAgree text resolved (input.flatMap (·.rows))) := by
  rcases keys with _ | ⟨key, keys⟩
  · have hnil := resolveKeys_nil_iff hkeys rfl
    exact ⟨input, by simp [applySort],
      iff_of_true (sorts_refl (Or.inl hnil)) (textsAgree_trivial text (Or.inl hnil))⟩
  rcases combineBatches_spec hschema with ⟨rfl, -⟩ | ⟨hne, batch, hbatch, hs, hrows⟩
  · exact ⟨[], rfl, iff_of_true (sorts_refl (Or.inr rfl)) (textsAgree_trivial text (Or.inr rfl))⟩
  · refine ⟨[batch.take ((sortedRows text resolved batch).map some)], ?_, ?_⟩
    · rw [← hs] at hkeys
      simp [applySort, hne, hbatch, hkeys, Bind.bind, Except.bind]
    · rw [← hrows]
      simpa using sorts_take_iff text resolved batch

/-! ## 4. Two rows out of order -/

/-- `Scalar::ToString` of integers, booleans and strings. -/
def printed : Scalar → List UInt8
  | .boolean value => if value then [116, 114, 117, 101] else [102, 97, 108, 115, 101]
  | .integer value =>
    (if value < 0 then [45] else []) ++
      (Nat.toDigits 10 value.natAbs).map fun c => c.toNat.toUInt8
  | .string bytes => bytes
  | .float64 _ | .timestamp _ => []

/-- The rows 10, 9 of one integer column `n`. -/
def tenNine : Arrow.RecordBatch String Scalar where
  schema := [⟨"n", "int64", true⟩]
  numRows := 2
  columns := [[some (.integer 10), some (.integer 9)]]
  columns_length := rfl
  column_length := by simp

theorem applySort_sorts_iff_tenNine :
    ∃ output, applySort printed [tenNine] [⟨"n", true⟩] = .ok output ∧
      (Sorts [(0, true)] ([tenNine].flatMap (·.rows)) (output.flatMap (·.rows)) ↔
        TextsAgree printed [(0, true)] ([tenNine].flatMap (·.rows))) :=
  applySort_sorts_iff printed (show ∀ b ∈ [tenNine], b.schema = tenNine.schema by simp) (by decide)

/-- `"10"` is less than `"9"`, so the rows stay as they are. -/
theorem sortedRows_tenNine : sortedRows printed [(0, false)] tenNine = [0, 1] :=
  mergeSort_of_pairwise (by decide)

/-- **Ascending order of 10 and 9 puts 10 first.** -/
theorem applySort_tenNine :
    ∃ output, applySort printed [tenNine] [⟨"n", false⟩] = .ok output ∧
      ¬ Sorts [(0, false)] tenNine.rows (output.flatMap (·.rows)) := by
  refine ⟨[tenNine.take [some 0, some 1]], ?_, ?_⟩
  · have hkeys : resolveKeys tenNine.schema [⟨"n", false⟩] = .ok [(0, false)] := by decide
    simp [applySort, combineBatches, combineChunks, Except.map, Bind.bind, Except.bind, hkeys,
      sortedRows_tenNine]
  · rintro ⟨order, hp, hsorted, hsame⟩
    -- the two rows differ, so the arrangement is the identity
    obtain rfl | rfl : order = [0, 1] ∨ order = [1, 0] := by
      obtain ⟨a, b, rfl⟩ := length_eq_two.mp hp.length_eq
      have ha : a ∈ [0, 1] := hp.mem_iff.mp (by simp)
      have hb : b ∈ [0, 1] := hp.mem_iff.mp (by simp)
      have hn := hp.nodup_iff.mpr nodup_range
      simp_all
      omega
    · revert hsorted
      simp [Before, onKey, keysLess]
      decide
    · revert hsame
      decide

end MldpDriver.Query.Sort
