/-
# How exact the comparisons are

Every single comparison of numbers goes through `double`, nanosecond timestamps included, while
BETWEEN has a table of types of its own: it compares nanoseconds as integers, takes no strings, and
takes no integer bound for a timestamp.
-/
import MldpDriver.Query.Predicate

namespace MldpDriver.Query

open Lib (Binary64)
open Lib.Binary64 (toBinary64 toBinary64_mono)

/-! ## 1. The order of integers -/

/-- The mathematical result of a comparison. -/
def orderResult (a b : Int) : PredicateOp → Bool
  | .EQ => decide (a = b)
  | .NEQ => decide (a ≠ b)
  | .LT => decide (a < b)
  | .LTE => decide (a ≤ b)
  | .GT => decide (b < a)
  | .GTE => decide (b ≤ a)
  | _ => false

def IsOrderOp (op : PredicateOp) : Prop :=
  op = .EQ ∨ op = .NEQ ∨ op = .LT ∨ op = .LTE ∨ op = .GT ∨ op = .GTE

/-- The two integers of a comparison with a literal of the same kind. -/
def integerPair : NativeScalar → Literal → Option (Int × Int)
  | .signedInteger a, .int64 b => some (a, b)
  | .unsignedInteger a, .int64 b => some (a, b)
  | .timestamp a, .timestampNs b => some (a, b)
  | _, _ => none

/-- **A comparison decides the order of the rounded integers.** -/
theorem compareNumeric_ofInt (a b : Int) (op : PredicateOp) :
    compareNumeric (.ofInt a) (.ofInt b) op = orderResult (toBinary64 a) (toBinary64 b) op := by
  cases op <;> simp [compareNumeric, orderResult]

variable {native : NativeScalar}

theorem compareSingle_integerPair {literal : Literal} {a b : Int}
    (h : integerPair native literal = some (a, b)) (op : PredicateOp) :
    compareSingle native literal op = orderResult (toBinary64 a) (toBinary64 b) op := by
  rw [← compareNumeric_ofInt]
  unfold integerPair at h
  split at h
  · obtain ⟨rfl, rfl⟩ := Prod.mk.inj (Option.some.inj h)
    rfl
  · obtain ⟨rfl, rfl⟩ := Prod.mk.inj (Option.some.inj h)
    rfl
  · obtain ⟨rfl, rfl⟩ := Prod.mk.inj (Option.some.inj h)
    rfl
  · cases h

theorem orderResult_rounded_iff (a b : Int) :
    (∀ op, IsOrderOp op → orderResult (toBinary64 a) (toBinary64 b) op = orderResult a b op) ↔
      (toBinary64 a = toBinary64 b → a = b) := by
  constructor
  · intro h heq
    have := h .EQ (.inl rfl)
    simp only [orderResult, heq, decide_true] at this
    exact of_decide_eq_true this.symm
  · intro hapart op hop
    rcases Int.lt_trichotomy a b with hlt | heq | hlt
    · have hle := toBinary64_mono (le_of_lt hlt)
      have hne : toBinary64 a ≠ toBinary64 b := fun h => by
        have := hapart h
        omega
      rcases hop with rfl | rfl | rfl | rfl | rfl | rfl <;>
        simp only [orderResult, decide_eq_decide] <;> omega
    · rw [heq]
      rcases hop with rfl | rfl | rfl | rfl | rfl | rfl <;> simp [orderResult]
    · have hle := toBinary64_mono (le_of_lt hlt)
      have hne : toBinary64 a ≠ toBinary64 b := fun h => by
        have := hapart h
        omega
      rcases hop with rfl | rfl | rfl | rfl | rfl | rfl <;>
        simp only [orderResult, decide_eq_decide] <;> omega

/-! ## 2. One predicate

The six comparisons of an integer or a timestamp with a literal of its kind give the order of
the integers exactly when the two, if different, are different doubles (`exactOrder_iff`). -/

theorem compareSingle_invalid (h : native = .null ∨ native = .unsupported) (literal : Literal)
    (op : PredicateOp) : compareSingle native literal op = false := by
  rcases h with rfl | rfl <;> rfl

theorem scalarMatches_single (cell : Cell) (column : String) {op : PredicateOp} (literal : Literal)
    (hop : IsOrderOp op) :
    scalarMatchesPredicate cell ⟨column, op, [literal]⟩ =
      compareSingle (nativeScalarFromArrow cell) literal op := by
  cases h : nativeScalarFromArrow cell with
  | null =>
    rw [compareSingle_invalid (.inl rfl)]
    rcases hop with rfl | rfl | rfl | rfl | rfl | rfl <;> simp only [scalarMatchesPredicate, h]
  | unsupported =>
    rw [compareSingle_invalid (.inr rfl)]
    rcases hop with rfl | rfl | rfl | rfl | rfl | rfl <;> simp only [scalarMatchesPredicate, h]
  | _ =>
    rcases hop with rfl | rfl | rfl | rfl | rfl | rfl <;> simp only [scalarMatchesPredicate, h]

theorem scalarMatches_between (cell : Cell) (column : String) (values : List Literal) :
    scalarMatchesPredicate cell ⟨column, .BETWEEN, values⟩ =
      match nativeScalarFromArrow cell with
      | .null => false
      | .unsupported => false
      | native => matchesBetween native values := rfl

/-- The six comparisons of a cell with a literal of its kind are those of the integers. -/
def ExactOrder (cell : Cell) (literal : Literal) : Prop :=
  ∀ a b, integerPair (nativeScalarFromArrow cell) literal = some (a, b) →
    ∀ column op, IsOrderOp op →
      scalarMatchesPredicate cell ⟨column, op, [literal]⟩ = orderResult a b op

/-- The two integers, if different, are different doubles. -/
def RoundsApart (cell : Cell) (literal : Literal) : Prop :=
  ∀ a b, integerPair (nativeScalarFromArrow cell) literal = some (a, b) →
    toBinary64 a = toBinary64 b → a = b

theorem exactOrder_iff (cell : Cell) (literal : Literal) :
    ExactOrder cell literal ↔ RoundsApart cell literal := by
  refine forall₃_congr fun a b hpair => ?_
  rw [← orderResult_rounded_iff]
  constructor
  · intro h op hop
    rw [← h "" op hop, scalarMatches_single cell "" literal hop, compareSingle_integerPair hpair]
  · intro h column op hop
    rw [scalarMatches_single cell column literal hop, compareSingle_integerPair hpair, h op hop]

/-! ## 3. BETWEEN

`BETWEEN a AND b` is `>= a AND <= b` for numbers, and elsewhere under the condition of
`BetweenSafe` (`betweenAgrees_iff`). -/

/-- The single comparisons have a branch for a cell of this kind and this literal. -/
def accepts : NativeScalar → Literal → Bool
  | .timestamp _, .int64 _ => true
  | .timestamp _, .timestampNs _ => true
  | .duration _, .durationNs _ => true
  | .string _, .string _ => true
  | .boolean _, .bool _ => true
  | native, literal =>
    native.asDouble?.isSome && (nativeScalarFromLiteral literal).asDouble?.isSome

/-- BETWEEN gives what the two single comparisons give, on bounds that these accept. -/
def BetweenAgrees (cell : Cell) (lo hi : Literal) : Prop :=
  accepts (nativeScalarFromArrow cell) lo = true → accepts (nativeScalarFromArrow cell) hi = true →
    ∀ column, scalarMatchesPredicate cell ⟨column, .BETWEEN, [lo, hi]⟩ =
      (scalarMatchesPredicate cell ⟨column, .GTE, [lo]⟩ &&
        scalarMatchesPredicate cell ⟨column, .LTE, [hi]⟩)

/-- A value outside the bounds is still outside when all three are rounded. -/
def RoundsOutside (lo value hi : Int) : Prop :=
  toBinary64 lo ≤ toBinary64 value → toBinary64 value ≤ toBinary64 hi → lo ≤ value ∧ value ≤ hi

/-- The cell is not inside the bounds as the single comparisons see it. -/
def Outside (native : NativeScalar) (lo hi : Literal) : Prop :=
  ¬ (compareSingle native lo .GTE = true ∧ compareSingle native hi .LTE = true)

/-- **When BETWEEN may be used**: always with numbers and booleans; on nanoseconds with nanosecond
bounds where rounding does not bring the value in; on strings, and on a timestamp with a bound in
whole seconds, only for cells that are outside anyway. -/
def BetweenSafe (native : NativeScalar) (lo hi : Literal) : Prop :=
  match native, lo, hi with
  | .timestamp ns, .timestampNs l, .timestampNs h => RoundsOutside l ns h
  | .duration ns, .durationNs l, .durationNs h => RoundsOutside l ns h
  | .timestamp ns, lo, hi => Outside (.timestamp ns) lo hi
  | .string s, lo, hi => Outside (.string s) lo hi
  | _, _, _ => True

theorem rounded_between_iff (lo value hi : Int) :
    ((decide (lo ≤ value) && decide (value ≤ hi)) =
      (decide (toBinary64 lo ≤ toBinary64 value) && decide (toBinary64 value ≤ toBinary64 hi))) ↔
      RoundsOutside lo value hi := by
  have hlo : lo ≤ value → toBinary64 lo ≤ toBinary64 value := fun h => toBinary64_mono h
  have hhi : value ≤ hi → toBinary64 value ≤ toBinary64 hi := fun h => toBinary64_mono h
  rw [Bool.eq_iff_iff]
  simp only [Bool.and_eq_true, decide_eq_true_eq, RoundsOutside]
  constructor
  · intro h h1 h2
    exact h.mpr ⟨h1, h2⟩
  · intro h
    exact ⟨fun hin => ⟨hlo hin.1, hhi hin.2⟩, fun hin => h hin.1 hin.2⟩

theorem false_between_iff {lo hi : Literal} (h : matchesBetween native [lo, hi] = false) :
    (matchesBetween native [lo, hi] =
      (compareSingle native lo .GTE && compareSingle native hi .LTE)) ↔ Outside native lo hi := by
  rw [h, Outside, ← Bool.and_eq_true, Bool.not_eq_true]
  exact eq_comm

/-- **BETWEEN against the two comparisons**, by the kind of the cell. -/
theorem matchesBetween_iff {lo hi : Literal} (hlo : accepts native lo = true)
    (hhi : accepts native hi = true) :
    (matchesBetween native [lo, hi] =
      (compareSingle native lo .GTE && compareSingle native hi .LTE)) ↔
      BetweenSafe native lo hi := by
  cases native with
  | null | unsupported => cases lo <;> cases hlo
  | string s =>
    refine false_between_iff ?_
    cases lo <;> cases hi <;> rfl
  | boolean b =>
    cases lo <;> cases hlo
    cases hi <;> cases hhi
    exact iff_of_true rfl trivial
  | signedInteger n | unsignedInteger n | floatingPoint d =>
    cases lo <;> cases hlo <;> cases hi <;> cases hhi <;> exact iff_of_true rfl trivial
  | timestamp ns =>
    cases lo with
    | timestampNs l =>
      cases hi with
      | timestampNs h =>
        simp only [matchesBetween, compareSingle, nativeScalarFromLiteral, compareNumeric,
          Lib.Binary64.leb_ofInt, BetweenSafe]
        exact rounded_between_iff l ns h
      | int64 | string | double | bool | durationNs => exact false_between_iff rfl
    | int64 | string | double | bool | durationNs =>
      refine false_between_iff ?_
      cases hi <;> rfl
  | duration ns =>
    cases lo <;> cases hlo
    cases hi <;> cases hhi
    simp only [matchesBetween, compareSingle, nativeScalarFromLiteral, compareNumeric,
      Lib.Binary64.leb_ofInt, BetweenSafe]
    exact rounded_between_iff _ ns _

theorem betweenSafe_of_not_accepts {lo hi : Literal}
    (h : ¬ (accepts native lo = true ∧ accepts native hi = true)) : BetweenSafe native lo hi := by
  cases native with
  | null | unsupported | boolean | signedInteger | unsignedInteger | floatingPoint =>
    cases lo <;> cases hi <;> trivial
  | string s =>
    rintro ⟨h1, h2⟩
    cases lo <;> cases hi <;> first | exact h ⟨rfl, rfl⟩ | cases h1 | cases h2
  | timestamp ns =>
    cases lo <;> cases hi <;>
      first
      | exact absurd ⟨rfl, rfl⟩ h
      | (rintro ⟨h1, h2⟩; first | cases h1 | cases h2)
  | duration ns =>
    cases lo <;> cases hi <;> first | exact absurd ⟨rfl, rfl⟩ h | trivial

theorem betweenAgrees_iff (cell : Cell) (lo hi : Literal) :
    BetweenAgrees cell lo hi ↔ BetweenSafe (nativeScalarFromArrow cell) lo hi := by
  by_cases hacc : accepts (nativeScalarFromArrow cell) lo = true ∧
      accepts (nativeScalarFromArrow cell) hi = true
  · have hge (column : String) :=
      scalarMatches_single cell column lo (show IsOrderOp .GTE by simp [IsOrderOp])
    have hle (column : String) :=
      scalarMatches_single cell column hi (show IsOrderOp .LTE by simp [IsOrderOp])
    rw [← matchesBetween_iff hacc.1 hacc.2, BetweenAgrees]
    simp only [hacc.1, hacc.2, hge, hle, scalarMatches_between, forall_const]
    split
    · rename_i h
      rw [h] at hacc
      cases lo <;> cases hacc.1
    · rename_i h
      rw [h] at hacc
      cases lo <;> cases hacc.1
    · rfl
  · exact iff_of_true (fun h1 h2 => absurd ⟨h1, h2⟩ hacc) (betweenSafe_of_not_accepts hacc)

/-! ## 4. Together -/

/-- **When the comparisons are exact and BETWEEN is the pair of comparisons**: exactly when two
integers that differ are apart as doubles too, times answer alike in nanoseconds and as doubles,
and a string, or a timestamp between other literals, is outside its bounds, as BETWEEN always
says. -/
theorem comparisons_iff (cell : Cell) (literal lo hi : Literal) :
    ExactOrder cell literal ∧ BetweenAgrees cell lo hi ↔
      RoundsApart cell literal ∧ BetweenSafe (nativeScalarFromArrow cell) lo hi :=
  and_congr (exactOrder_iff cell literal) (betweenAgrees_iff cell lo hi)

/-- `2 ^ 53 + 1 = 2 ^ 53` is TRUE, and so is the equality of two timestamps 1 ns apart; a string
between two others is in no BETWEEN. -/
theorem rounded_comparisons :
    ¬ ExactOrder (.scalar (.signedInteger 9007199254740993)) (.int64 9007199254740992) ∧
      ¬ ExactOrder (.scalar (.timestamp 1700000000000000001)) (.timestampNs 1700000000000000000) ∧
      ¬ BetweenAgrees (.scalar (.string "b")) (.string "a") (.string "c") := by
  refine ⟨fun h => ?_, fun h => ?_, fun h => ?_⟩
  · exact absurd (h _ _ rfl "value" .EQ (.inl rfl)) (by decide +kernel)
  · exact absurd (h _ _ rfl "time" .EQ (.inl rfl)) (by decide +kernel)
  · exact absurd (h rfl rfl "pv") (by decide +kernel)

end MldpDriver.Query
