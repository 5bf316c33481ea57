/-
# When the arithmetic of a query stays in 64 bits

No step of a query is guarded against overflow, so a query is only as good as its numbers.  Every
part of a query gets the exact bound on its numbers.
-/
import MldpDriver.Query.QueryArithmetic

namespace MldpDriver.Query.Evaluator

open List
open Lib.WordArithmetic (Calc)
open Lib.WordArithmetic.Calc
open Query.Membership (ColumnType)
open Utc (Text)

/-! ## 1. Literals -/

/-- The number a token spells. -/
def NumberToken.value (t : NumberToken) : Nat := (Utc.digits 0 t.digits).getD 0

/-- It fits `int64_t`. -/
def NumberToken.Readable (t : NumberToken) : Prop := (t.value : Int) ≤ int64Max

def DurationToken.secondsPerUnit (t : DurationToken) : Nat :=
  if t.unit = 's' ∨ t.unit = 'S' then 1
  else if t.unit = 'm' ∨ t.unit = 'M' then 60
  else if t.unit = 'h' ∨ t.unit = 'H' then 3600
  else 86400

/-- The length a duration literal means. -/
def DurationToken.seconds (t : DurationToken) : Int := t.value * t.secondsPerUnit

/-- The most whole seconds that are nanoseconds in an `int64_t`. -/
def maxSeconds : Int := 9223372036

theorem digits_isSome : ∀ {text : Text} (acc : Nat), (∀ c ∈ text, c.isDigit = true) →
    ∃ n, Utc.digits acc text = some n
  | [], acc, _ => ⟨acc, rfl⟩
  | c :: rest, acc, h => by
    rw [Utc.digits, if_pos (h c mem_cons_self)]
    exact digits_isSome _ fun d hd => h d (mem_cons_of_mem _ hd)

theorem int64FromChars_digits (t : NumberToken) :
    int64FromChars t.digits = checked t.value := by
  obtain ⟨n, hn⟩ := digits_isSome 0 t.isDigit
  have hvalue : t.value = n := by rw [NumberToken.value, hn, Option.getD_some]
  have hread : Utc.fromChars t.digits = some (n : Int) := by
    cases hdigits : t.digits with
    | nil => exact absurd hdigits t.digits_ne
    | cons c rest =>
      have hminus : c ≠ '-' := by
        rintro rfl
        exact absurd (t.isDigit '-' (by simp [hdigits])) (by decide)
      rw [Utc.fromChars, if_neg hminus, ← hdigits, hn]
      rfl
  rw [int64FromChars, hread, hvalue]
  rfl

theorem numberLiteral_eq {t : NumberToken} (h : t.Readable) :
    numberLiteral t.digits = pure (t.value : Int) := by
  have hlo : int64Min ≤ (t.value : Int) := by unfold int64Min; omega
  rw [numberLiteral, int64FromChars_digits, checked_eq hlo h]

variable {word : Int → Int}

theorem numberLiteral_succeeds (t : NumberToken) :
    (numberLiteral t.digits).Succeeds word ↔ t.Readable := by
  constructor
  · intro h
    rw [numberLiteral, int64FromChars_digits] at h
    cases hvalue : checked (t.value : Int) with
    | none => simp [hvalue] at h
    | some n => exact (checked_some hvalue).2
  · intro h
    rw [numberLiteral_eq h]
    exact succeeds_pure word _

theorem lexeme_dropLast (t : DurationToken) : t.lexeme.dropLast = t.digits := by
  rw [DurationToken.lexeme, dropLast_concat]

theorem lexeme_getLast (t : DurationToken) : t.lexeme.getLast? = some t.unit := by
  rw [DurationToken.lexeme, List.getLast?_concat]

theorem two_le_lexeme (t : DurationToken) : ¬ t.lexeme.length < 2 := by
  have := length_pos_iff.mpr t.digits_ne
  rw [DurationToken.lexeme, length_append, length_singleton]
  omega

theorem durationToSeconds_spec {t : DurationToken} (h : t.Readable) :
    (durationToSeconds t.lexeme).exact = .ok t.seconds ∧
      ((durationToSeconds t.lexeme).Within Fits ↔ t.seconds ≤ int64Max) ∧
      ∀ word, (durationToSeconds t.lexeme).Succeeds word := by
  have hlo : int64Min ≤ (t.value : Int) := by unfold int64Min; omega
  rw [durationToSeconds, if_neg (two_le_lexeme t), lexeme_dropLast, lexeme_getLast,
    int64FromChars_digits, checked_eq hlo h]
  unfold NumberToken.Readable at h
  simp only [Option.some.injEq, DurationToken.seconds, DurationToken.secondsPerUnit]
  split
  · exact ⟨by simp [exact], by simpa using h, fun word => succeeds_pure word _⟩
  split
  · refine ⟨rfl, ?_, fun word => succeeds_op word _⟩
    rw [within_op, Fits]
    omega
  split
  · refine ⟨congrArg Except.ok ?_, ?_, fun word => succeeds_bind.mpr ⟨_, rfl, succeeds_op word _⟩⟩
    · simp only [id_eq]
      omega
    · rw [within_op_bind, within_op, Fits, Fits]
      omega
  · have hday : t.unit = 'd' ∨ t.unit = 'D' := by
      have := t.unit_mem
      simp only [mem_cons, not_mem_nil, or_false] at this
      tauto
    rw [if_pos hday]
    refine ⟨congrArg Except.ok ?_, ?_, fun word =>
      succeeds_bind.mpr ⟨_, rfl, succeeds_bind.mpr ⟨_, rfl, succeeds_op word _⟩⟩⟩
    · simp only [id_eq]
      omega
    · rw [within_op_bind, within_op_bind, within_op, Fits, Fits, Fits]
      omega

theorem durationToSeconds_succeeds (t : DurationToken) :
    (durationToSeconds t.lexeme).Succeeds word ↔ t.Readable := by
  refine ⟨fun h => ?_, fun h => (durationToSeconds_spec h).2.2 word⟩
  rw [durationToSeconds, if_neg (two_le_lexeme t), lexeme_dropLast, int64FromChars_digits] at h
  cases hvalue : checked (t.value : Int) with
  | none => simp [hvalue] at h
  | some n => exact (checked_some hvalue).2

theorem seconds_nonneg (t : DurationToken) : 0 ≤ t.seconds := by
  unfold DurationToken.seconds
  positivity

theorem durationNs_succeeds (t : DurationToken) :
    (durationNs t.lexeme).Succeeds word ↔ t.Readable :=
  (succeeds_bind_left fun _ => succeeds_op word _).trans (durationToSeconds_succeeds t)

theorem durationNs_within {t : DurationToken} (h : t.Readable) :
    (durationNs t.lexeme).Within Fits ↔ t.seconds ≤ maxSeconds := by
  obtain ⟨hexact, hwithin, -⟩ := durationToSeconds_spec h
  have hnonneg := seconds_nonneg t
  rw [durationNs, within_bind, hwithin, hexact]
  simp only [Except.ok.injEq, forall_eq', within_op, Fits, int64Min, int64Max, maxSeconds]
  omega

/-- The `slice` of a window subquery goes by another way to the same bound. -/
theorem sliceNs_spec (t : DurationToken) :
    (∀ word, (sliceNs t.lexeme).Succeeds word ↔ t.Readable) ∧
      (t.Readable → ((sliceNs t.lexeme).Within Fits ↔ t.seconds ≤ maxSeconds)) := by
  have hsteps : sliceNs t.lexeme =
      (ofExcept ((checked t.value).elim (.error "stoll") .ok) >>= fun value =>
        op (value * t.secondsPerUnit) >>= fun seconds => op (seconds * 1000000000)) := by
    have hunit := t.unit_mem
    simp only [mem_cons, not_mem_nil, or_false] at hunit
    rw [sliceNs, lexeme_dropLast, lexeme_getLast, int64FromChars_digits,
      DurationToken.secondsPerUnit]
    rcases hunit with h | h | h | h | h | h | h | h <;> rw [h] <;> rfl
  have hlo : int64Min ≤ (t.value : Int) := by unfold int64Min; omega
  rw [hsteps]
  constructor
  · intro word
    have hrest : ∀ value : Int, (op (value * t.secondsPerUnit) >>= fun seconds =>
        (op (seconds * 1000000000) : Calc String Int)).Succeeds word := fun value =>
      succeeds_bind.mpr ⟨_, rfl, succeeds_op word _⟩
    rw [succeeds_bind_left hrest, Succeeds, run_ofExcept]
    cases hvalue : checked (t.value : Int) with
    | none =>
      refine iff_of_false (by simp) fun h => ?_
      rw [checked_eq hlo h] at hvalue
      cases hvalue
    | some n => exact iff_of_true ⟨n, rfl⟩ (checked_some hvalue).2
  · intro h
    have hnonneg := seconds_nonneg t
    unfold NumberToken.Readable at h
    rw [checked_eq hlo h]
    change (op _ >>= fun seconds => op _).Within Fits ↔ _
    rw [within_op_bind, within_op, ← DurationToken.seconds, Fits, Fits]
    unfold int64Min int64Max maxSeconds
    omega

/-- The numbers of a literal are `int64_t` values. -/
def LiteralText.Readable : LiteralText → Prop
  | .number t | .timestampNs _ t | .durationNs _ t => t.Readable
  | .duration t | .nowOffset _ t => t.Readable
  | _ => True

/-- Its duration is short enough for the unit it is turned into. -/
def LiteralText.InRange : LiteralText → Prop
  | .duration t => t.seconds ≤ maxSeconds
  | .nowOffset _ t => t.seconds ≤ int64Max
  | _ => True

theorem signed_succeeds (negative : Bool) (c : Calc String Int) :
    (signed negative c).Succeeds word ↔ c.Succeeds word := by
  refine succeeds_bind_left fun value => ?_
  cases negative
  · exact succeeds_pure word value
  · exact succeeds_op word _

theorem signed_within {c : Calc String Int} {n : Int} (negative : Bool) (hc : c.exact = .ok n)
    (hn : 0 ≤ n) (hfits : c.Within Fits → n ≤ int64Max) :
    (signed negative c).Within Fits ↔ c.Within Fits := by
  rw [signed, within_bind, hc]
  simp only [Except.ok.injEq, forall_eq']
  refine and_iff_left_of_imp fun hwithin => ?_
  have hle := hfits hwithin
  cases negative
  · exact within_pure n
  · change (op (-n)).Within Fits
    rw [within_op, Fits]
    unfold int64Min
    unfold int64Max at *
    omega

theorem parseLiteral_succeeds (t : LiteralText) :
    (parseLiteral t).Succeeds word ↔ t.Readable := by
  cases t with
  | string value => exact iff_true_intro (succeeds_pure word _)
  | bool value => exact iff_true_intro (succeeds_pure word _)
  | now => exact iff_true_intro (succeeds_pure word _)
  | number token => exact succeeds_map.trans (numberLiteral_succeeds token)
  | timestampNs negative token =>
    exact succeeds_map.trans ((signed_succeeds negative _).trans (numberLiteral_succeeds token))
  | durationNs negative token =>
    exact succeeds_map.trans ((signed_succeeds negative _).trans (numberLiteral_succeeds token))
  | duration token => exact succeeds_map.trans (durationNs_succeeds token)
  | nowOffset negative token =>
    exact succeeds_map.trans ((signed_succeeds negative _).trans (durationToSeconds_succeeds token))

theorem parseLiteral_within {t : LiteralText} (h : t.Readable) :
    (parseLiteral t).Within Fits ↔ t.InRange := by
  have hnumber : ∀ {token : NumberToken} (negative : Bool), token.Readable →
      ((signed negative (numberLiteral token.digits)).Within Fits ↔ True) := by
    intro token negative hread
    rw [signed_within negative (n := token.value) (by rw [numberLiteral_eq hread]; rfl) (by omega)
      fun _ => hread, numberLiteral_eq hread]
    exact iff_true_intro (within_pure _)
  cases t with
  | string value => exact iff_of_true trivial trivial
  | bool value => exact iff_of_true trivial trivial
  | now => exact iff_of_true trivial trivial
  | number token =>
    rw [parseLiteral, within_map, numberLiteral_eq h]
    exact iff_of_true trivial trivial
  | timestampNs negative token => exact within_map.trans (hnumber negative h)
  | durationNs negative token => exact within_map.trans (hnumber negative h)
  | duration token => exact within_map.trans (durationNs_within h)
  | nowOffset negative token =>
    obtain ⟨hexact, hwithin, -⟩ := durationToSeconds_spec h
    rw [parseLiteral, within_map,
      signed_within negative hexact (seconds_nonneg token) hwithin.mp, hwithin]
    rfl

mutual
def ExpressionText.literals : ExpressionText → List LiteralText
  | .literal text => [text]
  | .column _ => []
  | .function _ arguments _ _ => literalsOf arguments
  | .unary _ operand => operand.literals
  | .binary _ left right => left.literals ++ right.literals

/-- The literals of some expressions. -/
def literalsOf : List ExpressionText → List LiteralText
  | [] => []
  | argument :: rest => argument.literals ++ literalsOf rest
end

mutual
theorem parseExpression_succeeds {word : Int → Int} (e : ExpressionText) :
    (parseExpression e).Succeeds word ↔ ∀ t ∈ e.literals, t.Readable := by
  cases e with
  | literal text =>
    rw [parseExpression, succeeds_map, parseLiteral_succeeds, ExpressionText.literals]
    simp
  | column name =>
    rw [parseExpression, ExpressionText.literals]
    simp
  | function name arguments star distinct =>
    rw [parseExpression, ExpressionText.literals]
    exact (succeeds_bind_left fun _ => succeeds_pure word _).trans (parseArguments_succeeds arguments)
  | unary operator operand =>
    rw [parseExpression, ExpressionText.literals, succeeds_map, parseExpression_succeeds operand]
  | binary operator left right =>
    rw [parseExpression, ExpressionText.literals, forall_mem_append]
    exact succeeds_bind_iff (parseExpression_succeeds left) fun _ =>
      (succeeds_bind_left fun _ => succeeds_pure word _).trans (parseExpression_succeeds right)

theorem parseArguments_succeeds {word : Int → Int} (es : List ExpressionText) :
    (parseArguments es).Succeeds word ↔ ∀ t ∈ literalsOf es, t.Readable := by
  cases es with
  | nil =>
    rw [parseArguments, literalsOf]
    simp
  | cons e es =>
    rw [parseArguments, literalsOf, forall_mem_append]
    exact succeeds_bind_iff (parseExpression_succeeds e) fun _ =>
      (succeeds_bind_left fun _ => succeeds_pure word _).trans (parseArguments_succeeds es)
end

mutual
theorem parseExpression_within {e : ExpressionText} (h : ∀ t ∈ e.literals, t.Readable) :
    (parseExpression e).Within Fits ↔ ∀ t ∈ e.literals, t.InRange := by
  cases e with
  | literal text =>
    rw [ExpressionText.literals, forall_mem_singleton] at h
    rw [parseExpression, within_map, parseLiteral_within h, ExpressionText.literals,
      forall_mem_singleton]
  | column name =>
    rw [parseExpression, ExpressionText.literals]
    simp
  | function name arguments star distinct =>
    rw [ExpressionText.literals] at h
    rw [parseExpression, ExpressionText.literals, ← parseArguments_within h]
    exact within_bind_left fun _ => within_pure _
  | unary operator operand =>
    rw [ExpressionText.literals] at h
    rw [parseExpression, ExpressionText.literals, within_map, parseExpression_within h]
  | binary operator left right =>
    rw [ExpressionText.literals, forall_mem_append] at h
    rw [parseExpression, ExpressionText.literals, forall_mem_append]
    exact within_bind_iff ((parseExpression_succeeds left).mpr h.1) (parseExpression_within h.1)
      fun _ => (within_bind_left fun _ => within_pure _).trans (parseExpression_within h.2)

theorem parseArguments_within {es : List ExpressionText} (h : ∀ t ∈ literalsOf es, t.Readable) :
    (parseArguments es).Within Fits ↔ ∀ t ∈ literalsOf es, t.InRange := by
  cases es with
  | nil =>
    rw [parseArguments, literalsOf]
    simp
  | cons e es =>
    rw [literalsOf, forall_mem_append] at h
    rw [parseArguments, literalsOf, forall_mem_append]
    exact within_bind_iff ((parseExpression_succeeds e).mpr h.1) (parseExpression_within h.1)
      fun _ => (within_bind_left fun _ => within_pure _).trans (parseArguments_within h.2)
end

/-! ## 2. Expressions

`evaluationSteps_within`: the bound of an expression, operator by operator. -/

section Values

variable (lib : ScalarLib) {ρ : Type} (batch : Batch ρ) (row : ρ)

/-- The value of an expression over the integers. -/
def exactValue (e : Expression) : Except String Scalar := (evaluationSteps lib batch row e).exact

/-- The number an arithmetic operator computes over the integers, if it computes one. -/
def exactResult (operator : BinaryOperator) (left right : Scalar) : Option Int :=
  match integerValue operator left, integerValue operator right with
  | .ok lhs, .ok rhs =>
    match operator with
    | .add => some (lhs + rhs)
    | .sub => some (lhs - rhs)
    | .mul => some (lhs * rhs)
    | .div => if rhs = 0 then none else some (lhs.tdiv rhs)
    | _ => none
  | _, _ => none

mutual
/-- Every sum, difference, product, quotient and negation that the value of the expression needs
is an `int64_t`. -/
def StaysInRange : Expression → Prop
  | .literal _ => True
  | .column _ => True
  | .unary operator operand =>
    StaysInRange operand ∧ (operator = .minus → ∀ scalar, exactValue lib batch row operand = .ok scalar →
      scalar.isValid = true → Fits (-(readInt64 lib scalar)))
  | .binary operator left right =>
    StaysInRange left ∧ ∀ lhs, exactValue lib batch row left = .ok lhs →
      StaysInRange right ∧ ∀ rhs, exactValue lib batch row right = .ok rhs →
        ∀ n, exactResult operator lhs rhs = some n → Fits n
  | .function name arguments _ _ =>
    if lower name = "coalesce".toList then CoalesceInRange arguments
    else if lower name = "from_utc".toList ∧ arguments.length ≤ 2 then SequenceInRange arguments
    else True

/-- `coalesce` comes to an argument when those before it are NULL. -/
def CoalesceInRange : List Expression → Prop
  | [] => True
  | argument :: rest =>
    StaysInRange argument ∧ ∀ scalar, exactValue lib batch row argument = .ok scalar →
      scalar.isValid = false → CoalesceInRange rest

def SequenceInRange : List Expression → Prop
  | [] => True
  | argument :: rest =>
    StaysInRange argument ∧ ∀ scalar, exactValue lib batch row argument = .ok scalar →
      SequenceInRange rest
end

theorem unarySteps_within (operator : UnaryOperator) (operand : Scalar) :
    (unarySteps lib operator operand).Within Fits ↔
      (operator = .minus → operand.isValid = true → Fits (-(readInt64 lib operand))) := by
  cases operator with
  | minus =>
    rw [unarySteps]
    cases hvalid : operand.isValid with
    | false => exact iff_of_true (within_pure _) fun _ h => by cases h
    | true =>
      rw [if_neg (by simp), within_map, within_op]
      simp
  | isNull => exact iff_of_true (within_pure _) fun h => by cases h
  | isNotNull => exact iff_of_true (within_pure _) fun h => by cases h
  | not => exact iff_of_true (within_pure _) fun h => by cases h
  | plus => exact iff_of_true (within_pure _) fun h => by cases h

variable {operator : BinaryOperator}

theorem integerValue_ok {scalar : Scalar} {n : Int} (h : integerValue operator scalar = .ok n) :
    scalar.isValid = true ∧ scalar.text? = none ∧ ∀ b, scalar ≠ .bool b := by
  cases scalar <;> simp_all [integerValue, Scalar.isValid, Scalar.text?]

theorem binarySteps_integers {left right : Scalar} {lhs rhs : Int}
    (hleft : integerValue operator left = .ok lhs) (hright : integerValue operator right = .ok
    rhs) :
    binarySteps operator left right = integerSteps operator left right lhs rhs := by
  obtain ⟨hvalid, htext, hbool⟩ := integerValue_ok hleft
  have hbooleans : applyBooleans operator left right = none := by
    unfold applyBooleans
    split
    · exact absurd rfl (hbool _)
    · exact absurd rfl (hbool _)
    · rfl
  have htexts : applyTexts operator left right = none := by rw [applyTexts, htext, Option.bind_none]
  rw [binarySteps, hvalid, (integerValue_ok hright).1, if_neg (by simp), hbooleans, htexts, hleft,
    hright]
  rfl

theorem binarySteps_within_of_not {left right : Scalar}
    (h : ∀ lhs rhs, integerValue operator left = .ok lhs → integerValue operator right ≠ .ok rhs) :
    (binarySteps operator left right).Within Fits := by
  rw [binarySteps]
  split
  · exact within_pure _
  split
  · exact within_pure _
  split
  · exact within_pure _
  refine within_bind.mpr ⟨within_ofExcept _, fun lhs hlhs => ?_⟩
  refine within_bind.mpr ⟨within_ofExcept _, fun rhs hrhs => ?_⟩
  rw [exact, run_ofExcept] at hlhs hrhs
  exact absurd hrhs (h lhs rhs hlhs)

theorem binarySteps_within (operator : BinaryOperator) (left right : Scalar) :
    (binarySteps operator left right).Within Fits ↔
      ∀ n, exactResult operator left right = some n → Fits n := by
  cases hleft : integerValue operator left with
  | error e =>
    exact iff_of_true (binarySteps_within_of_not fun _ _ h => by rw [hleft] at h; cases h)
      (by simp [exactResult, hleft])
  | ok lhs =>
    cases hright : integerValue operator right with
    | error e =>
      exact iff_of_true (binarySteps_within_of_not fun _ _ _ h => by rw [hright] at h; cases h)
        (by simp [exactResult, hright])
    | ok rhs =>
      rw [binarySteps_integers hleft hright, exactResult, hleft, hright]
      cases operator with
      | div => by_cases hzero : rhs = 0 <;> simp [integerSteps, hzero]
      | _ => simp [integerSteps]

mutual
/-- **The evaluation of an expression stays in the range** exactly when the exact numbers do. -/
theorem evaluationSteps_within (e : Expression) :
    (evaluationSteps lib batch row e).Within Fits ↔ StaysInRange lib batch row e := by
  cases e with
  | literal value =>
    rw [evaluationSteps, StaysInRange]
    exact iff_true_intro (within_ofExcept _)
  | column name =>
    rw [evaluationSteps, StaysInRange]
    exact iff_true_intro (within_ofExcept _)
  | unary operator operand =>
    rw [evaluationSteps, StaysInRange, within_bind, evaluationSteps_within operand]
    simp only [unarySteps_within, exactValue]
    exact and_congr_right fun _ => ⟨fun h hop s hs => h s hs hop, fun h s hs hop => h hop s hs⟩
  | binary operator left right =>
    rw [evaluationSteps, StaysInRange, within_bind, evaluationSteps_within left]
    simp only [within_bind, evaluationSteps_within right, binarySteps_within, exactValue]
  | function name arguments star distinct =>
    rw [evaluationSteps, StaysInRange, functionSteps]
    split
    · exact coalesceSteps_within arguments none
    by_cases hname : lower name = "from_utc".toList
    · rw [if_pos hname]
      by_cases hlength : arguments.length ≤ 2
      · rw [if_pos ⟨hname, hlength⟩]
        exact fromUtcSteps_within arguments hlength
      · rw [if_neg fun h => hlength h.2]
        match arguments, hlength with
        | a :: b :: c :: rest, _ => exact iff_true_intro (within_fail _)
        | [], h => exact absurd (by simp) h
        | [_], h => exact absurd (by simp) h
        | [_, _], h => exact absurd (by simp) h
    · rw [if_neg hname, if_neg fun h => hname h.1]
      exact iff_true_intro (within_fail _)

theorem coalesceSteps_within (arguments : List Expression) (first : Option Scalar) :
    (coalesceSteps lib first (argumentSteps lib batch row arguments)).Within Fits ↔
      CoalesceInRange lib batch row arguments := by
  cases arguments with
  | nil =>
    rw [argumentSteps, coalesceSteps, CoalesceInRange]
    exact iff_true_intro (within_pure _)
  | cons argument rest =>
    rw [argumentSteps, coalesceSteps, CoalesceInRange, within_bind, evaluationSteps_within argument]
    refine and_congr_right fun _ => forall₂_congr fun scalar _ => ?_
    cases hvalid : scalar.isValid with
    | false =>
      rw [if_pos (by simp), coalesceSteps_within rest]
      simp
    | true =>
      rw [if_neg (by simp)]
      simp

theorem fromUtcSteps_within (arguments : List Expression) (h : arguments.length ≤ 2) :
    (fromUtcSteps lib (argumentSteps lib batch row arguments)).Within Fits ↔
      SequenceInRange lib batch row arguments := by
  match arguments with
  | [] =>
    rw [argumentSteps, fromUtcSteps, SequenceInRange]
    · exact iff_true_intro (within_fail _)
    all_goals exact nofun
  | [timestamp] =>
    simp only [argumentSteps, fromUtcSteps, SequenceInRange, within_bind,
      evaluationSteps_within timestamp]
    simp
  | [timestamp, zone] =>
    simp only [argumentSteps, fromUtcSteps, SequenceInRange, within_bind,
      evaluationSteps_within timestamp, evaluationSteps_within zone, exactValue]
    simp
  | _ :: _ :: _ :: _ => simp at h
end

end Values

/-! ## 3. Parsing

`parseQuery_succeeds`: which queries are accepted does not depend on what overflow does. -/

def OptionText.Readable : OptionText → Prop
  | .duration t => t.Readable
  | .number t => t.Readable

def OptionText.InRange : OptionText → Prop
  | .duration t => t.seconds ≤ maxSeconds
  | .number _ => True

theorem parseOption_succeeds (o : OptionText) :
    (parseOption o).Succeeds word ↔ o.Readable := by
  cases o with
  | duration t => exact succeeds_map.trans (durationNs_succeeds t)
  | number t => exact succeeds_map.trans (numberLiteral_succeeds t)

theorem parseOption_within {o : OptionText} (h : o.Readable) :
    (parseOption o).Within Fits ↔ o.InRange := by
  cases o with
  | duration t => exact within_map.trans (durationNs_within h)
  | number t =>
    rw [parseOption, within_map, numberLiteral_eq h]
    exact iff_of_true trivial trivial

/-- The options of a query. -/
def QueryText.allOptions (text : QueryText) : List OptionText :=
  text.otherOptions ++ text.options.map Prod.snd

def QueryText.literals (text : QueryText) : List LiteralText :=
  text.predicates.flatMap (fun p => literalsOf p.operands) ++ literalsOf (text.window.getD []) ++
    literalsOf text.expressions

/-- The numbers of a query are `int64_t` values. -/
def QueryText.Readable (text : QueryText) : Prop :=
  (∀ t ∈ text.subquerySlices, t.Readable) ∧ (∀ o ∈ text.allOptions, o.Readable) ∧
    ∀ t ∈ text.literals, t.Readable

theorem parseWindow_succeeds (window : Option (List ExpressionText)) :
    (parseWindow window).Succeeds word ↔ ∀ t ∈ literalsOf (window.getD []), t.Readable := by
  cases window with
  | none => exact iff_of_true (succeeds_pure word _) (by simp [literalsOf])
  | some bounds => exact succeeds_map.trans (parseArguments_succeeds bounds)

theorem parseWindow_within {window : Option (List ExpressionText)}
    (h : ∀ t ∈ literalsOf (window.getD []), t.Readable) :
    (parseWindow window).Within Fits ↔ ∀ t ∈ literalsOf (window.getD []), t.InRange := by
  cases window with
  | none => exact iff_of_true (within_pure _) (by simp [literalsOf])
  | some bounds => exact within_map.trans (parseArguments_within h)

theorem forall_allOptions {P : OptionText → Prop} (text : QueryText) :
    (∀ o ∈ text.allOptions, P o) ↔
      (∀ o ∈ text.otherOptions, P o) ∧ ∀ o ∈ text.options, P o.2 := by
  rw [QueryText.allOptions, forall_mem_append, forall_mem_map]

theorem forall_literals {P : LiteralText → Prop} (text : QueryText) :
    (∀ t ∈ text.literals, P t) ↔ (∀ p ∈ text.predicates, ∀ t ∈ literalsOf p.operands, P t) ∧
      (∀ t ∈ literalsOf (text.window.getD []), P t) ∧ ∀ t ∈ literalsOf text.expressions, P t := by
  simp only [QueryText.literals, forall_mem_append, forall_mem_flatMap, and_assoc]

/-- **The accepted queries** are those whose numbers are `int64_t` values, whatever the machine does
on overflow. -/
theorem parseQuery_succeeds (text : QueryText) :
    (parseQuery text).Succeeds word ↔ text.Readable := by
  rw [QueryText.Readable, forall_allOptions, forall_literals, and_assoc]
  refine succeeds_bind_iff (succeeds_mapM.trans (forall₂_congr fun t _ => (sliceNs_spec t).1 word))
    fun _ => ?_
  refine succeeds_bind_iff (succeeds_mapM.trans (forall₂_congr fun o _ => parseOption_succeeds o))
    fun _ => ?_
  refine succeeds_bind_iff (succeeds_mapM.trans (forall₂_congr fun o _ =>
    succeeds_map.trans (parseOption_succeeds o.2))) fun _ => ?_
  refine succeeds_bind_iff (succeeds_mapM.trans (forall₂_congr fun p _ =>
    succeeds_map.trans (parseArguments_succeeds p.operands))) fun _ => ?_
  refine succeeds_bind_iff (parseWindow_succeeds text.window) fun _ => ?_
  exact (succeeds_bind_left fun _ => succeeds_pure word _).trans
    (parseArguments_succeeds text.expressions)

theorem parseQuery_within {text : QueryText} (h : text.Readable) :
    (parseQuery text).Within Fits ↔ (∀ t ∈ text.subquerySlices, t.seconds ≤ maxSeconds) ∧
      (∀ o ∈ text.allOptions, o.InRange) ∧ ∀ t ∈ text.literals, t.InRange := by
  rw [QueryText.Readable, forall_allOptions, forall_literals] at h
  obtain ⟨hslices, ⟨hothers, hoptions⟩, hpredicates, hwindow, hexpressions⟩ := h
  rw [forall_allOptions, forall_literals, and_assoc]
  refine within_bind_iff (succeeds_mapM.mpr fun t ht => ((sliceNs_spec t).1 id).mpr (hslices t ht))
    ((within_mapM_iff fun t ht => ((sliceNs_spec t).1 id).mpr (hslices t ht)).trans
      (forall₂_congr fun t ht => (sliceNs_spec t).2 (hslices t ht))) fun _ => ?_
  have hother : ∀ o ∈ text.otherOptions, (parseOption o).Succeeds id := fun o ho =>
    (parseOption_succeeds o).mpr (hothers o ho)
  refine within_bind_iff (succeeds_mapM.mpr hother) ((within_mapM_iff hother).trans
    (forall₂_congr fun o ho => parseOption_within (hothers o ho))) fun _ => ?_
  have hoption : ∀ o ∈ text.options, (Prod.mk o.1 <$> parseOption o.2).Succeeds id := fun o ho =>
    succeeds_map.mpr ((parseOption_succeeds o.2).mpr (hoptions o ho))
  refine within_bind_iff (succeeds_mapM.mpr hoption) ((within_mapM_iff hoption).trans
    (forall₂_congr fun o ho => within_map.trans (parseOption_within (hoptions o ho)))) fun _ => ?_
  have hpredicate : ∀ p ∈ text.predicates, (parsePredicate p).Succeeds id := fun p hp =>
    succeeds_map.mpr ((parseArguments_succeeds p.operands).mpr (hpredicates p hp))
  refine within_bind_iff (succeeds_mapM.mpr hpredicate) ((within_mapM_iff hpredicate).trans
    (forall₂_congr fun p hp => within_map.trans (parseArguments_within (hpredicates p hp))))
    fun _ => ?_
  refine within_bind_iff ((parseWindow_succeeds text.window).mpr hwindow) (parseWindow_within hwindow)
    fun _ => ?_
  exact (within_bind_left fun _ => within_pure _).trans (parseArguments_within hexpressions)

/-! ## 4. Planning and scanning -/

/-- The time a NOW stands for is an `int64_t`. -/
def Constant.InTime (nowEpoch : Int) (c : Constant) : Prop :=
  ∀ offset, c.value = .now offset → c.columnType = .TIMESTAMP → Fits (nowEpoch + offset)

theorem typeCheckValue_within {nowEpoch : Int} {c : Constant} :
    (typeCheckValue nowEpoch c).Within Fits ↔ c.InTime nowEpoch := by
  rw [typeCheckValue, Constant.InTime]
  split
  · next offset hvalue =>
    rw [hvalue]
    split
    · next htype => exact iff_of_true (within_fail _) fun _ _ h => absurd h htype
    · next htype =>
      rw [within_map, within_op]
      simp [not_not.mp htype]
  · next hvalue => exact iff_of_true (within_ofExcept _) fun offset h => absurd h (hvalue offset)

theorem windowBounds_le {values : List LiteralValue} {w : Int × Int}
    (h : windowBounds values = some w) : w.1 ≤ w.2 := by
  unfold windowBounds at h
  split at h
  · obtain rfl := Option.some.inj h
    split <;> dsimp only <;> omega
  · cases h

theorem typeCheckSelect_le {nowEpoch : Int} {q : BoundQuery} {w : Int × Int}
    (h : (typeCheckSelect nowEpoch q).exact = .ok (some w)) : w.1 ≤ w.2 := by
  rw [typeCheckSelect, exact, run_bind] at h
  obtain ⟨values, -, h⟩ := Utc.bind_eq_ok h
  exact windowBounds_le (Except.ok.inj h)

/-- A literal window whose bounds, and whose length when it is computed, are nanoseconds in an
`int64_t`. -/
structure WindowInRange (streaming : Bool) (pvs : List String) (shards : WindowShardSpec)
    (w : Int × Int) : Prop where
  first : -maxSeconds ≤ w.1
  second : w.2 ≤ maxSeconds
  length : (streaming = true ∧ shards.sliceNs = 0) ∨ pvs ≠ [] → w.2 - w.1 ≤ maxSeconds

theorem autoSliceSteps_succeeds (streaming : Bool) (shards : WindowShardSpec) (first second : Int) :
    (autoSliceSteps streaming shards first second).Succeeds id := by
  rw [autoSliceSteps]
  split <;> exact ⟨(), rfl⟩

variable {streaming : Bool}

theorem autoSliceSteps_within {shards : WindowShardSpec} {first second : Int} (h : first ≤ second) :
    (autoSliceSteps streaming shards first second).Within Fits ↔
      (streaming = true ∧ shards.sliceNs = 0 → second - first ≤ maxSeconds) := by
  rw [autoSliceSteps]
  split
  · next hauto =>
    rw [within_op_bind, within_op_bind, Fits, Fits]
    simp only [hauto, and_self, within_pure, and_true, forall_const]
    unfold int64Min int64Max maxSeconds
    omega
  · next hauto => exact iff_of_true (within_pure _) fun h => absurd h hauto

variable {pvs : List String}

theorem sliceSteps_within {first second : Int} (hle : first ≤ second)
    (hsecond : second ≤ maxSeconds) (hfirst : -maxSeconds ≤ first) :
    (sliceSteps streaming pvs (first * 1000000000) (second * 1000000000)).Within Fits ↔
      (pvs ≠ [] → second - first ≤ maxSeconds) := by
  rw [sliceSteps]
  split
  · next hpvs => exact iff_of_true (within_fail _) fun h => absurd hpvs h
  · next hpvs =>
    have hpast : (pastWindow streaming (second * 1000000000)).Within Fits := by
      cases streaming
      · exact within_pure _
      · change (op _).Within Fits
        rw [within_op, Fits]
        unfold int64Min int64Max
        unfold maxSeconds at hsecond hfirst
        omega
    rw [within_op_bind, within_bind_left fun _ => within_pure _, Fits]
    unfold maxSeconds at hsecond hfirst
    unfold int64Min int64Max maxSeconds
    simp only [hpvs, ne_eq, not_false_eq_true, forall_const, and_iff_left hpast]
    omega

theorem scanWindow_within {shards : WindowShardSpec} {w : Int × Int} (hle : w.1 ≤ w.2) :
    (scanWindow streaming pvs shards (some w)).Within Fits ↔ WindowInRange streaming pvs shards w := by
  rw [scanWindow, within_bind_iff (autoSliceSteps_succeeds streaming shards _ _)
    (autoSliceSteps_within hle) fun _ => Iff.rfl, within_op_bind, within_op_bind]
  have hbounds : Fits (w.1 * 1000000000) ∧ Fits (w.2 * 1000000000) ↔
      -maxSeconds ≤ w.1 ∧ w.2 ≤ maxSeconds := by
    unfold Fits int64Min int64Max maxSeconds
    omega
  constructor
  · rintro ⟨hauto, hfirst, hsecond, hslices⟩
    obtain ⟨hlo, hhi⟩ := hbounds.mp ⟨hfirst, hsecond⟩
    exact ⟨hlo, hhi, fun h => h.elim hauto ((sliceSteps_within hle hhi hlo).mp hslices)⟩
  · rintro ⟨hlo, hhi, hlength⟩
    obtain ⟨hfirst, hsecond⟩ := hbounds.mpr ⟨hlo, hhi⟩
    exact ⟨fun h => hlength (.inl h), hfirst, hsecond,
      (sliceSteps_within hle hhi hlo).mpr fun h => hlength (.inr h)⟩

theorem scanWindow_succeeds {shards : WindowShardSpec} {window : Option (Int × Int)} :
    (scanWindow streaming pvs shards window).Succeeds id ↔ window = none ∨ pvs ≠ [] := by
  cases window with
  | none => exact iff_of_true (succeeds_pure id ()) (.inl rfl)
  | some w =>
    have hslices : ∀ beginNs endNs : Int,
        (sliceSteps streaming pvs beginNs endNs).Succeeds id ↔ pvs ≠ [] := by
      intro beginNs endNs
      rw [sliceSteps]
      split
      · next hpvs => exact iff_of_false (not_succeeds_fail id _) fun h => h hpvs
      · next hpvs =>
        refine iff_of_true (succeeds_bind.mpr ⟨_, rfl, ?_⟩) hpvs
        cases streaming <;> exact ⟨(), rfl⟩
    rw [scanWindow, succeeds_bind_iff (iff_true_intro (autoSliceSteps_succeeds streaming shards _ _))
      fun _ => succeeds_bind_iff (iff_true_intro (succeeds_op id _)) fun beginNs =>
        succeeds_bind_iff (iff_true_intro (succeeds_op id _)) fun endNs => hslices beginNs endNs]
    simp

/-! ## 5. A whole query -/

section Run

variable (lib : ScalarLib) (returnType : String → Nat → Except String ColumnType) {ρ : Type}

/-- The durations, the times, the window and the exact values of a query are `int64_t` numbers, as
far as its run comes to them. -/
structure InRange (text : QueryText) (run : Execution ρ) : Prop where
  slices : ∀ t ∈ text.subquerySlices, t.seconds ≤ maxSeconds
  options : ∀ o ∈ text.allOptions, o.InRange
  literals : ∀ t ∈ text.literals, t.InRange
  clock : ∀ q b, (parseQuery text).exact = .ok q → bindQuery returnType q = .ok b →
    ∀ done c later, b.constants ++ b.window = done ++ c :: later →
      (∀ d ∈ done, (typeCheckValue run.nowEpoch d).Succeeds id) → c.InTime run.nowEpoch
  window : ∀ q b w, (parseQuery text).exact = .ok q → bindQuery returnType q = .ok b →
    (typeCheckSelect run.nowEpoch b).exact = .ok (some w) →
      WindowInRange run.streaming run.requestedPvs b.windowShards w
  values : ∀ q b w, (parseQuery text).exact = .ok q → bindQuery returnType q = .ok b →
    (typeCheckSelect run.nowEpoch b).exact = .ok w → w = none ∨ run.requestedPvs ≠ [] →
    ∀ done job later, run.work = done ++ job :: later →
      (∀ d ∈ done, (evaluateJob lib q.expressions d).Succeeds id) →
        ∀ e, q.expressions[job.expression]? = some e → StaysInRange lib job.batch job.row e

theorem evaluateJob_within {expressions : List Expression} {job : Job ρ} :
    (evaluateJob lib expressions job).Within Fits ↔
      ∀ e, expressions[job.expression]? = some e → StaysInRange lib job.batch job.row e := by
  rw [evaluateJob]
  cases expressions[job.expression]? with
  | none => exact iff_of_true (within_fail _) nofun
  | some e => simp [evaluationSteps_within]

theorem runQuery_within {text : QueryText} (h : text.Readable) (run : Execution ρ) :
    (runQuery lib returnType text run).Within Fits ↔ InRange lib returnType text run := by
  have hwindow : ∀ {b : BoundQuery} {w : Option (Int × Int)},
      (typeCheckSelect run.nowEpoch b).exact = .ok w →
        ((scanWindow run.streaming run.requestedPvs b.windowShards w).Within Fits ↔
          ∀ v, w = some v → WindowInRange run.streaming run.requestedPvs b.windowShards v) := by
    intro b w hw
    cases w with
    | none => exact iff_of_true (within_pure ()) nofun
    | some v => simp only [scanWindow_within (typeCheckSelect_le hw), Option.some.injEq, forall_eq']
  have hclock : ∀ {b : BoundQuery}, (typeCheckSelect run.nowEpoch b).Within Fits ↔
      ∀ done c later, b.constants ++ b.window = done ++ c :: later →
        (∀ d ∈ done, (typeCheckValue run.nowEpoch d).Succeeds id) → c.InTime run.nowEpoch := by
    intro b
    rw [typeCheckSelect, within_bind_left fun _ => within_pure _, within_mapM]
    simp only [typeCheckValue_within]
  rw [runQuery, within_bind, parseQuery_within h]
  constructor
  · rintro ⟨⟨hslices, hoptions, hliterals⟩, hrest⟩
    have htype : ∀ q b, (parseQuery text).exact = .ok q → bindQuery returnType q = .ok b → _ :=
      fun q b hq hb => within_bind.mp ((within_bind.mp (hrest q hq)).2 b
        ((run_ofExcept id _).trans hb))
    refine ⟨hslices, hoptions, hliterals, fun q b hq hb => hclock.mp (htype q b hq hb).1,
      fun q b w hq hb hw => ?_, fun q b w hq hb hw hscan done job later hwork hdone => ?_⟩
    · have hscan := (within_bind.mp ((htype q b hq hb).2 (some w) hw)).1
      exact (hwindow hw).mp hscan w rfl
    · obtain ⟨u, hu⟩ := (@scanWindow_succeeds run.streaming _ b.windowShards _).mpr hscan
      have hwork' := (within_bind.mp ((htype q b hq hb).2 w hw)).2 u hu
      exact (evaluateJob_within lib).mp (within_mapM.mp hwork' done job later hwork hdone)
  · intro hrange
    refine ⟨⟨hrange.slices, hrange.options, hrange.literals⟩, fun q hq => ?_⟩
    refine within_bind.mpr ⟨within_ofExcept _, fun b hb => ?_⟩
    rw [exact, run_ofExcept] at hb
    refine within_bind.mpr ⟨hclock.mpr (hrange.clock q b hq hb), fun w hw => ?_⟩
    refine within_bind.mpr ⟨(hwindow hw).mpr fun v hv => hrange.window q b v hq hb (hv ▸ hw),
      fun u hu => ?_⟩
    exact within_mapM.mpr fun done job later hwork hdone => (evaluateJob_within lib).mpr
      (hrange.values q b w hq hb hw (scanWindow_succeeds.mp ⟨u, hu⟩) done job later hwork hdone)

/-- **No arithmetic of an accepted query overflows** exactly when its numbers are in range: a
duration that becomes nanoseconds lasts at most 9223372036 seconds, the bounds of a literal window
lie no further from the epoch and from each other, and the exact value of every operator that an
expression needs is an `int64_t`. -/
theorem noOverflow_iff {text : QueryText} (h : text.Accepted) (run : Execution ρ) :
    ¬ (runQuery lib returnType text run).Overflows Fits wrap64 ↔ InRange lib returnType text run :=
  (not_overflows_iff wrap64_of_fits _).trans
    (runQuery_within lib returnType ((parseQuery_succeeds text).mp h) run)

def two : NumberToken := ⟨['2'], by decide, all_eq_true.mp rfl⟩

def fiveMinutes : DurationToken := ⟨⟨['5'], by decide, all_eq_true.mp rfl⟩, 'm', by decide⟩

/-- `SELECT 2 - 2 … WHERE time >= NOW - 5m` -/
def recentQuery : QueryText :=
  ⟨[], [], [], [⟨"time", .TIMESTAMP, [.literal (.nowOffset true fiveMinutes)]⟩], none,
    [.binary .sub (.literal (.number two)) (.literal (.number two))]⟩

/-- The query is run in the year 2023. -/
theorem recentQuery_noOverflow : recentQuery.Accepted ∧
    InRange plainLib (fun _ _ => .ok .STRING) recentQuery
      ⟨1700000000, true, [], [⟨0, ⟨[], [()]⟩, ()⟩]⟩ := by
  have haccepted : recentQuery.Accepted := by
    refine (parseQuery_succeeds recentQuery).mpr ⟨nofun, nofun, ?_⟩
    simp only [QueryText.literals, recentQuery, flatMap_cons, flatMap_nil, literalsOf,
      ExpressionText.literals, forall_mem_append, forall_mem_singleton]
    refine ⟨⟨⟨⟨?_, nofun⟩, nofun⟩, nofun⟩, ⟨?_, ?_⟩, nofun⟩
    · exact (by decide : (5 : Int) ≤ int64Max)
    · exact (by decide : (2 : Int) ≤ int64Max)
    · exact (by decide : (2 : Int) ≤ int64Max)
  exact ⟨haccepted, (noOverflow_iff plainLib _ haccepted _).mp (by decide)⟩

def longDuration : DurationToken :=
  ⟨⟨['1', '0', '6', '7', '5', '2'], by decide, all_eq_true.mp rfl⟩, 'd', by decide⟩

/-- `SELECT 106752d …` -/
def longQuery : QueryText := ⟨[], [], [], [], none, [.literal (.duration longDuration)]⟩

/-- **A duration of 106752 days is accepted and overflows.** -/
theorem longDuration_overflows : ¬ ∀ (lib : ScalarLib)
    (returnType : String → Nat → Except String ColumnType) (text : QueryText) (run : Execution Unit),
    text.Accepted → ¬ (runQuery lib returnType text run).Overflows Fits wrap64 := by
  intro h
  have hliterals : longQuery.literals = [.duration longDuration] := by
    simp [longQuery, QueryText.literals, literalsOf, ExpressionText.literals]
  have hreadable : longQuery.Readable := by
    refine ⟨nofun, nofun, ?_⟩
    rw [hliterals, forall_mem_singleton]
    exact (by decide : (106752 : Int) ≤ int64Max)
  have hwithin := (not_overflows_iff wrap64_of_fits _).mp
    (h plainLib (fun _ _ => .ok .STRING) longQuery ⟨0, true, [], []⟩
      ((parseQuery_succeeds longQuery).mpr hreadable))
  have hrange := ((runQuery_within plainLib _ hreadable _).mp hwithin).literals
  rw [hliterals, forall_mem_singleton] at hrange
  exact absurd hrange (by decide : ¬ (9223372800 : Int) ≤ 9223372036)

end Run

end MldpDriver.Query.Evaluator
