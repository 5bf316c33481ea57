/-
# Conditions in three-valued logic

SQL decides AND and OR by one operand where that is enough; the evaluator gives NULL as soon as an
operand is NULL.  So the rows that are kept are those of three-valued logic exactly when no row on
which the conditions are TRUE has a NULL operand outside a null test (`applyConditions_iff`).
-/
import MldpDriver.Lib.Kleene
import MldpDriver.Query.Conditions

namespace MldpDriver.Query.Evaluator

open Lib.Kleene List

variable {ρ : Type} (lib : ScalarLib) (kernels : KernelLib)

/-! ## 1. Three-valued logic -/

/-- The value of a valid scalar. -/
def Scalar.valid? (scalar : Scalar) : Option Scalar := if scalar.isValid then some scalar else none

/-- A truth value; anything but a boolean is unknown. -/
def truthOf : Option Scalar → Option Bool
  | some (.bool b) => some b
  | _ => none

def sqlUnary : UnaryOperator → Option Scalar → Option Scalar
  | .isNull, operand => some (.bool operand.isNone)
  | .isNotNull, operand => some (.bool operand.isSome)
  | .not, operand => (not3 (truthOf operand)).map .bool
  | _, _ => none

/-- `meaning` says what a comparison of two values is. -/
def sqlBinary (meaning : BinaryOperator → Scalar → Scalar → Option Bool) :
    BinaryOperator → Option Scalar → Option Scalar → Option Scalar
  | .and, left, right => (and3 (truthOf left) (truthOf right)).map .bool
  | .or, left, right => (or3 (truthOf left) (truthOf right)).map .bool
  | operator, left, right =>
    left.bind fun lhs => right.bind fun rhs => (meaning operator lhs rhs).map .bool

variable (meaning : BinaryOperator → Scalar → Scalar → Option Bool) (batch : Batch ρ) (row : ρ)

/-- **The value of a condition in SQL**; `none` is NULL. -/
def sqlValue : Expression → Option Scalar
  | .column name => (batch.field name).bind fun column => (column.read row).valid?
  | .literal value => (literalScalar value).toOption
  | .unary operator operand => sqlUnary operator (sqlValue operand)
  | .binary operator left right => sqlBinary meaning operator (sqlValue left) (sqlValue right)
  | .function _ _ _ _ => none

def sqlTruth (condition : Expression) : Option Bool :=
  truthOf (sqlValue meaning batch row condition)

/-- An operand outside the null tests is NULL on the row. -/
def hasNull : Expression → Bool
  | .column name =>
    match batch.field name with
    | some column => !(column.read row).isValid
    | none => false
  | .unary operator operand =>
    match operator with
    | .isNull | .isNotNull => false
    | _ => hasNull operand
  | .binary _ left right => hasNull left || hasNull right
  | _ => false

@[elab_as_elim]
theorem Expression.onOperands {P : Expression → Prop} (column : ∀ name, P (.column name))
    (literal : ∀ value, P (.literal value))
    (unary : ∀ operator operand, P operand → P (.unary operator operand))
    (binary : ∀ operator left right, P left → P right → P (.binary operator left right))
    (function : ∀ name arguments star distinct, P (.function name arguments star distinct))
    (e : Expression) : P e :=
  @Expression.rec P (fun _ => True) literal column
    (fun name arguments star distinct _ => function name arguments star distinct) unary binary
    trivial (fun _ _ _ _ => trivial) e

/-! ### Conditions -/

/-- The expression has a truth value. -/
def isBoolean : Expression → Bool
  | .column name =>
    match batch.field name with
    | some column => decide (column.type = .bool ∨ column.type = .na)
    | none => false
  | .literal (.bool _) => true
  | .literal _ => false
  | .unary _ _ => true
  | .binary _ _ _ => true
  | .function _ _ _ _ => false

/-- Built from columns, literals, comparisons, AND, OR, NOT and IS [NOT] NULL. -/
def IsCondition : Expression → Prop
  | .column _ => True
  | .literal _ => True
  | .unary operator operand =>
    (operator = .isNull ∨ operator = .isNotNull ∨
      operator = .not ∧ isBoolean batch operand = true) ∧ IsCondition operand
  | .binary operator left right =>
    (operator.isComparison = true ∨ operator = .and ∨ operator = .or) ∧
      IsCondition left ∧ IsCondition right
  | .function _ _ _ _ => False

/-- What an IS [NOT] NULL tests is NULL where an operand of it is. -/
def TestsRight : Expression → Prop
  | .unary operator operand =>
    TestsRight operand ∧ (operator = .isNull ∨ operator = .isNotNull →
      hasNull batch row operand = true → sqlValue meaning batch row operand = none)
  | .binary _ left right => TestsRight left ∧ TestsRight right
  | _ => True

/-- The evaluator's comparison is the meaning, and so is the kernel's for two columns of a type. -/
def CompareRight (operator : BinaryOperator) (left right : Expression) (lhs rhs : Scalar) : Prop :=
  (∀ result, applyBinary operator lhs rhs = .ok (.bool result) →
      meaning operator lhs rhs = some result) ∧
    ((columnOf batch left).isSome → (columnOf batch right).isSome → lhs.type = rhs.type →
      meaning operator lhs rhs = some (kernelCompare kernels operator lhs rhs))

/-- Every comparison of two values is right. -/
def ComparesRight : Expression → Prop
  | .unary _ operand => ComparesRight operand
  | .binary operator left right =>
    ComparesRight left ∧ ComparesRight right ∧ (operator.isComparison = true →
      ∀ lhs rhs, sqlValue meaning batch row left = some lhs →
        sqlValue meaning batch row right = some rhs →
          CompareRight kernels meaning batch operator left right lhs rhs)
  | _ => True

/-! ## 2. The evaluator against three-valued logic -/

variable {lib kernels meaning batch row}

theorem valid_bool (b : Bool) : (Scalar.bool b).isValid = true := rfl

variable {operator : BinaryOperator}
variable {left right scalar : Scalar}

theorem integers_of_applyBinary (hvalid : ¬ (!left.isValid || !right.isValid) = true)
    (hbools : applyBooleans operator left right = none)
    (htexts : applyTexts operator left right = none)
    (h : applyBinary operator left right = .ok scalar) :
    ∃ lhs rhs, integerValue operator left = .ok lhs ∧ integerValue operator right = .ok rhs ∧
      applyIntegers operator left right lhs rhs = .ok scalar := by
  rw [applyBinary, if_neg hvalid, hbools, htexts] at h
  cases hl : integerValue operator left with
  | error message =>
    rw [hl] at h
    exact nomatch h
  | ok lhs =>
    cases hr : integerValue operator right with
    | error message =>
      rw [hl, hr] at h
      exact nomatch h
    | ok rhs =>
      rw [hl, hr] at h
      exact ⟨lhs, rhs, rfl, rfl, h⟩

/-- What `applyBinary` gives for two values: for the operators of conditions a boolean. -/
theorem applyBinary_bool (hop : operator.isComparison = true ∨ operator = .and ∨ operator = .or)
    (hleft : left.isValid = true) (hright : right.isValid = true)
    (h : applyBinary operator left right = .ok scalar) : ∃ b, scalar = .bool b := by
  have hvalid : ¬ (!left.isValid || !right.isValid) = true := by
    rw [hleft, hright]
    decide
  cases hbools : applyBooleans operator left right with
  | some result =>
    rw [applyBinary, if_neg hvalid, hbools] at h
    exact ⟨result, (Except.ok.inj h).symm⟩
  | none =>
    cases htexts : applyTexts operator left right with
    | some result =>
      rw [applyBinary, if_neg hvalid, hbools, htexts] at h
      exact ⟨result, (Except.ok.inj h).symm⟩
    | none =>
      obtain ⟨lhs, rhs, -, -, h⟩ := integers_of_applyBinary hvalid hbools htexts h
      rcases hop with hop | rfl | rfl
      · cases operator <;> first
          | exact absurd hop (by decide)
          | exact ⟨_, (Except.ok.inj h).symm⟩
      · exact nomatch h
      · exact nomatch h

variable {left right : Scalar}

theorem applyBooleans_some {result : Bool} (h : applyBooleans operator left right = some result) :
    ∃ a b, left = .bool a ∧
      right = .bool b ∧ result = if operator = .and then a && b else a || b := by
  unfold applyBooleans at h
  split at h
  · exact ⟨_, _, rfl, rfl, (Option.some.inj h).symm⟩
  · exact ⟨_, _, rfl, rfl, (Option.some.inj h).symm⟩
  · exact nomatch h

theorem applyBinary_connective (hop : operator = .and ∨ operator = .or)
    (hleft : left.isValid = true) (hright : right.isValid = true)
    (h : applyBinary operator left right = .ok scalar) :
    ∃ a b, left = .bool a ∧ right = .bool b ∧
      scalar = .bool (if operator = .and then a && b else a || b) := by
  rw [applyBinary, hleft, hright, if_neg (by decide)] at h
  have htexts : applyTexts operator left right = none := by
    rw [applyTexts]
    rcases hop with rfl | rfl <;> cases left.text? <;> cases right.text? <;> rfl
  cases hbools : applyBooleans operator left right with
  | some result =>
    rw [hbools] at h
    obtain ⟨a, b, rfl, rfl, rfl⟩ := applyBooleans_some hbools
    exact ⟨a, b, rfl, rfl, (Except.ok.inj h).symm⟩
  | none =>
    rw [hbools, htexts] at h
    cases hl : integerValue operator left with
    | error message =>
      rw [hl] at h
      exact nomatch h
    | ok lhs =>
      cases hr : integerValue operator right with
      | error message =>
        rw [hl, hr] at h
        exact nomatch h
      | ok rhs =>
        rw [hl, hr] at h
        rcases hop with rfl | rfl <;> exact nomatch h

theorem applyBinary_null (hnull : left.isValid = false ∨ right.isValid = false)
    (h : applyBinary operator left right = .ok scalar) : scalar = .null .na := by
  have hcond : (!left.isValid || !right.isValid) = true := by
    rcases hnull with h | h <;> simp [h]
  rw [applyBinary, if_pos hcond] at h
  exact (Except.ok.inj h).symm

variable {scalar : Scalar}

theorem evaluate_binary {left right : Expression}
    (h : evaluateExpression lib batch row (.binary operator left right) = .ok scalar) :
    ∃ lhs rhs, evaluateExpression lib batch row left = .ok lhs ∧
      evaluateExpression lib batch row right = .ok rhs ∧
        applyBinary operator lhs rhs = .ok scalar := by
  rw [evaluateExpression] at h
  cases hl : evaluateExpression lib batch row left with
  | error message =>
    rw [hl] at h
    exact nomatch h
  | ok lhs =>
    cases hr : evaluateExpression lib batch row right with
    | error message =>
      rw [hl, hr] at h
      exact nomatch h
    | ok rhs =>
      rw [hl, hr] at h
      exact ⟨lhs, rhs, rfl, rfl, h⟩

variable {operand : Expression}

theorem evaluate_unary {operator : UnaryOperator}
    (h : evaluateExpression lib batch row (.unary operator operand) = .ok scalar) :
    ∃ value, evaluateExpression lib batch row operand = .ok value ∧
      scalar = applyUnary lib operator value := by
  rw [evaluateExpression] at h
  cases hvalue : evaluateExpression lib batch row operand with
  | error message =>
    rw [hvalue] at h
    exact nomatch h
  | ok value =>
    rw [hvalue] at h
    exact ⟨value, rfl, (Except.ok.inj h).symm⟩

theorem evaluate_column {name : String}
    (h : evaluateExpression lib batch row (.column name) = .ok scalar) :
    ∃ column, batch.field name = some column ∧ scalar = column.read row := by
  rw [evaluateExpression, readColumn] at h
  cases hfield : batch.field name with
  | none =>
    rw [hfield] at h
    exact nomatch h
  | some column =>
    rw [hfield] at h
    exact ⟨column, rfl, (Except.ok.inj h).symm⟩

theorem evaluate_literal {value : LiteralValue}
    (h : evaluateExpression lib batch row (.literal value) = .ok scalar) :
    literalScalar value = .ok scalar ∧ scalar.isValid = true := by
  rw [evaluateExpression] at h
  refine ⟨h, ?_⟩
  cases value <;> first
    | (rw [← Except.ok.inj h]; rfl)
    | cases h

theorem hasNull_not (operand : Expression) :
    hasNull batch row (.unary .not operand) = hasNull batch row operand := by
  simp [hasNull]

theorem applyUnary_not (value : Scalar) :
    applyUnary lib .not value =
      if value.isValid then .bool !(readBool lib value) else .null .na := by
  cases hvalid : value.isValid <;> simp [applyUnary, hvalid]

variable {e : Expression}

/-- **The evaluator gives NULL exactly when an operand is NULL.** -/
theorem evaluate_null_iff (he : IsCondition batch e)
    (h : evaluateExpression lib batch row e = .ok scalar) :
    scalar.isValid = false ↔ hasNull batch row e = true := by
  induction e using Expression.onOperands generalizing scalar with
  | column name =>
    obtain ⟨column, hfield, rfl⟩ := evaluate_column h
    simp [hasNull, hfield]
  | literal value => simp [hasNull, (evaluate_literal h).2]
  | unary operator operand ih =>
    obtain ⟨value, hvalue, rfl⟩ := evaluate_unary h
    obtain ⟨hop, hoperand⟩ := he
    rcases hop with rfl | rfl | ⟨rfl, -⟩
    · simp [hasNull, applyUnary, valid_bool]
    · simp [hasNull, applyUnary, valid_bool]
    · rw [hasNull_not, ← ih hoperand hvalue, applyUnary_not]
      cases hvalid : value.isValid <;> simp [Scalar.isValid]
  | binary operator left right ihl ihr =>
    obtain ⟨lhs, rhs, hl, hr, happly⟩ := evaluate_binary h
    obtain ⟨hop, hleft, hright⟩ := he
    rw [hasNull, Bool.or_eq_true, ← ihl hleft hl, ← ihr hright hr]
    constructor
    · intro hnull
      by_contra hboth
      rw [not_or, Bool.not_eq_false, Bool.not_eq_false] at hboth
      obtain ⟨b, rfl⟩ := applyBinary_bool hop hboth.1 hboth.2 happly
      cases hnull
    · intro hnull
      rw [applyBinary_null hnull happly]
      rfl
  | function name arguments star distinct => exact he.elim

theorem evaluate_boolean (hboolean : isBoolean batch e = true) (he : IsCondition batch e)
    (h : evaluateExpression lib batch row e = .ok scalar) (hvalid : scalar.isValid = true) :
    ∃ b, scalar = .bool b := by
  cases e with
  | column name =>
    obtain ⟨column, hfield, rfl⟩ := evaluate_column h
    have htype : column.type = .bool ∨ column.type = .na := by
      simpa [isBoolean, hfield] using hboolean
    have hread := column.typed row
    cases hscalar : column.read row with
    | bool b => exact ⟨b, rfl⟩
    | null type =>
      rw [hscalar] at hvalid
      exact nomatch hvalid
    | _ =>
      rw [hscalar] at hread
      rcases htype with htype | htype <;> rw [htype] at hread <;> exact nomatch hread
  | literal value =>
    cases value with
    | bool b => exact ⟨b, (Except.ok.inj (evaluate_literal h).1).symm⟩
    | _ => exact nomatch hboolean
  | unary operator operand =>
    obtain ⟨value, -, rfl⟩ := evaluate_unary h
    obtain ⟨hop, -⟩ := he
    rcases hop with rfl | rfl | ⟨rfl, -⟩
    · exact ⟨_, rfl⟩
    · exact ⟨_, rfl⟩
    · rw [applyUnary_not] at hvalid ⊢
      cases hv : value.isValid with
      | true => exact ⟨_, if_pos rfl⟩
      | false =>
        rw [hv] at hvalid
        exact nomatch hvalid
  | binary operator left right =>
    obtain ⟨lhs, rhs, -, -, happly⟩ := evaluate_binary h
    by_cases hnull : lhs.isValid = false ∨ rhs.isValid = false
    · rw [applyBinary_null hnull happly] at hvalid
      exact nomatch hvalid
    · rw [not_or, Bool.not_eq_false, Bool.not_eq_false] at hnull
      exact applyBinary_bool he.1 hnull.1 hnull.2 happly
  | function name arguments star distinct => exact he.elim

theorem valid?_of_valid (h : scalar.isValid = true) :
    scalar.valid? = some scalar := if_pos h

theorem sqlBinary_comparison (hop : operator.isComparison = true) (left right : Option Scalar) :
    sqlBinary meaning operator left right =
      left.bind fun lhs => right.bind fun rhs => (meaning operator lhs rhs).map .bool := by
  cases operator <;> first | rfl | exact absurd hop (by decide)

theorem truthOf_map_bool (value : Option Bool) : truthOf (value.map .bool) = value := by
  cases value <;> rfl

theorem sqlTruth_comparison (hop : operator.isComparison = true) (l r : Expression) :
    sqlTruth meaning batch row (.binary operator l r) =
      (sqlValue meaning batch row l).bind fun lhs =>
        (sqlValue meaning batch row r).bind fun rhs => meaning operator lhs rhs := by
  rw [sqlTruth, sqlValue, sqlBinary_comparison hop]
  cases sqlValue meaning batch row l with
  | none => rfl
  | some lhs =>
    cases sqlValue meaning batch row r with
    | none => rfl
    | some rhs => exact truthOf_map_bool _

theorem sqlValue_literal {value : LiteralValue} (h : literalScalar value = .ok scalar) :
    sqlValue meaning batch row (.literal value) = some scalar := by
  rw [sqlValue, h]
  rfl

theorem sqlValue_column {name : String}
    {column : Column ρ} (h : batch.field name = some column) :
    sqlValue meaning batch row (.column name) = (column.read row).valid? := by
  rw [sqlValue, h]
  rfl

/-- **Without a NULL operand the evaluator gives the value of three-valued logic.** -/
theorem sqlValue_of_evaluate (he : IsCondition batch e) (htests : TestsRight meaning batch row e)
    (hcompares : ComparesRight kernels meaning batch row e)
    (h : evaluateExpression lib batch row e = .ok scalar) (hnull : hasNull batch row e = false) :
    sqlValue meaning batch row e = some scalar := by
  induction e using Expression.onOperands generalizing scalar with
  | column name =>
    obtain ⟨column, hfield, rfl⟩ := evaluate_column h
    have hvalid : (column.read row).isValid = true := by simpa [hasNull, hfield] using hnull
    rw [sqlValue, hfield]
    exact valid?_of_valid hvalid
  | literal value =>
    rw [sqlValue, (evaluate_literal h).1]
    rfl
  | unary operator operand ih =>
    obtain ⟨value, hvalue, rfl⟩ := evaluate_unary h
    obtain ⟨hop, hoperand⟩ := he
    obtain ⟨htests, htest⟩ := htests
    have hcompares : ComparesRight kernels meaning batch row operand := hcompares
    -- NULL here is NULL there
    have hnone : operator = .isNull ∨ operator = .isNotNull →
        (sqlValue meaning batch row operand).isNone = !value.isValid := by
      intro htested
      cases hoperandNull : hasNull batch row operand with
      | true =>
        rw [htest htested hoperandNull, (evaluate_null_iff hoperand hvalue).mpr hoperandNull]
        rfl
      | false =>
        have hvalid : value.isValid = true := by
          rw [← Bool.not_eq_false, evaluate_null_iff hoperand hvalue, hoperandNull]
          decide
        rw [ih hoperand htests hcompares hvalue hoperandNull, hvalid]
        rfl
    rw [sqlValue]
    rcases hop with rfl | rfl | ⟨rfl, hboolean⟩
    · rw [sqlUnary, hnone (.inl rfl)]
      rfl
    · rw [sqlUnary, ← Option.not_isNone, hnone (.inr rfl), Bool.not_not]
      rfl
    · rw [hasNull_not] at hnull
      have hvalid : value.isValid = true := by
        rw [← Bool.not_eq_false, evaluate_null_iff hoperand hvalue, hnull]
        decide
      obtain ⟨b, rfl⟩ := evaluate_boolean hboolean hoperand hvalue hvalid
      rw [ih hoperand htests hcompares hvalue hnull]
      rfl
  | binary operator left right ihl ihr =>
    obtain ⟨lhs, rhs, hl, hr, happly⟩ := evaluate_binary h
    obtain ⟨hop, hleft, hright⟩ := he
    obtain ⟨hcl, hcr, hcompare⟩ := hcompares
    rw [hasNull, Bool.or_eq_false_iff] at hnull
    have hvl : lhs.isValid = true := by
      rw [← Bool.not_eq_false, evaluate_null_iff hleft hl, hnull.1]
      decide
    have hvr : rhs.isValid = true := by
      rw [← Bool.not_eq_false, evaluate_null_iff hright hr, hnull.2]
      decide
    have hsl := ihl hleft htests.1 hcl hl hnull.1
    have hsr := ihr hright htests.2 hcr hr hnull.2
    rw [sqlValue, hsl, hsr]
    rcases hop with hop | hop
    · obtain ⟨result, rfl⟩ := applyBinary_bool (.inl hop) hvl hvr happly
      rw [sqlBinary_comparison hop]
      exact congrArg (Option.map Scalar.bool) ((hcompare hop lhs rhs hsl hsr).1 result happly)
    · obtain ⟨a, b, rfl, rfl, rfl⟩ := applyBinary_connective hop hvl hvr happly
      rcases hop with rfl | rfl
      · cases a <;> cases b <;> rfl
      · cases a <;> cases b <;> rfl
  | function name arguments star distinct => exact he.elim

theorem truthOf_eq_true_iff {value : Option Scalar} :
    truthOf value = some true ↔ value = some (.bool true) := by
  constructor
  · intro h
    cases value with
    | none => exact nomatch h
    | some scalar =>
      cases scalar with
      | bool b => rw [Option.some.inj h]
      | _ => exact nomatch h
  · rintro rfl
    rfl

/-- **The evaluator keeps a row exactly when the condition is TRUE and no operand is NULL.** -/
theorem evaluate_true_iff (he : IsCondition batch e) (htests : TestsRight meaning batch row e)
    (hcompares : ComparesRight kernels meaning batch row e)
    (h : evaluateExpression lib batch row e = .ok scalar) :
    scalar = .bool true ↔
      sqlTruth meaning batch row e = some true ∧ hasNull batch row e = false := by
  rw [sqlTruth, truthOf_eq_true_iff]
  constructor
  · rintro rfl
    have hnull : hasNull batch row e = false := by
      rw [← Bool.not_eq_true, ← evaluate_null_iff he h]
      decide
    exact ⟨sqlValue_of_evaluate he htests hcompares h hnull, hnull⟩
  · rintro ⟨htrue, hnull⟩
    rw [sqlValue_of_evaluate he htests hcompares h hnull] at htrue
    exact Option.some.inj htrue

/-! ## 3. The mask against three-valued logic -/

theorem columnOf_some {column : Column ρ} (h : columnOf batch e = some column) :
    ∃ name, e = .column name ∧ batch.field name = some column := by
  cases e with
  | column name => exact ⟨name, rfl, h⟩
  | _ => exact nomatch h

/-- **The mask keeps a row exactly when the condition is TRUE and no operand is NULL.** -/
theorem mask_true_iff (hcompares : ComparesRight kernels meaning batch row e)
    {mask : ρ → Option Bool} (hmask : vectorMask kernels batch e = some mask) :
    mask row = some true ↔
      sqlTruth meaning batch row e = some true ∧ hasNull batch row e = false := by
  rw [sqlTruth, truthOf_eq_true_iff]
  cases e with
  | unary operator operand =>
    obtain ⟨column, hcolumn, hentry⟩ := Option.bind_eq_some_iff.mp hmask
    obtain ⟨name, rfl, hfield⟩ := columnOf_some hcolumn
    have hvalue : sqlValue meaning batch row (.column name) = (column.read row).valid? := by
      rw [sqlValue, hfield]
      rfl
    cases operator with
    | isNull =>
      rw [← Option.some.inj hentry, sqlValue, hvalue]
      cases hvalid : (column.read row).isValid <;>
        simp [sqlUnary, hasNull, Scalar.valid?, hvalid]
    | isNotNull =>
      rw [← Option.some.inj hentry, sqlValue, hvalue]
      cases hvalid : (column.read row).isValid <;>
        simp [sqlUnary, hasNull, Scalar.valid?, hvalid]
    | _ => exact nomatch hentry
  | binary operator left right =>
    obtain ⟨l, hl, hright⟩ := Option.bind_eq_some_iff.mp hmask
    obtain ⟨r, hr, hentry⟩ := Option.bind_eq_some_iff.mp hright
    rw [compareMask] at hentry
    obtain ⟨hcond, hentry⟩ := Option.ite_none_right_eq_some.mp hentry
    rw [Bool.and_eq_true, Bool.and_eq_true, decide_eq_true_eq] at hcond
    obtain ⟨⟨hop, htype⟩, -⟩ := hcond
    obtain ⟨-, -, hcompare⟩ := hcompares
    have hcompare := hcompare hop
    have hcolumns : (columnOf batch left).isSome ∧ (columnOf batch right).isSome := by
      simp [hl, hr]
    obtain ⟨x, rfl, hx⟩ := columnOf_some hl
    obtain ⟨y, rfl, hy⟩ := columnOf_some hr
    rw [← Option.some.inj hentry, sqlValue, sqlBinary_comparison hop, sqlValue, sqlValue, hx, hy]
    rw [sqlValue, sqlValue, hx, hy] at hcompare
    simp only [Option.bind_some, hasNull, hx, hy] at hcompare ⊢
    cases hvl : (l.read row).isValid with
    | false => simp [Scalar.valid?, hvl]
    | true =>
      cases hvr : (r.read row).isValid with
      | false => simp [Scalar.valid?, hvr]
      | true =>
        have hsame : (l.read row).type = (r.read row).type := by rw [l.typed, r.typed, htype]
        have hmeaning := (hcompare _ _ (valid?_of_valid hvl) (valid?_of_valid hvr)).2
          hcolumns.1 hcolumns.2 hsame
        simp [Scalar.valid?, hvl, hvr, hmeaning]
  | _ => exact nomatch hmask

/-- **A row is kept exactly when the condition is TRUE on it and no operand is NULL**, by the mask
or by the evaluator. -/
theorem keepsRow_iff (he : IsCondition batch e) (htests : TestsRight meaning batch row e)
    (hcompares : ComparesRight kernels meaning batch row e) (h : Evaluates lib kernels batch e
    row) :
    keepsRow lib kernels batch e row = true ↔
      sqlTruth meaning batch row e = some true ∧ hasNull batch row e = false := by
  rw [keepsRow]
  cases hmask : vectorMask kernels batch e with
  | some mask => rw [beq_iff_eq, mask_true_iff hcompares hmask]
  | none =>
    obtain ⟨scalar, hscalar⟩ := h hmask
    rw [← evaluate_true_iff he htests hcompares hscalar, passes, hscalar]
    simp [Except.map, Except.toOption]

/-! ## 4. All conditions -/

variable (meaning batch) in
/-- Every condition is TRUE on the row. -/
def holds (conditions : List Expression) (row : ρ) : Bool :=
  conditions.all fun condition => decide (sqlTruth meaning batch row condition = some true)
variable {conditions : List Expression}

theorem holds_iff :
    holds meaning batch conditions row = true ↔
      ∀ condition ∈ conditions, sqlTruth meaning batch row condition = some true := by
  simp only [holds, all_eq_true, decide_eq_true_eq]

/-- **A row is kept by all conditions exactly when all are TRUE on it and no operand is NULL.** -/
theorem keeps_all_iff (hconditions : ∀ c ∈ conditions, IsCondition batch c)
    (htests : ∀ c ∈ conditions, TestsRight meaning batch row c)
    (hcompares : ∀ c ∈ conditions, ComparesRight kernels meaning batch row c)
    (h : Reached lib kernels batch row conditions) :
    conditions.all (keepsRow lib kernels batch · row) = true ↔
      ∀ c ∈ conditions, sqlTruth meaning batch row c = some true ∧
        hasNull batch row c = false := by
  induction conditions with
  | nil => simp
  | cons condition rest ih =>
    rw [forall_mem_cons] at hconditions htests hcompares
    obtain ⟨hevaluates, hreached⟩ := h
    have hfirst := keepsRow_iff hconditions.1 htests.1 hcompares.1 hevaluates
    rw [all_cons, Bool.and_eq_true, forall_mem_cons, ← hfirst]
    -- the other conditions are only asked where the first one keeps the row
    exact and_congr_right fun hkeeps =>
      ih hconditions.2 htests.2 hcompares.2 (hreached hkeeps)

variable {result : Batch ρ}

/-- **The rows kept are those of three-valued logic exactly when no row on which the conditions are
TRUE has a NULL operand.** -/
theorem applyConditions_iff (h : applyConditions lib kernels batch conditions = .ok result)
    (hconditions : ∀ c ∈ conditions, IsCondition batch c)
    (htests : ∀ row ∈ batch.rows, ∀ c ∈ conditions, TestsRight meaning batch row c)
    (hcompares : ∀ row ∈ batch.rows, ∀ c ∈ conditions, ComparesRight kernels meaning batch row c) :
    result.rows = batch.rows.filter (holds meaning batch conditions) ↔
      ∀ row ∈ batch.rows, holds meaning batch conditions row = true →
        ∀ c ∈ conditions, hasNull batch row c = false := by
  obtain ⟨hreached, hrows⟩ := applyConditions_ok lib kernels h
  rw [hrows, filter_eq_filter_iff]
  refine forall₂_congr fun row hrow => ?_
  have hkeeps :=
    keeps_all_iff hconditions (htests row hrow) (hcompares row hrow) (hreached row hrow)
  rw [Bool.eq_iff_iff, hkeeps, holds_iff]
  constructor
  · intro hiff htrue c hc
    exact (hiff.mpr htrue c hc).2
  · intro hnull
    exact ⟨fun hboth c hc => (hboth c hc).1, fun htrue c hc => ⟨htrue c hc, hnull htrue c hc⟩⟩

/-! ## 5. What SQL compares

What a comparison means is a parameter (`meaning`); `sqlCompare` is SQL's meaning, in which two
times are compared as instants, whatever the units.  The evaluator compares the counts, so the two
agree on values of one type (`comparesRight_of_sameKinds`). -/

/-- The nanoseconds of a unit. -/
def TimeUnit.nanos : TimeUnit → Int
  | .second => 1000000000
  | .milli => 1000000
  | .micro => 1000
  | .nano => 1

/-- What one of a value of the type lasts; an integer counts as it is. -/
def ArrowType.scale : ArrowType → Int
  | .timestamp unit => unit.nanos
  | .duration unit => unit.nanos
  | _ => 1

/-- The type without its unit. -/
def ArrowType.unitless : ArrowType → ArrowType
  | .timestamp _ => .timestamp .nano
  | .duration _ => .duration .nano
  | type => type

variable (kernels) in
/-- **A comparison in SQL**: texts by their bytes, integers as they are, times and durations by the
nanoseconds; other values as Arrow compares them.  Values of two types are not compared. -/
def sqlCompare (operator : BinaryOperator) (left right : Scalar) : Option Bool :=
  match applyTexts operator left right with
  | some result => some result
  | none =>
    if left.type.unitless = right.type.unitless then
      match left.integer?, right.integer? with
      | some lhs, some rhs =>
        compareIntegers (lhs * left.type.scale) (rhs * right.type.scale) operator
      | _, _ => some (kernels.compare operator left right)
    else none

/-- Two texts, or two values of one type. -/
def SameKind (left right : Scalar) : Prop :=
  (left.text?.isSome = true ∧ right.text?.isSome = true) ∨ left.type = right.type

variable (meaning batch row) in
/-- Every comparison of two values is of two of one kind. -/
def SameKinds : Expression → Prop
  | .unary _ operand => SameKinds operand
  | .binary operator left right =>
    SameKinds left ∧ SameKinds right ∧ (operator.isComparison = true →
      ∀ lhs rhs, sqlValue meaning batch row left = some lhs →
        sqlValue meaning batch row right = some rhs → SameKind lhs rhs)
  | _ => True

theorem scale_pos (type : ArrowType) : 0 < type.scale := by
  cases type with
  | timestamp unit => cases unit <;> decide
  | duration unit => cases unit <;> decide
  | _ => exact Int.one_pos

theorem compareIntegers_scale {k : Int} (hk : 0 < k) (lhs rhs : Int) (operator : BinaryOperator) :
    compareIntegers (lhs * k) (rhs * k) operator = compareIntegers lhs rhs operator := by
  have heq : lhs * k = rhs * k ↔ lhs = rhs := Int.mul_eq_mul_right_iff (Int.ne_of_gt hk)
  have hlt : ∀ a b : Int, a * k < b * k ↔ a < b := fun a b => Int.mul_lt_mul_right hk
  have hle : ∀ a b : Int, a * k ≤ b * k ↔ a ≤ b := fun a b => Int.mul_le_mul_right hk
  cases operator <;> simp only [compareIntegers, heq, hlt, hle, ne_eq]

theorem integer?_of_integerValue {value : Int} (h : integerValue operator scalar = .ok value) :
    scalar.integer? = some value := by
  cases scalar <;> first | exact congrArg some (Except.ok.inj h) | exact nomatch h

theorem applyBinary_comparison (hop : operator.isComparison = true) {result : Bool}
    (h : applyBinary operator left right = .ok (.bool result)) :
    applyTexts operator left right = some result ∨
      applyTexts operator left right = none ∧ ∃ lhs rhs, left.integer? = some lhs ∧
        right.integer? = some rhs ∧ compareIntegers lhs rhs operator = some result := by
  have hbools : applyBooleans operator left right = none := by
    cases operator <;> first | rfl | exact absurd hop (by decide)
  by_cases hvalid : (!left.isValid || !right.isValid) = true
  · rw [applyBinary, if_pos hvalid] at h
    exact nomatch h
  cases htexts : applyTexts operator left right with
  | some found =>
    rw [applyBinary, if_neg hvalid, hbools, htexts] at h
    exact .inl (congrArg some (Scalar.bool.inj (Except.ok.inj h)))
  | none =>
    obtain ⟨lhs, rhs, hl, hr, h⟩ := integers_of_applyBinary hvalid hbools htexts h
    refine .inr ⟨rfl, lhs, rhs, integer?_of_integerValue hl, integer?_of_integerValue hr, ?_⟩
    cases operator <;> first
      | exact absurd hop (by decide)
      | exact congrArg some (Scalar.bool.inj (Except.ok.inj h))

theorem compareIntegers_getD (hop : operator.isComparison = true) (lhs rhs : Int) :
    compareIntegers lhs rhs operator =
      some ((compareIntegers lhs rhs operator).getD false) := by
  cases operator <;> first | rfl | exact absurd hop (by decide)

theorem sqlCompare_integers {lhs rhs : Int} (htexts : applyTexts operator left right = none)
    (htype : left.type = right.type) (hleft : left.integer? = some lhs)
    (hright : right.integer? = some rhs) :
    sqlCompare kernels operator left right = compareIntegers lhs rhs operator := by
  rw [sqlCompare, htexts, if_pos (congrArg ArrowType.unitless htype), hleft, hright, htype]
  exact compareIntegers_scale (scale_pos right.type) lhs rhs operator

theorem sqlCompare_kernel (hop : operator.isComparison = true) (htype : left.type = right.type) :
    sqlCompare kernels operator left right = some (kernelCompare kernels operator left right) := by
  cases htexts : applyTexts operator left right with
  | some result => rw [sqlCompare, kernelCompare, htexts]
  | none =>
    cases hl : left.integer? with
    | none =>
      rw [sqlCompare, kernelCompare, htexts, if_pos (congrArg ArrowType.unitless htype), hl]
    | some lhs =>
      cases hr : right.integer? with
      | none =>
        rw [sqlCompare, kernelCompare, htexts, if_pos (congrArg ArrowType.unitless htype), hl, hr]
      | some rhs =>
        rw [sqlCompare_integers htexts htype hl hr, kernelCompare, htexts, hl, hr]
        exact compareIntegers_getD hop lhs rhs

/-- **Values of one kind are compared as SQL compares them**, by the evaluator and by kernels. -/
theorem compareRight_of_sameKind (hop : operator.isComparison = true) (left right : Expression)
    {lhs rhs : Scalar} (hkind : SameKind lhs rhs) :
    CompareRight kernels (sqlCompare kernels) batch operator left right lhs rhs := by
  refine ⟨fun result h => ?_, fun _ _ htype => sqlCompare_kernel hop htype⟩
  rcases applyBinary_comparison hop h with htexts | ⟨htexts, a, b, ha, hb, hresult⟩
  · rw [sqlCompare, htexts]
  · rcases hkind with ⟨hleft, -⟩ | htype
    · -- a text is no count
      have hnone : lhs.integer? = none := by
        cases lhs <;> first | rfl | cases hleft
      rw [hnone] at ha
      exact nomatch ha
    · rw [sqlCompare_integers htexts htype ha hb, hresult]

theorem comparesRight_of_sameKinds (h : SameKinds (sqlCompare kernels) batch row e) :
    ComparesRight kernels (sqlCompare kernels) batch row e := by
  induction e using Expression.onOperands with
  | unary operator operand ih => exact ih h
  | binary operator left right ihl ihr =>
    obtain ⟨hleft, hright, hkinds⟩ := h
    refine ⟨ihl hleft, ihr hright, fun hop lhs rhs hl hr => ?_⟩
    exact compareRight_of_sameKind hop left right (hkinds hop lhs rhs hl hr)
  | _ => trivial

/-! ## 6. Other null tests and comparisons -/

theorem not_keepsRow_of_hasNull (he : IsCondition batch e)
    (hmask : vectorMask kernels batch e = none) (h : Evaluates lib kernels batch e row)
    (hnull : hasNull batch row e = true) : keepsRow lib kernels batch e row = false := by
  obtain ⟨scalar, hscalar⟩ := h hmask
  have hinvalid : scalar.isValid = false := (evaluate_null_iff he hscalar).mpr hnull
  have hne : scalar ≠ .bool true := by
    rintro rfl
    exact nomatch hinvalid
  rw [keepsRow, hmask, passes, hscalar]
  simp [Except.map, Except.toOption, hne]

theorem keepsRow_isNull (hoperand : IsCondition batch operand)
    (h : Evaluates lib kernels batch (.unary .isNull operand) row) :
    keepsRow lib kernels batch (.unary .isNull operand) row = true ↔
      hasNull batch row operand = true := by
  rw [keepsRow]
  cases hmask : vectorMask kernels batch (.unary .isNull operand) with
  | some mask =>
    obtain ⟨column, hcolumn, hentry⟩ := Option.bind_eq_some_iff.mp hmask
    obtain ⟨name, rfl, hfield⟩ := columnOf_some hcolumn
    rw [← Option.some.inj hentry]
    simp [hasNull, hfield]
  | none =>
    obtain ⟨scalar, hscalar⟩ := h hmask
    obtain ⟨value, hvalue, rfl⟩ := evaluate_unary hscalar
    rw [← evaluate_null_iff hoperand hvalue, passes, hscalar]
    simp [Except.map, Except.toOption, applyUnary]

/-- **A null test is right exactly where NULL operands make the value NULL.** -/
theorem applyConditions_isNull_iff (hoperand : IsCondition batch operand)
    (h : applyConditions lib kernels batch [.unary .isNull operand] = .ok result) :
    result.rows = batch.rows.filter (holds meaning batch [.unary .isNull operand]) ↔
      ∀ row ∈ batch.rows,
        (hasNull batch row operand = true ↔ sqlValue meaning batch row operand = none) := by
  obtain ⟨hreached, hrows⟩ := applyConditions_ok lib kernels h
  rw [hrows, filter_eq_filter_iff]
  refine forall₂_congr fun row hrow => ?_
  rw [Bool.eq_iff_iff, all_eq_true, forall_mem_singleton, holds_iff,
    forall_mem_singleton, keepsRow_isNull hoperand (hreached row hrow).1, sqlTruth, sqlValue,
    sqlUnary, truthOf, Option.some.injEq, Option.isNone_iff_eq_none]

section Times

variable {operator : BinaryOperator} {x y : String} {l r : Column ρ} {unit unit' : TimeUnit}

theorem mask_times (hx : batch.field x = some l) (hy : batch.field y = some r)
    (hl : l.type = .timestamp unit) (hr : r.type = .timestamp unit') (hunits : unit ≠ unit') :
    vectorMask kernels batch (.binary operator (.column x) (.column y)) = none := by
  have htype : l.type ≠ r.type := by
    rw [hl, hr]
    exact fun h => hunits (ArrowType.timestamp.inj h)
  simp [vectorMask, columnOf, hx, hy, compareMask, htype]

theorem keepsRow_times (hop : operator.isComparison = true)
    (hmask : vectorMask kernels batch (.binary operator (.column x) (.column y)) = none)
    (hx : batch.field x = some l) (hy : batch.field y = some r) {lhs rhs : Int}
    (hl : l.read row = .timestamp unit lhs) (hr : r.read row = .timestamp unit' rhs) :
    keepsRow lib kernels batch (.binary operator (.column x) (.column y)) row = true ↔
      compareIntegers lhs rhs operator = some true := by
  have hbools : applyBooleans operator (.timestamp unit lhs) (.timestamp unit' rhs) = none := by
    cases operator <;> rfl
  have hreadx : readColumn batch row x = .ok (.timestamp unit lhs) := by rw [readColumn, hx, ← hl]
  have hready : readColumn batch row y = .ok (.timestamp unit' rhs) := by rw [readColumn, hy, ← hr]
  have hvalue : evaluateExpression lib batch row (.binary operator (.column x) (.column y)) =
      applyBinary operator (.timestamp unit lhs) (.timestamp unit' rhs) := by
    rw [evaluateExpression, evaluateExpression, evaluateExpression, hreadx, hready]
    rfl
  rw [keepsRow, hmask, passes, hvalue, decide_eq_true_eq]
  cases operator <;> first
    | exact absurd hop (by decide)
    | simp [applyBinary, Scalar.isValid, hbools, applyTexts, Scalar.text?, integerValue,
        applyIntegers, compareIntegers, Except.map, Except.toOption, bind, Except.bind]

theorem read_timestamp (hl : l.type = .timestamp unit) (row : ρ) :
    (l.read row).isValid = false ∨ ∃ value, l.read row = .timestamp unit value := by
  have htyped := l.typed row
  rw [hl] at htyped
  cases hread : l.read row with
  | null type => exact .inl rfl
  | timestamp unit' value =>
    rw [hread] at htyped
    exact .inr ⟨value, by rw [ArrowType.timestamp.inj htyped]⟩
  | _ =>
    rw [hread] at htyped
    exact nomatch htyped

/-- **A comparison of times of different units is right exactly where the counts compare as the
times do.** -/
theorem applyConditions_times_iff (hop : operator.isComparison = true) (hx : batch.field x = some l)
    (hy : batch.field y = some r) (hl : l.type = .timestamp unit) (hr : r.type = .timestamp unit')
    (hunits : unit ≠ unit')
    (h : applyConditions lib kernels batch [.binary operator (.column x) (.column y)] = .ok
    result) :
    result.rows = batch.rows.filter
        (holds (sqlCompare kernels) batch [.binary operator (.column x) (.column y)]) ↔
      ∀ row ∈ batch.rows, ∀ lhs rhs, l.read row = .timestamp unit lhs →
        r.read row = .timestamp unit' rhs →
          (compareIntegers lhs rhs operator = some true ↔
            compareIntegers (lhs * unit.nanos) (rhs * unit'.nanos) operator = some true) := by
  obtain ⟨hreached, hrows⟩ := applyConditions_ok lib kernels h
  have hmask : vectorMask kernels batch (.binary operator (.column x) (.column y)) = none :=
    mask_times hx hy hl hr hunits
  rw [hrows, filter_eq_filter_iff]
  refine forall₂_congr fun row hrow => ?_
  rw [Bool.eq_iff_iff, all_eq_true, forall_mem_singleton, holds_iff,
    forall_mem_singleton, sqlTruth_comparison hop, sqlValue_column hx, sqlValue_column hy]
  -- a NULL time is right in any case
  have hleft : (l.read row).isValid = false ∨ (r.read row).isValid = false →
      keepsRow lib kernels batch (.binary operator (.column x) (.column y)) row = false := by
    intro hnull
    refine not_keepsRow_of_hasNull ⟨.inl hop, trivial, trivial⟩ hmask (hreached row hrow).1 ?_
    rcases hnull with hnull | hnull <;> simp [hasNull, hx, hy, hnull]
  rcases read_timestamp hl row with hnull | ⟨a, ha⟩
  · rw [hleft (.inl hnull), Scalar.valid?, hnull]
    refine iff_of_true ⟨nofun, nofun⟩ fun lhs rhs hlhs _ => ?_
    rw [hlhs] at hnull
    exact nomatch hnull
  · rcases read_timestamp hr row with hnull | ⟨b, hb⟩
    · rw [hleft (.inr hnull), Scalar.valid?, Scalar.valid?, hnull, ha]
      refine iff_of_true ⟨nofun, nofun⟩ fun lhs rhs _ hrhs => ?_
      rw [hrhs] at hnull
      exact nomatch hnull
    · rw [keepsRow_times hop hmask hx hy ha hb, ha, hb]
      constructor
      · intro hright lhs rhs hlhs hrhs
        obtain ⟨-, rfl⟩ := Scalar.timestamp.inj hlhs
        obtain ⟨-, rfl⟩ := Scalar.timestamp.inj hrhs
        exact hright
      · intro hright
        exact hright a b rfl rfl

end Times

end MldpDriver.Query.Evaluator
