/-
# Conditions as predicate groups

A condition of comparisons with literals and of null tests can also be written as a predicate group,
which the local filter decides.  The group is in three-valued logic and the evaluator is not, so the
two keep the same rows exactly when no row on which the group is TRUE has a NULL operand outside a
null test (`applyConditions_group_iff`).  Here the two have to agree on the comparisons with
literals as well: the filter compares numbers as doubles, and a time with an integer in seconds
(`LiteralClear`).
-/
import MldpDriver.Query.ConditionTruth
import MldpDriver.Query.ExactComparison
import MldpDriver.Query.FilterGroups

namespace MldpDriver.Query.Evaluator

open FilterGroups List
open Lib.Binary64 (toBinary64)
open Lib.Kleene

variable {ρ : Type}

/-! ## 1. One batch, two readings -/

/-- What the local filter reads of a scalar: of a time, the count. -/
def Scalar.cell : Scalar → Cell
  | .null _ => .scalar .null
  | .bool value => .scalar (.boolean value)
  | .string value => .scalar (.string value)
  | .largeString _ => .scalar .unsupported
  | .int64 value => .scalar (.signedInteger value)
  | .timestamp _ value => .scalar (.timestamp value)
  | .duration _ value => .scalar (.duration value)
  | .other _ value => if value.isValid then value else .scalar .unsupported

def Batch.cells (batch : Batch ρ) : RecordBatch ρ :=
  { fields := batch.columns.map fun column => (column.name, fun row => (column.read row).cell)
    rows := batch.rows }

theorem cell_isValid (scalar : Scalar) : scalar.cell.isValid = scalar.isValid := by
  cases scalar with
  | other id value =>
    have hcell : (Scalar.other id value).cell =
        if value.isValid then value else .scalar .unsupported := rfl
    rw [hcell]
    split
    · next h => exact h
    · rfl
  | _ => rfl

theorem predicateField_cells {batch : Batch ρ} {name : String} {column : Column ρ}
    (h : batch.field name = some column) :
    predicateField batch.cells name = some fun row => (column.read row).cell := by
  have hfilter : batch.columns.filter (fun c => c.name == name) = [column] := by
    rw [Batch.field] at h
    split at h
    · next found => rw [found, Option.some.inj h]
    · cases h
  have hfields : batch.cells.fields.filter (fun f => f.1 == name) =
      [(column.name, fun row => (column.read row).cell)] := by
    rw [Batch.cells, filter_map]
    exact congrArg (List.map _) hfilter
  rw [predicateField, hfields]

/-! ## 2. Conditions and groups -/

/-- The operator of a predicate. -/
def BinaryOperator.predicateOp? : BinaryOperator → Option PredicateOp
  | .eq => some .EQ
  | .ne => some .NEQ
  | .lt => some .LT
  | .le => some .LTE
  | .gt => some .GT
  | .ge => some .GTE
  | _ => none

/-- The operator with the operands exchanged. -/
def BinaryOperator.exchanged : BinaryOperator → BinaryOperator
  | .lt => .gt
  | .le => .ge
  | .gt => .lt
  | .ge => .le
  | operator => operator

/-- The literal of a predicate. -/
def LiteralValue.executable? : LiteralValue → Option Literal
  | .string value => some (.string value)
  | .int64 value => some (.int64 value)
  | .double value => some (.double value)
  | .bool value => some (.bool value)
  | .timestampNs value => some (.timestampNs value)
  | .durationNs value => some (.durationNs value)
  | .now _ => none

/-- **The condition can also be written as the group.**  A predicate on `tag` asks for an element of
the list `tags`, so no condition is written with it. -/
inductive WrittenAs : Expression → PredicateGroup → Prop
  | compare {operator : BinaryOperator} {op : PredicateOp} {name : String} {value : LiteralValue}
      {literal : Literal} : operator.predicateOp? = some op → value.executable? = some literal →
      name ≠ "tag" → WrittenAs (.binary operator (.column name) (.literal value))
        (.leaf ⟨name, op, [literal]⟩)
  | exchanged {operator : BinaryOperator} {op : PredicateOp} {name : String} {value : LiteralValue}
      {literal : Literal} : operator.exchanged.predicateOp? = some op →
      value.executable? = some literal → name ≠ "tag" →
      WrittenAs (.binary operator (.literal value) (.column name)) (.leaf ⟨name, op, [literal]⟩)
  | isNull {name : String} {values : List Literal} : name ≠ "tag" →
      WrittenAs (.unary .isNull (.column name)) (.leaf ⟨name, .IS_NULL, values⟩)
  | isNotNull {name : String} {values : List Literal} : name ≠ "tag" →
      WrittenAs (.unary .isNotNull (.column name)) (.leaf ⟨name, .IS_NOT_NULL, values⟩)
  | not {e : Expression} {g : PredicateGroup} : WrittenAs e g → WrittenAs (.unary .not e) (.not g)
  | andOne {e : Expression} {g : PredicateGroup} : WrittenAs e g → WrittenAs e (.and [g])
  | and {l r : Expression} {gs : List PredicateGroup} {g : PredicateGroup} :
      WrittenAs l (.and gs) → WrittenAs r g → WrittenAs (.binary .and l r) (.and (gs ++ [g]))
  | orOne {e : Expression} {g : PredicateGroup} : WrittenAs e g → WrittenAs e (.or [g])
  | or {l r : Expression} {gs : List PredicateGroup} {g : PredicateGroup} :
      WrittenAs l (.or gs) → WrittenAs r g → WrittenAs (.binary .or l r) (.or (gs ++ [g]))

/-- The value and the literal are of one kind, and different numbers are different doubles. -/
def LiteralClear : Scalar → LiteralValue → Prop
  | .string _, .string _ => True
  | .int64 a, .int64 b => toBinary64 a = toBinary64 b → a = b
  | .timestamp _ a, .timestampNs b => toBinary64 a = toBinary64 b → a = b
  | .duration _ a, .durationNs b => toBinary64 a = toBinary64 b → a = b
  | _, _ => False

section Clear

variable (batch : Batch ρ) (row : ρ)

/-- What the column holds, unless it is NULL, is of the literal's kind. -/
def ColumnClear (name : String) (value : LiteralValue) : Prop :=
  ∀ column, batch.field name = some column → (column.read row).isValid = true →
    LiteralClear (column.read row) value

def OperandsClear : Expression → Expression → Prop
  | .column name, .literal value => ColumnClear batch row name value
  | .literal value, .column name => ColumnClear batch row name value
  | _, _ => True

/-- Every comparison of a column with a literal is clear. -/
def LiteralsClear : Expression → Prop
  | .unary _ operand => LiteralsClear operand
  | .binary _ left right =>
    LiteralsClear left ∧ LiteralsClear right ∧ OperandsClear batch row left right
  | _ => True

/-- The batch has every column of the expression. -/
def HasColumns : Expression → Prop
  | .column name => (batch.field name).isSome = true
  | .unary _ operand => HasColumns operand
  | .binary _ left right => HasColumns left ∧ HasColumns right
  | _ => True

end Clear

/-! ## 3. One comparison -/

/-- What the evaluator makes of two values. -/
def asEvaluated (operator : BinaryOperator) (left right : Scalar) : Option Bool :=
  match applyBinary operator left right with
  | .ok (.bool result) => some result
  | _ => none

variable {operator : BinaryOperator}
variable {op : PredicateOp}

theorem compareTexts_predicate (hop : operator.predicateOp? = some op) (lhs rhs : String) :
    compareTexts lhs rhs operator = some (compareString lhs rhs op) := by
  cases operator <;> cases hop <;> rfl

theorem compareIntegers_predicate (hop : operator.predicateOp? = some op) (lhs rhs : Int) :
    compareIntegers lhs rhs operator = some (orderResult lhs rhs op) := by
  cases operator <;> cases hop <;> rfl

theorem predicateOp_order (hop : operator.predicateOp? = some op) :
    IsOrderOp op := by
  cases operator <;> cases hop <;> simp [IsOrderOp]

theorem predicateOp_comparison (hop : operator.predicateOp? = some op) :
    operator.isComparison = true := by
  cases operator <;> first | rfl | cases hop

theorem asEvaluated_texts (operator : BinaryOperator) (lhs rhs : String) :
    asEvaluated operator (.string lhs) (.string rhs) = compareTexts lhs rhs operator := by
  cases operator <;> rfl

theorem asEvaluated_integers (hop : operator.isComparison = true) {left right : Scalar}
    {lhs rhs : Int} (hleft : left.integer? = some lhs) (hright : right.integer? = some rhs) :
    asEvaluated operator left right = compareIntegers lhs rhs operator := by
  cases left <;> cases hleft <;> cases right <;> cases hright <;> cases operator <;>
    first | exact absurd hop (by decide) | rfl

theorem compareNumeric_clear {a b : Int} (hapart : toBinary64 a = toBinary64 b → a = b)
    (hop : IsOrderOp op) :
    compareNumeric (.ofInt a) (.ofInt b) op = orderResult a b op := by
  rw [compareNumeric_ofInt]
  exact (orderResult_rounded_iff a b).mpr hapart op hop

variable {value : LiteralValue}
variable {literal : Literal}
variable {scalar right : Scalar}

/-- A clear comparison is one of two texts or of two counts, for the filter as well. -/
theorem literalClear_cases (hliteral : value.executable? = some literal)
    (hright : literalScalar value = .ok right) (hclear : LiteralClear scalar value) :
    (∃ a b, scalar = .string a ∧ right = .string b ∧ literal = .string b) ∨
      ∃ a b, scalar.integer? = some a ∧ right.integer? = some b ∧
        (toBinary64 a = toBinary64 b → a = b) ∧
          ∀ op, compareSingle (nativeScalarFromArrow scalar.cell) literal op =
            compareNumeric (.ofInt a) (.ofInt b) op := by
  cases scalar with
  | string a =>
    cases value with
    | string b =>
      cases hliteral
      cases hright
      exact .inl ⟨a, b, rfl, rfl, rfl⟩
    | _ => exact hclear.elim
  | int64 a =>
    cases value with
    | int64 b =>
      cases hliteral
      cases hright
      exact .inr ⟨a, b, rfl, rfl, hclear, fun _ => rfl⟩
    | _ => exact hclear.elim
  | timestamp unit a =>
    cases value with
    | timestampNs b =>
      cases hliteral
      cases hright
      exact .inr ⟨a, b, rfl, rfl, hclear, fun _ => rfl⟩
    | _ => exact hclear.elim
  | duration unit a =>
    cases value with
    | durationNs b =>
      cases hliteral
      cases hright
      exact .inr ⟨a, b, rfl, rfl, hclear, fun _ => rfl⟩
    | _ => exact hclear.elim
  | _ => exact hclear.elim

/-- **Clear operands are compared alike** by the evaluator and by the filter. -/
theorem asEvaluated_clear (hop : operator.predicateOp? = some op)
    (hliteral : value.executable? = some literal) (hright : literalScalar value = .ok right)
    (hclear : LiteralClear scalar value) (name : String) :
    asEvaluated operator scalar right =
      some (scalarMatchesPredicate scalar.cell ⟨name, op, [literal]⟩) := by
  have horder := predicateOp_order hop
  rw [scalarMatches_single _ _ _ horder]
  rcases literalClear_cases hliteral hright hclear with
    ⟨a, b, rfl, rfl, rfl⟩ | ⟨a, b, ha, hb, hapart, hsingle⟩
  · rw [asEvaluated_texts, compareTexts_predicate hop]
    rfl
  · rw [hsingle, asEvaluated_integers (predicateOp_comparison hop) ha hb,
      compareIntegers_predicate hop, compareNumeric_clear hapart horder]

theorem compareTexts_exchanged (operator : BinaryOperator) (lhs rhs : String) :
    compareTexts rhs lhs operator = compareTexts lhs rhs operator.exchanged := by
  have hcomm : (rhs == lhs) = (lhs == rhs) := BEq.comm
  have hne : (rhs != lhs) = (lhs != rhs) := congrArg (!·) hcomm
  cases operator <;> simp only [compareTexts, BinaryOperator.exchanged, hcomm, hne]

theorem compareIntegers_exchanged (operator : BinaryOperator) (lhs rhs : Int) :
    compareIntegers rhs lhs operator = compareIntegers lhs rhs operator.exchanged := by
  have hcomm : rhs = lhs ↔ lhs = rhs := eq_comm
  cases operator <;> simp only [compareIntegers, BinaryOperator.exchanged, hcomm, ne_eq]

theorem isComparison_exchanged (operator : BinaryOperator) :
    operator.exchanged.isComparison = operator.isComparison := by
  cases operator <;> rfl

theorem asEvaluated_exchanged (hop : operator.isComparison = true)
    (hliteral : value.executable? = some literal) (hright : literalScalar value = .ok right)
    (hclear : LiteralClear scalar value) :
    asEvaluated operator right scalar = asEvaluated operator.exchanged scalar right := by
  have hop' : operator.exchanged.isComparison = true := by rw [isComparison_exchanged, hop]
  rcases literalClear_cases hliteral hright hclear with ⟨a, b, rfl, rfl, -⟩ | ⟨a, b, ha, hb, -⟩
  · rw [asEvaluated_texts, asEvaluated_texts, compareTexts_exchanged]
  · rw [asEvaluated_integers hop hb ha, asEvaluated_integers hop' ha hb,
      compareIntegers_exchanged]

/-! ## 4. A condition and its group -/

variable {meaning : BinaryOperator → Scalar → Scalar → Option Bool}

variable {operator : BinaryOperator}

section Truth

variable {batch : Batch ρ} {row : ρ}

theorem sqlTruth_not (e : Expression) :
    sqlTruth meaning batch row (.unary .not e) = not3 (sqlTruth meaning batch row e) := by
  rw [sqlTruth, sqlValue, sqlUnary, truthOf_map_bool]
  rfl

theorem sqlTruth_and (l r : Expression) : sqlTruth meaning batch row (.binary .and l r) =
      and3 (sqlTruth meaning batch row l) (sqlTruth meaning batch row r) := by
  rw [sqlTruth, sqlValue, sqlBinary, truthOf_map_bool]
  rfl

theorem sqlTruth_or (l r : Expression) : sqlTruth meaning batch row (.binary .or l r) =
      or3 (sqlTruth meaning batch row l) (sqlTruth meaning batch row r) := by
  rw [sqlTruth, sqlValue, sqlBinary, truthOf_map_bool]
  rfl

/-- What is shown of every pair: the condition has a truth value where the group has it. -/
def SameTruth (batch : Batch ρ) (row : ρ) (e : Expression) (g : PredicateGroup) : Prop :=
  ∀ b : Bool, sqlTruth asEvaluated batch row e = some b ↔
    groupTruth batch.cells row g = .ofBool b

variable {column : Column ρ}
variable {name : String}

theorem leafTruth (hname : name ≠ "tag") (hfield : batch.field name = some column)
    (op : PredicateOp) (values : List Literal) :
    groupTruth batch.cells row (.leaf ⟨name, op, values⟩) =
      if !isNullTest op && !(column.read row).isValid then .unknown
      else .ofBool (scalarMatchesPredicate (column.read row).cell ⟨name, op, values⟩) := by
  rw [groupTruth, predicateTruth, if_neg hname]
  simp only [predicateField_cells hfield, cell_isValid]

theorem ofBool_iff {a b : Bool} : some a = some b ↔ Truth.ofBool a = .ofBool b := by
  cases a <;> cases b <;> decide

theorem literalClear_evaluates {scalar : Scalar} (h : LiteralClear scalar value) :
    ∃ right, literalScalar value = .ok right := by
  cases value with
  | double _ => cases scalar <;> exact h.elim
  | now _ => cases scalar <;> exact h.elim
  | _ => exact ⟨_, rfl⟩

variable {op : PredicateOp}
variable {e : Expression}

theorem compare_same (hname : name ≠ "tag") (hfield : batch.field name = some column)
    (hop : isNullTest op = false)
    (hnull : (column.read row).isValid = false → sqlTruth asEvaluated batch row e = none)
    (hvalid : (column.read row).isValid = true → sqlTruth asEvaluated batch row e =
      some (scalarMatchesPredicate (column.read row).cell ⟨name, op, [literal]⟩)) :
    SameTruth batch row e (.leaf ⟨name, op, [literal]⟩) := by
  intro b
  rw [leafTruth hname hfield, hop, Bool.not_false, Bool.true_and]
  cases hv : (column.read row).isValid with
  | false =>
    rw [hnull hv, if_pos Bool.not_false]
    cases b <;> decide
  | true =>
    rw [hvalid hv]
    exact ofBool_iff

theorem predicateOp_not_nullTest {op : PredicateOp} (hop : operator.predicateOp? = some op) :
    isNullTest op = false := by
  cases operator <;> cases hop <;> rfl

theorem same_compare (hop : operator.predicateOp? = some op)
    (hliteral : value.executable? = some literal) (hname : name ≠ "tag")
    (hfield : batch.field name = some column) (hclear : ColumnClear batch row name value) :
    SameTruth batch row (.binary operator (.column name) (.literal value))
      (.leaf ⟨name, op, [literal]⟩) := by
  refine compare_same hname hfield (predicateOp_not_nullTest hop) (fun hnull => ?_) fun hvalid => ?_
  · rw [sqlTruth_comparison (predicateOp_comparison hop), sqlValue_column hfield, Scalar.valid?,
      hnull]
    rfl
  · obtain ⟨right, hright⟩ := literalClear_evaluates (hclear column hfield hvalid)
    rw [sqlTruth_comparison (predicateOp_comparison hop), sqlValue_column hfield,
      valid?_of_valid hvalid, sqlValue_literal hright]
    exact asEvaluated_clear hop hliteral hright (hclear column hfield hvalid) name

theorem same_exchanged (hop : operator.exchanged.predicateOp? = some op)
    (hliteral : value.executable? = some literal) (hname : name ≠ "tag")
    (hfield : batch.field name = some column) (hclear : ColumnClear batch row name value) :
    SameTruth batch row (.binary operator (.literal value) (.column name))
      (.leaf ⟨name, op, [literal]⟩) := by
  have hcomparison : operator.isComparison = true := by
    rw [← isComparison_exchanged, predicateOp_comparison hop]
  refine compare_same hname hfield (predicateOp_not_nullTest hop) (fun hnull => ?_) fun hvalid => ?_
  · rw [sqlTruth_comparison hcomparison, sqlValue_column hfield, Scalar.valid?, hnull]
    cases sqlValue asEvaluated batch row (.literal value) <;> rfl
  · have hliteralClear := hclear column hfield hvalid
    obtain ⟨right, hright⟩ := literalClear_evaluates hliteralClear
    rw [sqlTruth_comparison hcomparison, sqlValue_column hfield, valid?_of_valid hvalid,
      sqlValue_literal hright]
    rw [← asEvaluated_clear hop hliteral hright hliteralClear name]
    exact asEvaluated_exchanged hcomparison hliteral hright hliteralClear

theorem same_isNull (hname : name ≠ "tag") (hfield : batch.field name = some column)
    (values : List Literal) :
    SameTruth batch row (.unary .isNull (.column name)) (.leaf ⟨name, .IS_NULL, values⟩) := by
  intro b
  have hmatch : scalarMatchesPredicate (column.read row).cell ⟨name, .IS_NULL, values⟩ =
      !(column.read row).isValid := by
    rw [scalarMatchesPredicate, cell_isValid]
  rw [leafTruth hname hfield, hmatch, sqlTruth, sqlValue, sqlValue_column hfield, sqlUnary,
    Scalar.valid?]
  cases (column.read row).isValid <;> exact ofBool_iff

theorem same_isNotNull (hname : name ≠ "tag") (hfield : batch.field name = some column)
    (values : List Literal) :
    SameTruth batch row (.unary .isNotNull (.column name))
      (.leaf ⟨name, .IS_NOT_NULL, values⟩) := by
  intro b
  have hmatch : scalarMatchesPredicate (column.read row).cell ⟨name, .IS_NOT_NULL, values⟩ =
      (column.read row).isValid := by
    rw [scalarMatchesPredicate, cell_isValid]
  rw [leafTruth hname hfield, hmatch, sqlTruth, sqlValue, sqlValue_column hfield, sqlUnary,
    Scalar.valid?]
  cases (column.read row).isValid <;> exact ofBool_iff

variable {g : PredicateGroup}

theorem same_not (h : SameTruth batch row e g) :
    SameTruth batch row (.unary .not e) (.not g) := by
  intro b
  rw [sqlTruth_not, not3_eq_some_iff, h (!b), groupTruth_not_iff]

variable {groups : List PredicateGroup}

theorem groupTruth_and_append {b : Bool} :
    groupTruth batch.cells row (.and (groups ++ [g])) = .ofBool b ↔
      if b then groupTruth batch.cells row (.and groups) = .ofBool true ∧
        groupTruth batch.cells row g = .ofBool true
      else groupTruth batch.cells row (.and groups) = .ofBool false ∨
        groupTruth batch.cells row g = .ofBool false := by
  cases b with
  | true =>
    simp only [Truth.ofBool, if_true, groupTruth_and_true, forall_mem_append,
      forall_mem_singleton]
  | false =>
    simp only [Truth.ofBool, Bool.false_eq_true, if_false, groupTruth_and_false, mem_append,
      mem_singleton, or_and_right, exists_or, exists_eq_left]

theorem groupTruth_or_append {b : Bool} :
    groupTruth batch.cells row (.or (groups ++ [g])) = .ofBool b ↔
      if b then groupTruth batch.cells row (.or groups) = .ofBool true ∨
        groupTruth batch.cells row g = .ofBool true
      else groupTruth batch.cells row (.or groups) = .ofBool false ∧
        groupTruth batch.cells row g = .ofBool false := by
  cases b with
  | true =>
    simp only [Truth.ofBool, if_true, groupTruth_or_true, mem_append,
      mem_singleton, or_and_right, exists_or, exists_eq_left]
  | false =>
    simp only [Truth.ofBool, Bool.false_eq_true, if_false, groupTruth_or_false,
      forall_mem_append, forall_mem_singleton]

theorem same_and {l r : Expression} (hl : SameTruth batch row l (.and groups))
    (hr : SameTruth batch row r g) :
    SameTruth batch row (.binary .and l r) (.and (groups ++ [g])) := by
  intro b
  rw [sqlTruth_and, groupTruth_and_append, ← hl, ← hr, ← hl, ← hr]
  cases b with
  | true => exact and3_eq_true_iff
  | false => exact and3_eq_false_iff

theorem same_or {l r : Expression} (hl : SameTruth batch row l (.or groups))
    (hr : SameTruth batch row r g) :
    SameTruth batch row (.binary .or l r) (.or (groups ++ [g])) := by
  intro b
  rw [sqlTruth_or, groupTruth_or_append, ← hl, ← hr, ← hl, ← hr]
  cases b with
  | true => exact or3_eq_true_iff
  | false => exact or3_eq_false_iff

theorem same_one {g h : PredicateGroup} (hsame : ∀ b, groupTruth batch.cells row h = .ofBool b ↔
      groupTruth batch.cells row g = .ofBool b) (he : SameTruth batch row e g) :
    SameTruth batch row e h := by
  intro b
  rw [he b, hsame b]

theorem groupTruth_and_one (b : Bool) :
    groupTruth batch.cells row (.and [g]) = .ofBool b ↔
      groupTruth batch.cells row g = .ofBool b := by
  cases b <;> simp [Truth.ofBool, groupTruth_and_true, groupTruth_and_false]

theorem groupTruth_or_one (b : Bool) :
    groupTruth batch.cells row (.or [g]) = .ofBool b ↔
      groupTruth batch.cells row g = .ofBool b := by
  cases b <;> simp [Truth.ofBool, groupTruth_or_true, groupTruth_or_false]

/-- **A condition and its group have one truth value**: one case for each way to write it. -/
theorem sameTruth (h : WrittenAs e g) (hcolumns : HasColumns batch e)
    (hclear : LiteralsClear batch row e) :
    SameTruth batch row e g := by
  induction h with
  | compare hop hliteral hname =>
    obtain ⟨column, hfield⟩ := Option.isSome_iff_exists.mp hcolumns.1
    exact same_compare hop hliteral hname hfield hclear.2.2
  | exchanged hop hliteral hname =>
    obtain ⟨column, hfield⟩ := Option.isSome_iff_exists.mp hcolumns.2
    exact same_exchanged hop hliteral hname hfield hclear.2.2
  | isNull hname =>
    obtain ⟨column, hfield⟩ := Option.isSome_iff_exists.mp hcolumns
    exact same_isNull hname hfield _
  | isNotNull hname =>
    obtain ⟨column, hfield⟩ := Option.isSome_iff_exists.mp hcolumns
    exact same_isNotNull hname hfield _
  | not _ ih => exact same_not (ih hcolumns hclear)
  | andOne _ ih => exact same_one groupTruth_and_one (ih hcolumns hclear)
  | orOne _ ih => exact same_one groupTruth_or_one (ih hcolumns hclear)
  | and _ _ ihl ihr =>
    exact same_and (ihl hcolumns.1 hclear.1) (ihr hcolumns.2 hclear.2.1)
  | or _ _ ihl ihr =>
    exact same_or (ihl hcolumns.1 hclear.1) (ihr hcolumns.2 hclear.2.1)

end Truth

/-! ## 5. The rows that are kept -/

section Kept

variable {batch : Batch ρ}
variable {e : Expression}
variable {g : PredicateGroup}

theorem WrittenAs.isBoolean (h : WrittenAs e g) :
    isBoolean batch e = true := by
  induction h with
  | andOne _ ih => exact ih
  | orOne _ ih => exact ih
  | _ => rfl

theorem WrittenAs.isCondition (h : WrittenAs e g) :
    IsCondition batch e := by
  induction h with
  | compare hop _ _ => exact ⟨.inl (predicateOp_comparison hop), trivial, trivial⟩
  | @exchanged operator _ _ _ _ hop _ _ =>
    refine ⟨.inl ?_, trivial, trivial⟩
    rw [← isComparison_exchanged, predicateOp_comparison hop]
  | isNull _ => exact ⟨.inl rfl, trivial⟩
  | isNotNull _ => exact ⟨.inr (.inl rfl), trivial⟩
  | not h ih => exact ⟨.inr (.inr ⟨rfl, h.isBoolean⟩), ih⟩
  | andOne _ ih => exact ih
  | orOne _ ih => exact ih
  | and _ _ ihl ihr => exact ⟨.inr (.inl rfl), ihl, ihr⟩
  | or _ _ ihl ihr => exact ⟨.inr (.inr rfl), ihl, ihr⟩

variable {row : ρ}

theorem sqlValue_column_null {name : String} (h : hasNull batch row (.column name) = true) :
    sqlValue meaning batch row (.column name) = none := by
  rw [hasNull] at h
  cases hfield : batch.field name with
  | none =>
    rw [hfield] at h
    cases h
  | some column =>
    rw [hfield] at h
    rw [sqlValue_column hfield, Scalar.valid?, if_neg (by simpa using h)]

theorem WrittenAs.testsRight (h : WrittenAs e g) :
    TestsRight meaning batch row e := by
  induction h with
  | compare _ _ _ => exact ⟨trivial, trivial⟩
  | exchanged _ _ _ => exact ⟨trivial, trivial⟩
  | isNull _ => exact ⟨trivial, fun _ => sqlValue_column_null⟩
  | isNotNull _ => exact ⟨trivial, fun _ => sqlValue_column_null⟩
  | not _ ih => exact ⟨ih, by rintro (h | h) <;> exact nomatch h⟩
  | andOne _ ih => exact ih
  | orOne _ ih => exact ih
  | and _ _ ihl ihr => exact ⟨ihl, ihr⟩
  | or _ _ ihl ihr => exact ⟨ihl, ihr⟩

theorem asEvaluated_of_ok {left right : Scalar} {result : Bool}
    (h : applyBinary operator left right = .ok (.bool result)) :
    asEvaluated operator left right = some result := by
  rw [asEvaluated, h]

variable {kernels : KernelLib}

theorem WrittenAs.comparesRight (h : WrittenAs e g) :
    ComparesRight kernels asEvaluated batch row e := by
  induction h with
  | compare _ _ _ =>
    refine ⟨trivial, trivial, fun _ lhs rhs _ _ => ⟨fun _ => asEvaluated_of_ok, ?_⟩⟩
    exact fun _ hcolumn => nomatch hcolumn
  | exchanged _ _ _ =>
    refine ⟨trivial, trivial, fun _ lhs rhs _ _ => ⟨fun _ => asEvaluated_of_ok, ?_⟩⟩
    exact fun hcolumn => nomatch hcolumn
  | isNull _ => trivial
  | isNotNull _ => trivial
  | not _ ih => exact ih
  | andOne _ ih => exact ih
  | orOne _ ih => exact ih
  | and _ _ ihl ihr => exact ⟨ihl, ihr, fun hop => nomatch hop⟩
  | or _ _ ihl ihr => exact ⟨ihl, ihr, fun hop => nomatch hop⟩

theorem hasColumns_of_evaluate {lib : ScalarLib} {scalar : Scalar}
    (h : evaluateExpression lib batch row e = .ok scalar) : HasColumns batch e := by
  induction e using Expression.onOperands generalizing scalar with
  | column name =>
    obtain ⟨column, hfield, -⟩ := evaluate_column h
    rw [HasColumns, hfield]
    rfl
  | unary operator operand ih =>
    obtain ⟨value, hvalue, -⟩ := evaluate_unary h
    exact ih hvalue
  | binary operator left right ihl ihr =>
    obtain ⟨lhs, rhs, hl, hr, -⟩ := evaluate_binary h
    exact ⟨ihl hl, ihr hr⟩
  | _ => trivial

theorem hasColumns_of_columnOf {column : Column ρ} (h : columnOf batch e = some column) :
    HasColumns batch e := by
  obtain ⟨name, rfl, hfield⟩ := columnOf_some h
  rw [HasColumns, hfield]
  rfl

theorem hasColumns_of_mask {mask : ρ → Option Bool} (h : vectorMask kernels batch e = some mask) :
    HasColumns batch e := by
  cases e with
  | unary operator operand =>
    obtain ⟨column, hcolumn, -⟩ := Option.bind_eq_some_iff.mp h
    have hoperand : HasColumns batch operand := hasColumns_of_columnOf hcolumn
    exact hoperand
  | binary operator left right =>
    obtain ⟨l, hl, hright⟩ := Option.bind_eq_some_iff.mp h
    obtain ⟨r, hr, -⟩ := Option.bind_eq_some_iff.mp hright
    exact ⟨hasColumns_of_columnOf hl, hasColumns_of_columnOf hr⟩
  | _ => exact nomatch h

theorem Evaluates.hasColumns {lib : ScalarLib} (h : Evaluates lib kernels batch e row) :
    HasColumns batch e := by
  cases hmask : vectorMask kernels batch e with
  | some mask => exact hasColumns_of_mask hmask
  | none =>
    obtain ⟨scalar, hscalar⟩ := h hmask
    exact hasColumns_of_evaluate hscalar

/-- **A condition keeps the rows of its group exactly when no row on which the group is TRUE has a
NULL operand.** -/
theorem applyConditions_group_iff {lib : ScalarLib} (hwritten : WrittenAs e g) {result : Batch ρ}
    (h : applyConditions lib kernels batch [e] = .ok result)
    (hclear : ∀ row ∈ batch.rows, LiteralsClear batch row e) :
    result.rows = batch.rows.filter
        (fun row => decide (groupTruth batch.cells row g = .trueValue)) ↔
      ∀ row ∈ batch.rows, groupTruth batch.cells row g = .trueValue →
        hasNull batch row e = false := by
  have hsame : ∀ row ∈ batch.rows, holds asEvaluated batch [e] row = true ↔
      groupTruth batch.cells row g = .trueValue := by
    intro row hrow
    have hreached := (applyConditions_ok lib kernels h).1 row hrow
    rw [holds_iff, forall_mem_singleton]
    exact sameTruth hwritten hreached.1.hasColumns (hclear row hrow) true
  have hfilter : batch.rows.filter (holds asEvaluated batch [e]) = batch.rows.filter
      (fun row => decide (groupTruth batch.cells row g = .trueValue)) := by
    refine filter_congr fun row hrow => ?_
    rw [Bool.eq_iff_iff, hsame row hrow, decide_eq_true_eq]
  rw [← hfilter, applyConditions_iff h (forall_mem_singleton.mpr hwritten.isCondition)
    (fun row _ => forall_mem_singleton.mpr hwritten.testsRight)
    fun row _ => forall_mem_singleton.mpr hwritten.comparesRight]
  refine forall₂_congr fun row hrow => ?_
  rw [hsame row hrow, forall_mem_singleton]

end Kept

/-- **When conditions keep the rows on which they are TRUE.**  In SQL, with comparisons of one kind
and null tests of values that are NULL with their operands: exactly when no row on which the
conditions are TRUE has a NULL operand.  Against a predicate group, with clear literals: exactly
when no row on which the group is TRUE has one.  A null test by itself is right exactly where its
operand is NULL with its operands, and times of two units exactly where their counts compare as they
do. -/
theorem conditions_keep_true_rows (lib : ScalarLib) (kernels : KernelLib) (batch : Batch ρ) :
    (∀ conditions result, applyConditions lib kernels batch conditions = .ok result →
      (∀ c ∈ conditions, IsCondition batch c) →
      (∀ row ∈ batch.rows, ∀ c ∈ conditions, TestsRight (sqlCompare kernels) batch row c ∧
        SameKinds (sqlCompare kernels) batch row c) →
      (result.rows = batch.rows.filter (holds (sqlCompare kernels) batch conditions) ↔
        ∀ row ∈ batch.rows, holds (sqlCompare kernels) batch conditions row = true →
          ∀ c ∈ conditions, hasNull batch row c = false)) ∧
    (∀ condition group result, WrittenAs condition group →
      applyConditions lib kernels batch [condition] = .ok result →
      (∀ row ∈ batch.rows, LiteralsClear batch row condition) →
      (result.rows = batch.rows.filter
          (fun row => decide (groupTruth batch.cells row group = .trueValue)) ↔
        ∀ row ∈ batch.rows, groupTruth batch.cells row group = .trueValue →
          hasNull batch row condition = false)) ∧
    (∀ operand result, IsCondition batch operand →
      applyConditions lib kernels batch [.unary .isNull operand] = .ok result →
      (result.rows = batch.rows.filter
          (holds (sqlCompare kernels) batch [.unary .isNull operand]) ↔
        ∀ row ∈ batch.rows, (hasNull batch row operand = true ↔
          sqlValue (sqlCompare kernels) batch row operand = none))) ∧
    (∀ (operator : BinaryOperator) (x y : String) (l r : Column ρ) (unit unit' : TimeUnit) result,
      operator.isComparison = true → batch.field x = some l → batch.field y = some r →
      l.type = .timestamp unit → r.type = .timestamp unit' → unit ≠ unit' →
      applyConditions lib kernels batch [.binary operator (.column x) (.column y)] = .ok result →
      (result.rows = batch.rows.filter
          (holds (sqlCompare kernels) batch [.binary operator (.column x) (.column y)]) ↔
        ∀ row ∈ batch.rows, ∀ lhs rhs, l.read row = .timestamp unit lhs →
          r.read row = .timestamp unit' rhs →
            (compareIntegers lhs rhs operator = some true ↔
              compareIntegers (lhs * unit.nanos) (rhs * unit'.nanos) operator = some true))) := by
  refine ⟨?_, ?_, ?_, ?_⟩
  · intro conditions result h hconditions hright
    exact applyConditions_iff h hconditions (fun row hrow c hc => (hright row hrow c hc).1)
      fun row hrow c hc => comparesRight_of_sameKinds (hright row hrow c hc).2
  · intro condition group result hwritten h hclear
    exact applyConditions_group_iff hwritten h hclear
  · intro operand result hoperand h
    exact applyConditions_isNull_iff hoperand h
  · intro operator x y l r unit unit' result hop hx hy hl hr hunits h
    exact applyConditions_times_iff hop hx hy hl hr hunits h

/-- Two rows: `a` is 1 and 3, `b` is NULL on both. -/
def twoRows : Batch Bool :=
  { columns :=
      [{ name := "a", type := .int64, read := fun row => .int64 (if row then 1 else 3)
         typed := fun _ => rfl },
        { name := "b", type := .int64, read := fun _ => .null .int64, typed := fun _ => rfl }]
    rows := [true, false] }

/-- `(a = 1 OR a = 2) AND b IS NULL` -/
def oneAndMissing : Expression :=
  .binary .and (.binary .or (.binary .eq (.column "a") (.literal (.int64 1)))
    (.binary .eq (.column "a") (.literal (.int64 2)))) (.unary .isNull (.column "b"))

def noKernels : KernelLib := ⟨fun _ => false, fun _ _ _ => false⟩

/-- The NULL stands in a null test only, and the row with `a = 1` is kept. -/
theorem conditions_keep_first :
    ∃ result, applyConditions plainLib noKernels twoRows [oneAndMissing] = .ok result ∧
      result.rows = [true] ∧
      result.rows = twoRows.rows.filter (holds (sqlCompare noKernels) twoRows [oneAndMissing]) := by
  have hcompare : ∀ row n, SameKinds (sqlCompare noKernels) twoRows row
      (.binary .eq (.column "a") (.literal (.int64 n))) := by
    refine fun row n => ⟨trivial, trivial, fun _ lhs rhs hl hr => .inr ?_⟩
    obtain rfl := Option.some.inj hl
    obtain rfl := Option.some.inj hr
    rfl
  refine ⟨_, rfl, rfl, ((conditions_keep_true_rows plainLib noKernels twoRows).1 [oneAndMissing] _ rfl
    (forall_mem_singleton.mpr ?_) fun row _ => forall_mem_singleton.mpr ⟨?_, ?_⟩).mpr
    (by decide)⟩
  · exact ⟨.inr (.inl rfl), ⟨.inr (.inr rfl), ⟨.inl rfl, trivial, trivial⟩, .inl rfl, trivial,
      trivial⟩, .inl rfl, trivial⟩
  · exact ⟨⟨⟨trivial, trivial⟩, trivial, trivial⟩, trivial, fun _ _ => rfl⟩
  · exact ⟨⟨hcompare row 1, hcompare row 2, fun h => absurd h (by decide)⟩, trivial,
      fun h => absurd h (by decide)⟩

/-! ### TRUE OR NULL -/

/-- One row: `a` is 1 and `b` is NULL. -/
def oneAndNull : Batch Unit :=
  { columns :=
      [{ name := "a", type := .int64, read := fun _ => .int64 1, typed := fun _ => rfl },
        { name := "b", type := .int64, read := fun _ => .null .int64, typed := fun _ => rfl }]
    rows := [()] }

/-- `a = 1 OR b = 2` -/
def oneOrTwo : Expression :=
  .binary .or (.binary .eq (.column "a") (.literal (.int64 1)))
    (.binary .eq (.column "b") (.literal (.int64 2)))

def oneOrTwoGroup : PredicateGroup :=
  .or [.leaf ⟨"a", .EQ, [.int64 1]⟩, .leaf ⟨"b", .EQ, [.int64 2]⟩]

/-- One row with two times: `s` is 10 seconds in a column of seconds, `ns` 5 seconds in one of
nanoseconds, as where two tables are joined. -/
def tenAndFive : Batch Unit :=
  { columns :=
      [{ name := "s", type := .timestamp .second, read := fun _ => .timestamp .second 10
         typed := fun _ => rfl },
        { name := "ns", type := .timestamp .nano, read := fun _ => .timestamp .nano 5000000000
          typed := fun _ => rfl }]
    rows := [()] }

/-- **`a = 1 OR b = 2` drops the row** on which `a = 1` is TRUE and `b` is NULL; and `s < ns` keeps
the row on which it is FALSE, because only the counts are compared. -/
theorem true_or_null_dropped : (IsCondition oneAndNull oneOrTwo ∧ WrittenAs oneOrTwo oneOrTwoGroup ∧
    ∀ (lib : ScalarLib) (kernels : KernelLib), ∃ result,
      applyConditions lib kernels oneAndNull [oneOrTwo] = .ok result ∧ result.rows = [] ∧
        holds (sqlCompare kernels) oneAndNull [oneOrTwo] () = true ∧
        groupTruth oneAndNull.cells () oneOrTwoGroup = .trueValue) ∧
    ∀ (lib : ScalarLib) (kernels : KernelLib), ∃ result,
      applyConditions lib kernels tenAndFive [.binary .lt (.column "s") (.column "ns")] = .ok result ∧
        result.rows = [()] ∧
        holds (sqlCompare kernels) tenAndFive [.binary .lt (.column "s") (.column "ns")] () = false := by
  refine ⟨?_, fun lib kernels => ⟨tenAndFive, rfl, rfl, rfl⟩⟩
  refine ⟨⟨.inr (.inr rfl), ⟨.inl rfl, trivial, trivial⟩, ⟨.inl rfl, trivial, trivial⟩⟩, ?_, ?_⟩
  · have hfirst : WrittenAs (.binary .eq (.column "a") (.literal (.int64 1)))
        (.leaf ⟨"a", .EQ, [.int64 1]⟩) := .compare rfl rfl (by decide)
    have hsecond : WrittenAs (.binary .eq (.column "b") (.literal (.int64 2)))
        (.leaf ⟨"b", .EQ, [.int64 2]⟩) := .compare rfl rfl (by decide)
    have hor := WrittenAs.or (.orOne hfirst) hsecond
    exact hor
  · intro lib kernels
    exact ⟨{ oneAndNull with rows := [] }, rfl, rfl, rfl, rfl⟩

end MldpDriver.Query.Evaluator
