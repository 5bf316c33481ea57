/-
# Conditions on rows

`applyConditions` keeps the rows on which every condition is TRUE, by a mask of one of Arrow's
kernels where there is one (`vectorMask`) and by the evaluator otherwise.  The conditions run one
after another, each on the rows that passed the previous ones, and the loop breaks when none is
left; what it keeps is a filter of the rows (`applyConditions_ok`).
-/
import MldpDriver.Query.ExpressionEvaluator
import MldpDriver.Query.SelectRows

namespace MldpDriver.Query.Evaluator

open List

variable {ρ : Type}

/-! ## 1. Masks -/

def BinaryOperator.isComparison : BinaryOperator → Bool
  | .eq | .ne | .lt | .le | .gt | .ge => true
  | _ => false

/-- The raw 64 bits of an integer, a time or a duration. -/
def Scalar.integer? : Scalar → Option Int
  | .int64 value => some value
  | .timestamp _ value => some value
  | .duration _ value => some value
  | _ => none

/-- What Arrow's comparison kernels do with other types than texts and integers. -/
structure KernelLib where
  /-- There are kernels for columns of the type. -/
  supports : ArrowType → Bool
  compare : BinaryOperator → Scalar → Scalar → Bool

variable (lib : ScalarLib) (kernels : KernelLib)

/-- `equal`, `less` and the others, on two values of one type. -/
def kernelCompare (operator : BinaryOperator) (left right : Scalar) : Bool :=
  match applyTexts operator left right with
  | some result => result
  | none =>
    match left.integer?, right.integer? with
    | some lhs, some rhs => (compareIntegers lhs rhs operator).getD false
    | _, _ => kernels.compare operator left right

/-- The column that an operand names. -/
def columnOf (batch : Batch ρ) : Expression → Option (Column ρ)
  | .column name => batch.field name
  | _ => none

/-- `is_null` and `is_valid`. -/
def nullMask (column : Column ρ) : UnaryOperator → Option (ρ → Option Bool)
  | .isNull => some fun row => some !(column.read row).isValid
  | .isNotNull => some fun row => some (column.read row).isValid
  | _ => none

/-- A comparison kernel; its entry is null where an operand is. -/
def compareMask (operator : BinaryOperator) (left right : Column ρ) :
    Option (ρ → Option Bool) :=
  if operator.isComparison && decide (left.type = right.type) && kernels.supports left.type then
    some fun row =>
      if (left.read row).isValid && (right.read row).isValid then
        some (kernelCompare kernels operator (left.read row) (right.read row))
      else none
  else none

/-- The mask of `col <op> col` and `col IS [NOT] NULL`. -/
def vectorMask (batch : Batch ρ) : Expression → Option (ρ → Option Bool)
  | .unary operator operand =>
    (columnOf batch operand).bind fun column => nullMask column operator
  | .binary operator left right =>
    (columnOf batch left).bind fun l =>
      (columnOf batch right).bind fun r => compareMask kernels operator l r
  | _ => none

/-! ## 2. The conditions one after another -/

/-- The loop over the rows, with the number of the first. -/
def keptNumbers (passes : ρ → Except String Bool) : Nat → List ρ → Except String (List Nat)
  | _, [] => .ok []
  | number, row :: rows => do
    let keep ← passes row
    let rest ← keptNumbers passes (number + 1) rows
    .ok (if keep then number :: rest else rest)

/-- The evaluator's answer on one row: a valid boolean that is true. -/
def passes (batch : Batch ρ) (condition : Expression) (row : ρ) : Except String Bool :=
  (evaluateExpression lib batch row condition).map fun scalar => decide (scalar = .bool true)

/-- One turn of the loop: Arrow filters by the mask, a null entry of which drops the row, or the
rows of the numbers are selected. -/
def applyCondition (batch : Batch ρ) (condition : Expression) : Except String (Batch ρ) :=
  match vectorMask kernels batch condition with
  | some mask =>
    let keep := batch.rows.map fun row => mask row == some true
    .ok { batch with rows := filterByMask batch.rows keep }
  | none => do
    let numbers ← keptNumbers (passes lib batch condition) 0 batch.rows
    .ok { batch with rows := pick batch.rows numbers }

/-- Each condition runs only on the rows that passed the previous ones. -/
def applyConditions : Batch ρ → List Expression → Except String (Batch ρ)
  | batch, [] => .ok batch
  | batch, condition :: rest =>
    if batch.rows.isEmpty then .ok batch
    else do
      let next ← applyCondition lib kernels batch condition
      applyConditions next rest

/-- The condition keeps the row. -/
def keepsRow (batch : Batch ρ) (condition : Expression) (row : ρ) : Bool :=
  match vectorMask kernels batch condition with
  | some mask => mask row == some true
  | none => decide ((passes lib batch condition row).toOption = some true)

/-- The evaluator raises no error on the row, where it is asked. -/
def Evaluates (batch : Batch ρ) (condition : Expression) (row : ρ) : Prop :=
  vectorMask kernels batch condition = none →
    ∃ scalar, evaluateExpression lib batch row condition = .ok scalar

theorem keptNumbers_ok {passes : ρ → Except String Bool} {number : Nat} {rows : List ρ}
    {kept : List Nat} (h : keptNumbers passes number rows = .ok kept) :
    (∀ row ∈ rows, ∃ keep, passes row = .ok keep) ∧
      kept = numbersFrom (fun row => decide ((passes row).toOption = some true)) number rows := by
  induction rows generalizing number kept with
  | nil => exact ⟨fun _ h => absurd h not_mem_nil, (Except.ok.inj h).symm⟩
  | cons row rows ih =>
    rw [keptNumbers] at h
    cases hpass : passes row with
    | error message =>
      rw [hpass] at h
      exact nomatch h
    | ok keep =>
      cases hrest : keptNumbers passes (number + 1) rows with
      | error message =>
        rw [hpass, hrest] at h
        exact nomatch h
      | ok rest =>
        rw [hpass, hrest] at h
        obtain ⟨hok, rfl⟩ := ih hrest
        refine ⟨forall_mem_cons.mpr ⟨⟨keep, hpass⟩, hok⟩, ?_⟩
        rw [← Except.ok.inj h, numbersFrom, hpass]
        cases keep <;> rfl

/-- **What one condition keeps.** -/
theorem applyCondition_ok {batch next : Batch ρ} {condition : Expression}
    (h : applyCondition lib kernels batch condition = .ok next) :
    (∀ row ∈ batch.rows, Evaluates lib kernels batch condition row) ∧
      next = { batch with rows := batch.rows.filter (keepsRow lib kernels batch condition) } := by
  rw [applyCondition] at h
  cases hmask : vectorMask kernels batch condition with
  | some mask =>
    rw [hmask] at h
    refine ⟨fun row _ hnone => ?_, ?_⟩
    · rw [hmask] at hnone
      exact nomatch hnone
    · have hkeeps : keepsRow lib kernels batch condition = fun row => mask row == some true := by
        funext row
        rw [keepsRow, hmask]
      rw [← Except.ok.inj h, hkeeps, filterByMask_map]
  | none =>
    have hkeeps : keepsRow lib kernels batch condition =
        fun row => decide ((passes lib batch condition row).toOption = some true) := by
      funext row
      rw [keepsRow, hmask]
    rw [hmask] at h
    cases hnumbers : keptNumbers (passes lib batch condition) 0 batch.rows with
    | error message =>
      rw [hnumbers] at h
      exact nomatch h
    | ok numbers =>
      rw [hnumbers] at h
      obtain ⟨hok, rfl⟩ := keptNumbers_ok hnumbers
      constructor
      · intro row hrow _
        obtain ⟨keep, hkeep⟩ := hok row hrow
        cases hvalue : evaluateExpression lib batch row condition with
        | ok scalar => exact ⟨scalar, rfl⟩
        | error message =>
          rw [passes, hvalue] at hkeep
          exact nomatch hkeep
      · have hpick := pick_numbersFrom
          (fun row => decide ((passes lib batch condition row).toOption = some true)) [] batch.rows
        rw [nil_append, length_nil] at hpick
        rw [← Except.ok.inj h, hkeeps, hpick]

/-! ### Rows do not matter to a reading -/

section Columns

variable {batch batch' : Batch ρ}

theorem field_columns (h : batch.columns = batch'.columns) (name : String) :
    batch.field name = batch'.field name := by
  rw [Batch.field, Batch.field, h]

mutual
theorem evaluateExpression_columns (h : batch.columns = batch'.columns) (row : ρ) :
    ∀ e : Expression,
    evaluateExpression lib batch row e = evaluateExpression lib batch' row e
  | .column name => by
    rw [evaluateExpression, evaluateExpression, readColumn, readColumn, field_columns h]
  | .literal value => by rw [evaluateExpression, evaluateExpression]
  | .unary operator operand => by
    rw [evaluateExpression, evaluateExpression, evaluateExpression_columns h row operand]
  | .binary operator left right => by
    rw [evaluateExpression, evaluateExpression, evaluateExpression_columns h row left,
      evaluateExpression_columns h row right]
  | .function name arguments star distinct => by
    rw [evaluateExpression, evaluateExpression, evaluateArguments_columns h row arguments]

theorem evaluateArguments_columns (h : batch.columns = batch'.columns) (row : ρ) :
    ∀ arguments : List Expression,
    evaluateArguments lib batch row arguments = evaluateArguments lib batch' row arguments
  | [] => by rw [evaluateArguments, evaluateArguments]
  | argument :: rest => by
    rw [evaluateArguments, evaluateArguments, evaluateExpression_columns h row argument,
      evaluateArguments_columns h row rest]
end

theorem columnOf_columns (h : batch.columns = batch'.columns) (e : Expression) :
    columnOf batch e = columnOf batch' e := by
  cases e <;> first | exact field_columns h _ | rfl

theorem vectorMask_columns (h : batch.columns = batch'.columns) (condition : Expression) :
    vectorMask kernels batch condition = vectorMask kernels batch' condition := by
  cases condition <;> simp only [vectorMask, columnOf_columns h]

theorem keepsRow_columns (h : batch.columns = batch'.columns) (condition : Expression) (row : ρ) :
    keepsRow lib kernels batch condition row = keepsRow lib kernels batch' condition row := by
  rw [keepsRow, keepsRow, vectorMask_columns kernels h, passes, passes,
    evaluateExpression_columns lib h]

theorem evaluates_columns (h : batch.columns = batch'.columns) {condition : Expression} {row : ρ} :
    Evaluates lib kernels batch condition row ↔ Evaluates lib kernels batch' condition row := by
  rw [Evaluates, Evaluates, vectorMask_columns kernels h, evaluateExpression_columns lib h]

end Columns

/-- The evaluator raises no error on the row, condition by condition, up to the first that drops
it. -/
def Reached (batch : Batch ρ) (row : ρ) : List Expression → Prop
  | [] => True
  | condition :: rest =>
    Evaluates lib kernels batch condition row ∧
      (keepsRow lib kernels batch condition row = true → Reached batch row rest)

theorem Reached.columns {batch batch' : Batch ρ} (hcolumns : batch.columns = batch'.columns)
    {row : ρ} {conditions : List Expression} (h : Reached lib kernels batch row conditions) :
    Reached lib kernels batch' row conditions := by
  induction conditions with
  | nil => trivial
  | cons condition rest ih =>
    refine ⟨(evaluates_columns lib kernels hcolumns).mp h.1, fun hkeeps => ih (h.2 ?_)⟩
    rwa [keepsRow_columns lib kernels hcolumns]

/-- **What the conditions keep**: the rows that each of them keeps. -/
theorem applyConditions_ok {conditions : List Expression} {batch result : Batch ρ}
    (h : applyConditions lib kernels batch conditions = .ok result) :
    (∀ row ∈ batch.rows, Reached lib kernels batch row conditions) ∧
      result.rows =
        batch.rows.filter fun row => conditions.all (keepsRow lib kernels batch · row) := by
  induction conditions generalizing batch with
  | nil =>
    obtain rfl := Except.ok.inj h
    exact ⟨fun _ _ => trivial, (filter_eq_self.mpr fun _ _ => rfl).symm⟩
  | cons condition rest ih =>
    rw [applyConditions] at h
    split at h
    · next hempty =>
      obtain rfl := Except.ok.inj h
      rw [List.isEmpty_iff.mp hempty]
      exact ⟨fun _ h => absurd h not_mem_nil, rfl⟩
    · cases hnext : applyCondition lib kernels batch condition with
      | error message =>
        rw [hnext] at h
        exact nomatch h
      | ok next =>
        rw [hnext] at h
        obtain ⟨hevaluates, rfl⟩ := applyCondition_ok lib kernels hnext
        obtain ⟨hreached, hrows⟩ := ih h
        have hcolumns : Batch.columns
            { batch with rows := batch.rows.filter (keepsRow lib kernels batch condition) } =
              batch.columns := rfl
        constructor
        · intro row hrow
          refine ⟨hevaluates row hrow, fun hkeeps => ?_⟩
          have hrest := hreached row (mem_filter.mpr ⟨hrow, hkeeps⟩)
          exact hrest.columns lib kernels hcolumns
        · rw [hrows, filter_filter]
          refine filter_congr fun row _ => ?_
          rw [all_cons, Bool.and_comm]
          exact congrArg (keepsRow lib kernels batch condition row && rest.all ·)
            (funext fun c => keepsRow_columns lib kernels hcolumns c row)

end MldpDriver.Query.Evaluator
