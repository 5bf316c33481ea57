/-
# Local filtering of a record batch

`applyFilter` keeps a row of a batch when every predicate is TRUE on it, in SQL's three-valued
logic: a missing column or a null operand makes a comparison UNKNOWN, and an UNKNOWN predicate
drops the row like a FALSE one.

A batch is its rows together with its fields, a field being a name and the way it reads a row
(`column(i)->GetScalar(row)`).  Filtering looks at the rows only through the fields, so the
row type stays a parameter.
-/
import MldpDriver.Query.Predicate

namespace MldpDriver.Query

/-! ## 1. Batches -/

/-- An Arrow record batch: named readings of a row, and the rows. -/
structure RecordBatch (ρ : Type) where
  fields : List (String × (ρ → Cell))
  rows : List ρ

variable {ρ : Type}

/-- `qualifyBatchColumns`: every field name gets the table alias as a prefix. -/
def qualifyBatchColumns (batch : RecordBatch ρ) (tableAlias : String) : RecordBatch ρ :=
  { batch with fields := batch.fields.map fun f => (tableAlias ++ "." ++ f.1, f.2) }

@[simp] theorem qualifyBatchColumns_rows (batch : RecordBatch ρ) (tableAlias : String) :
    (qualifyBatchColumns batch tableAlias).rows = batch.rows := rfl

/-- `predicateFieldIndex`: the one field of that name, else the first field qualified with it. -/
def predicateField (batch : RecordBatch ρ) (column : String) : Option (ρ → Cell) :=
  match batch.fields.filter (fun f => f.1 == column) with
  | [f] => some f.2
  | _ =>
    (batch.fields.find? fun f => (column.length + 1 < f.1.length) && f.1.endsWith ("." ++ column)).map
      Prod.snd

/-! ## 2. Three-valued truth -/

inductive Truth where
  | falseValue | trueValue | unknown
  deriving DecidableEq

def Truth.ofBool (b : Bool) : Truth := if b then trueValue else falseValue

/-- `listContainsPredicateValue`: some element of a list cell matches. -/
def listContainsPredicateValue (cell : Cell) (predicate : Predicate) : Bool :=
  match cell with
  | .list values =>
    values.any fun v => scalarMatchesPredicate (.scalar v) { predicate with column := "tag" }
  | .scalar _ => false

def isNullTest (op : PredicateOp) : Bool := op == .IS_NULL || op == .IS_NOT_NULL

def predicateTruth (batch : RecordBatch ρ) (row : ρ) (predicate : Predicate) : Truth :=
  if predicate.column = "tag" then
    match predicateField batch "tags" with
    | none => .unknown
    | some read => .ofBool (listContainsPredicateValue (read row) predicate)
  else
    match predicateField batch predicate.column with
    | none => .unknown
    | some read =>
      if !isNullTest predicate.op && !(read row).isValid then .unknown
      else .ofBool (scalarMatchesPredicate (read row) predicate)

/-! ## 3. The filter -/

/-- A row passes only when every conjunct is TRUE. -/
def rowPasses (batch : RecordBatch ρ) (predicates : List Predicate) (row : ρ) : Bool :=
  predicates.all fun p => predicateTruth batch row p == .trueValue

def applyFilter (batch : RecordBatch ρ) (predicates : List Predicate) : RecordBatch ρ :=
  if predicates.isEmpty then batch
  else { batch with rows := batch.rows.filter (rowPasses batch predicates) }

theorem applyFilter_rows (batch : RecordBatch ρ) (predicates : List Predicate) :
    (applyFilter batch predicates).rows = batch.rows.filter (rowPasses batch predicates) := by
  unfold applyFilter
  split
  · rename_i h
    rw [List.isEmpty_iff.mp h]
    exact (List.filter_eq_self.mpr fun _ _ => rfl).symm
  · rfl

theorem predicateTruth_field {batch : RecordBatch ρ} {predicate : Predicate} {read : ρ → Cell}
    (hc : predicate.column ≠ "tag") (hf : predicateField batch predicate.column = some read)
    {row : ρ} (hv : (read row).isValid) :
    predicateTruth batch row predicate = .ofBool (scalarMatchesPredicate (read row) predicate) := by
  simp [predicateTruth, hc, hf, hv]

/-! ## 4. Timestamp bounds -/

theorem truth_ofBool_eq_true (b : Bool) : (Truth.ofBool b == .trueValue) = b := by
  cases b <;> rfl

/-- **A timestamp bound compares rounded nanoseconds** (`time >= n`, `time <= n`, `time < n` with a
nanosecond literal, on a batch whose time column is a timestamp). -/
theorem predicateTruth_time {batch : RecordBatch ρ} {time : ρ → Int}
    (hf : predicateField batch "time" = some fun r => .scalar (.timestamp (time r)))
    (row : ρ) (n : Int) (op : PredicateOp) (hop : op ∈ [PredicateOp.GTE, .LTE, .LT]) :
    (predicateTruth batch row ⟨"time", op, [.timestampNs n]⟩ == .trueValue) =
      compareNumeric (.ofInt (time row)) (.ofInt n) op := by
  rw [predicateTruth_field (by simp) hf rfl, truth_ofBool_eq_true]
  simp only [List.mem_cons, List.not_mem_nil, or_false] at hop
  rcases hop with rfl | rfl | rfl <;> rfl

end MldpDriver.Query
