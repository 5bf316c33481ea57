/-
# The expression evaluator

`evaluateExpression` computes the value of an expression on one row.  NULL is contagious: every
operator but IS [NOT] NULL gives NULL when an operand is NULL, AND and OR included.  Integers,
timestamps and durations are compared by their raw 64-bit values, whatever the unit.
-/
import MldpDriver.Query.Predicate

namespace MldpDriver.Query.Evaluator

open Lib (Binary64)

/-! ## 1. Expressions -/

inductive LiteralValue where
  | string (value : String)
  | int64 (value : Int)
  | double (value : Binary64)
  | bool (value : Bool)
  | timestampNs (value : Int)
  | durationNs (value : Int)
  | now (offsetSeconds : Int)

inductive UnaryOperator where
  | isNull | isNotNull | not | plus | minus

inductive BinaryOperator where
  | add | sub | mul | div | eq | ne | lt | le | gt | ge | and | or
  deriving DecidableEq

/-- `operator_name` -/
def UnaryOperator.text : UnaryOperator → String
  | isNull => "IS NULL"
  | isNotNull => "IS NOT NULL"
  | not => "NOT"
  | plus => "+"
  | minus => "-"

def BinaryOperator.text : BinaryOperator → String
  | add => "+"
  | sub => "-"
  | mul => "*"
  | div => "/"
  | eq => "="
  | ne => "!="
  | lt => "<"
  | le => "<="
  | gt => ">"
  | ge => ">="
  | and => "AND"
  | or => "OR"

/-- A bound scalar expression: column names are resolved, and no call has an OVER clause. -/
inductive Expression where
  | literal (value : LiteralValue)
  | column (name : String)
  | function (name : String) (arguments : List Expression) (star distinct : Bool)
  | unary (operator : UnaryOperator) (operand : Expression)
  | binary (operator : BinaryOperator) (left right : Expression)

/-! ## 2. Scalars -/

inductive TimeUnit where
  | second | milli | micro | nano
  deriving DecidableEq

/-- Arrow's types, as far as the evaluator tells them apart. -/
inductive ArrowType where
  | na | bool | string | largeString | int64
  | timestamp (unit : TimeUnit)
  | duration (unit : TimeUnit)
  | other (id : Nat)
  deriving DecidableEq

/-- `arrow::Scalar`; a value of another type is what the local filter reads of it. -/
inductive Scalar where
  | null (type : ArrowType)
  | bool (value : Bool)
  | string (value : String)
  | largeString (value : String)
  | int64 (value : Int)
  | timestamp (unit : TimeUnit) (value : Int)
  | duration (unit : TimeUnit) (value : Int)
  | other (id : Nat) (value : Cell)
  deriving DecidableEq

def Scalar.type : Scalar → ArrowType
  | null type => type
  | bool _ => .bool
  | string _ => .string
  | largeString _ => .largeString
  | int64 _ => .int64
  | timestamp unit _ => .timestamp unit
  | duration unit _ => .duration unit
  | other id _ => .other id

/-- `scalar->is_valid` -/
def Scalar.isValid : Scalar → Bool
  | null _ => false
  | _ => true

/-- The text of a STRING or LARGE_STRING. -/
def Scalar.text? : Scalar → Option String
  | string s => some s
  | largeString s => some s
  | _ => none

/-- An array of a batch: a slot for every row, all of the array's type. -/
structure Column (ρ : Type) where
  name : String
  type : ArrowType
  read : ρ → Scalar
  typed : ∀ row, (read row).type = type

structure Batch (ρ : Type) where
  columns : List (Column ρ)
  rows : List ρ

variable {ρ : Type}

/-- `schema()->GetFieldIndex(name)`, and the array at that index. -/
def Batch.field (batch : Batch ρ) (name : String) : Option (Column ρ) :=
  match batch.columns.filter fun c => c.name == name with
  | [c] => some c
  | _ => none

/-! ## 3. Operators

Reinterpreting a scalar of another type (`static_pointer_cast`), Arrow's casts and the time zone
texts are parameters (`ScalarLib`). -/

/-- What the evaluator takes from elsewhere. -/
structure ScalarLib where
  /-- `static_pointer_cast<BooleanScalar>` of a scalar of another type. -/
  boolOf : Scalar → Bool
  /-- `static_pointer_cast<Int64Scalar>` of a scalar of another type. -/
  int64Of : Scalar → Int
  castTo : ArrowType → Scalar → Except String Scalar
  fromUtcLocal : TimeUnit → Int → Except String String
  fromUtc : TimeUnit → Int → String → Except String String

variable (lib : ScalarLib)

def literalScalar : LiteralValue → Except String Scalar
  | .int64 value => .ok (.int64 value)
  | .bool value => .ok (.bool value)
  | .string value => .ok (.string value)
  | .timestampNs value => .ok (.timestamp .nano value)
  | .durationNs value => .ok (.duration .nano value)
  | _ => .error "Unsupported literal in expression evaluator"

/-- The bits of a sum, difference or product that overflows. -/
def wrap64 (n : Int) : Int := n.bmod (2 ^ 64)

def readBool : Scalar → Bool
  | .bool value => value
  | scalar => lib.boolOf scalar

def readInt64 : Scalar → Int
  | .int64 value => value
  | scalar => lib.int64Of scalar

def applyUnary (operator : UnaryOperator) (operand : Scalar) : Scalar :=
  match operator with
  | .isNull => .bool !operand.isValid
  | .isNotNull => .bool operand.isValid
  | operator =>
    if !operand.isValid then .null .na
    else
      match operator with
      | .not => .bool !(readBool lib operand)
      | .minus => .int64 (wrap64 (-(readInt64 lib operand)))
      | _ => .int64 (readInt64 lib operand)

/-- The comparisons of two texts. -/
def compareTexts (lhs rhs : String) : BinaryOperator → Option Bool
  | .eq => some (lhs == rhs)
  | .ne => some (lhs != rhs)
  | .lt => some (decide (bytes lhs < bytes rhs))
  | .le => some !(decide (bytes rhs < bytes lhs))
  | .gt => some (decide (bytes rhs < bytes lhs))
  | .ge => some !(decide (bytes lhs < bytes rhs))
  | _ => none

/-- The comparisons of two integers. -/
def compareIntegers (lhs rhs : Int) : BinaryOperator → Option Bool
  | .eq => some (decide (lhs = rhs))
  | .ne => some (decide (lhs ≠ rhs))
  | .lt => some (decide (lhs < rhs))
  | .le => some (decide (lhs ≤ rhs))
  | .gt => some (decide (rhs < lhs))
  | .ge => some (decide (rhs ≤ lhs))
  | _ => none

/-- `integerValue` -/
def integerValue (operator : BinaryOperator) : Scalar → Except String Int
  | .int64 value => .ok value
  | .timestamp _ value => .ok value
  | .duration _ value => .ok value
  | _ => .error
      ("Expression operator " ++ operator.text ++ " requires numeric or temporal operands")

/-- `temporalResult`, for a sum or a difference. -/
def temporalResult (operator : BinaryOperator) (left right : Scalar) (result : Int) : Scalar :=
  match left, right with
  | .timestamp unit _, .duration _ _ => .timestamp unit result
  | .timestamp _ _, .timestamp _ _ =>
    if operator = .sub then .duration .nano result else .int64 result
  | _, _ => .int64 result

def applyIntegers (operator : BinaryOperator) (left right : Scalar) (lhs rhs : Int) :
    Except String Scalar :=
  match operator with
  | .add => .ok (temporalResult .add left right (wrap64 (lhs + rhs)))
  | .sub => .ok (temporalResult .sub left right (wrap64 (lhs - rhs)))
  | .mul => .ok (.int64 (wrap64 (lhs * rhs)))
  | .div => if rhs = 0 then .error "/ divide by zero" else .ok (.int64 (wrap64 (lhs.tdiv rhs)))
  | operator =>
    match compareIntegers lhs rhs operator with
    | some result => .ok (.bool result)
    | none => .error ("Unsupported expression operator: " ++ operator.text)

/-- AND and OR of two booleans. -/
def applyBooleans : BinaryOperator → Scalar → Scalar → Option Bool
  | .and, .bool lhs, .bool rhs => some (lhs && rhs)
  | .or, .bool lhs, .bool rhs => some (lhs || rhs)
  | _, _, _ => none

/-- The comparison of two texts, when both operands are. -/
def applyTexts (operator : BinaryOperator) (left right : Scalar) : Option Bool :=
  left.text?.bind fun lhs => right.text?.bind fun rhs => compareTexts lhs rhs operator

def applyBinary (operator : BinaryOperator) (left right : Scalar) : Except String Scalar :=
  if !left.isValid || !right.isValid then .ok (.null .na)
  else
    match applyBooleans operator left right with
    | some result => .ok (.bool result)
    | none =>
      match applyTexts operator left right with
      | some result => .ok (.bool result)
      | none => do
        let lhs ← integerValue operator left
        let rhs ← integerValue operator right
        applyIntegers operator left right lhs rhs

/-! ## 4. Functions -/

/-- The loop of `coalesce` over its arguments; what an argument would give is only looked at when
its turn comes. -/
def coalesceLoop : Option Scalar → List (Except String Scalar) → Except String Scalar
  | first, [] => .ok (first.getD (.null .na))
  | first, argument :: rest =>
    match argument with
    | .error message => .error message
    | .ok scalar =>
      let first := first.getD scalar
      if !scalar.isValid then coalesceLoop (some first) rest
      else if first.type = .na ∨ scalar.type = first.type then .ok scalar
      else
        match lib.castTo first.type scalar with
        | .ok cast => .ok cast
        | .error message => .error ("coalesce: " ++ message)

def fromUtc : List (Except String Scalar) → Except String Scalar
  | [timestamp] => do
    let timestamp ← timestamp
    if !timestamp.isValid then .ok (.null .string)
    else
      match timestamp with
      | .timestamp unit value => (lib.fromUtcLocal unit value).map .string
      | _ => .error "from_utc has no matching overload"
  | [timestamp, zone] => do
    let timestamp ← timestamp
    let zone ← zone
    if !timestamp.isValid || !zone.isValid then .ok (.null .string)
    else
      match timestamp, zone with
      | .timestamp unit value, .string zone => (lib.fromUtc unit value zone).map .string
      | _, _ => .error "from_utc has no matching overload"
  | _ => .error "from_utc has no matching overload"

/-- `std::transform` with `std::tolower`. -/
def lower (name : String) : List Char := name.toList.map Char.toLower

def callFunction (name : String) (arguments : List (Except String Scalar)) :
    Except String Scalar :=
  if lower name = "coalesce".toList then coalesceLoop lib none arguments
  else if lower name = "from_utc".toList then fromUtc lib arguments
  else .error ("Function evaluation is not implemented: " ++ name)

/-! ## 5. Evaluation -/

variable (batch : Batch ρ) (row : ρ)

def readColumn (name : String) : Except String Scalar :=
  match batch.field name with
  | none => .error ("Expression references unknown column: " ++ name)
  | some column => .ok (column.read row)

mutual
def evaluateExpression : Expression → Except String Scalar
  | .column name => readColumn batch row name
  | .literal value => literalScalar value
  | .unary operator operand => do
    let operand ← evaluateExpression operand
    .ok (applyUnary lib operator operand)
  | .binary operator left right => do
    let left ← evaluateExpression left
    let right ← evaluateExpression right
    applyBinary operator left right
  | .function name arguments _ _ => callFunction lib name (evaluateArguments arguments)

/-- What each argument gives when it is evaluated. -/
def evaluateArguments : List Expression → List (Except String Scalar)
  | [] => []
  | argument :: rest => evaluateExpression argument :: evaluateArguments rest
end

/-- A library for expressions that call no function and cast nothing. -/
def plainLib : ScalarLib where
  boolOf _ := false
  int64Of _ := 0
  castTo _ _ := .error "no cast"
  fromUtcLocal _ _ := .error "no time zone"
  fromUtc _ _ _ := .error "no time zone"

end MldpDriver.Query.Evaluator
