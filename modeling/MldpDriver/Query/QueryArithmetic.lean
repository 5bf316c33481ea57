/-
# The 64-bit arithmetic of a query

A query computes with `int64_t` in four places: the grammar turns durations into seconds and
nanoseconds, the type checker adds the offset of NOW to the clock, the scan turns a literal window
into nanoseconds, and the evaluator applies `+`, `-`, `*`, `/` and the unary minus.  Only a
division by zero is reported.  Here each of them is a computation by steps, and a query is their
sequence.  The windows of a subquery are not among them: their bounds come from rows, and what the
scan computes of them (a length for the automatic slice, the end plus one) is the subject of
`WindowScan`.

`noOverflow_iff`: no step of an accepted query overflows exactly when its durations, the times it
computes from NOW, its window and the exact values of its expressions are small enough.
-/
import MldpDriver.Lib.WordArithmetic
import MldpDriver.Query.ExpressionEvaluator
import MldpDriver.Query.InSubquery
import MldpDriver.Query.ToUtc
import MldpDriver.Query.WindowScan

namespace MldpDriver.Query.Evaluator

open List
open Lib.WordArithmetic (Calc)
open Lib.WordArithmetic.Calc
open Query.Membership (ColumnType)
open Utc (Text)

/-- `int64_t` -/
abbrev Fits (n : Int) : Prop := int64Min ≤ n ∧ n ≤ int64Max

theorem wrap64_of_fits (n : Int) (h : Fits n) : wrap64 n = n := by
  obtain ⟨hlo, hhi⟩ := h
  unfold int64Min at hlo
  unfold int64Max at hhi
  rw [wrap64, Int.bmod_eq_of_le (by omega) (by omega)]

/-! ## 1. Literals -/

/-- A NUMBER_LITERAL token. -/
structure NumberToken where
  digits : Text
  digits_ne : digits ≠ []
  isDigit : ∀ c ∈ digits, c.isDigit = true

/-- A DURATION_LITERAL token. -/
structure DurationToken extends NumberToken where
  unit : Char
  unit_mem : unit ∈ ['s', 'S', 'm', 'M', 'h', 'H', 'd', 'D']

def DurationToken.lexeme (t : DurationToken) : Text := t.digits ++ [t.unit]

/-- `std::from_chars` into an `int64_t`, which must take the whole text. -/
def int64FromChars (text : Text) : Option Int := (Utc.fromChars text).bind checked

def numberLiteral (lexeme : Text) : Calc String Int :=
  match int64FromChars lexeme with
  | some value => pure value
  | none => .fail ("Invalid integer literal: " ++ String.ofList lexeme)

def durationToSeconds (duration : Text) : Calc String Int :=
  if duration.length < 2 then .fail ("Invalid duration literal: " ++ String.ofList duration)
  else
    match int64FromChars duration.dropLast with
    | none => .fail ("Invalid duration literal: " ++ String.ofList duration)
    | some value =>
      let unit := duration.getLast?
      if unit = some 's' ∨ unit = some 'S' then pure value
      else if unit = some 'm' ∨ unit = some 'M' then op (value * 60)
      else if unit = some 'h' ∨ unit = some 'H' then do
        let n ← op (value * 60)
        op (n * 60)
      else if unit = some 'd' ∨ unit = some 'D' then do
        let n ← op (value * 24)
        let n ← op (n * 60)
        op (n * 60)
      else .fail ("Unsupported duration unit in: " ++ String.ofList duration)

/-- A DURATION_LITERAL as a literal, and as a window option of an IN list. -/
def durationNs (duration : Text) : Calc String Int := do
  let seconds ← durationToSeconds duration
  op (seconds * 1000000000)

/-- The `slice` option of a window subquery; `std::stoll` throws where `from_chars` fails. -/
def sliceNs (duration : Text) : Calc String Int := do
  let unit := duration.getLast?
  let multiplier ←
    if unit = some 's' ∨ unit = some 'S' then pure 1
    else if unit = some 'm' ∨ unit = some 'M' then pure 60
    else if unit = some 'h' ∨ unit = some 'H' then pure (60 * 60)
    else if unit = some 'd' ∨ unit = some 'D' then pure (24 * 60 * 60)
    else .fail "Unsupported window slice duration"
  let value ← ofExcept ((int64FromChars duration.dropLast).elim (.error "stoll") .ok)
  let seconds ← op (value * multiplier)
  op (seconds * 1000000000)

/-- The texts of the grammar's `literal`. -/
inductive LiteralText where
  | string (value : String)
  | number (token : NumberToken)
  | bool (value : Bool)
  | timestampNs (negative : Bool) (token : NumberToken)
  | durationNs (negative : Bool) (token : NumberToken)
  | duration (token : DurationToken)
  | now
  | nowOffset (negative : Bool) (token : DurationToken)

/-- `signed_integer` and `signed_duration` -/
def signed (negative : Bool) (value : Calc String Int) : Calc String Int := do
  let value ← value
  if negative then op (-value) else pure value

/-- The actions of `literal`. -/
def parseLiteral : LiteralText → Calc String LiteralValue
  | .string value => pure (.string value)
  | .number token => LiteralValue.int64 <$> numberLiteral token.digits
  | .bool value => pure (.bool value)
  | .timestampNs negative token =>
    LiteralValue.timestampNs <$> signed negative (numberLiteral token.digits)
  | .durationNs negative token =>
    LiteralValue.durationNs <$> signed negative (numberLiteral token.digits)
  | .duration token => LiteralValue.durationNs <$> Evaluator.durationNs token.lexeme
  | .now => pure (.now 0)
  | .nowOffset negative token =>
    LiteralValue.now <$> signed negative (durationToSeconds token.lexeme)

/-- An expression as it is written. -/
inductive ExpressionText where
  | literal (text : LiteralText)
  | column (name : String)
  | function (name : String) (arguments : List ExpressionText) (star distinct : Bool)
  | unary (operator : UnaryOperator) (operand : ExpressionText)
  | binary (operator : BinaryOperator) (left right : ExpressionText)

mutual
def parseExpression : ExpressionText → Calc String Expression
  | .literal text => Expression.literal <$> parseLiteral text
  | .column name => pure (.column name)
  | .function name arguments star distinct => do
    let arguments ← parseArguments arguments
    pure (.function name arguments star distinct)
  | .unary operator operand => Expression.unary operator <$> parseExpression operand
  | .binary operator left right => do
    let left ← parseExpression left
    let right ← parseExpression right
    pure (.binary operator left right)

def parseArguments : List ExpressionText → Calc String (List Expression)
  | [] => pure []
  | argument :: rest => do
    let argument ← parseExpression argument
    let rest ← parseArguments rest
    pure (argument :: rest)
end

/-! ## 2. Evaluation

`evaluationSteps_run`: on words, the steps of the evaluator give what `evaluateExpression` gives. -/

section Evaluation

variable (lib : ScalarLib) {ρ : Type}

def unarySteps (operator : UnaryOperator) (operand : Scalar) : Calc String Scalar :=
  match operator with
  | .minus =>
    if !operand.isValid then pure (.null .na)
    else Scalar.int64 <$> op (-(readInt64 lib operand))
  | operator => pure (applyUnary lib operator operand)

def integerSteps (operator : BinaryOperator) (left right : Scalar) (lhs rhs : Int) :
    Calc String Scalar :=
  match operator with
  | .add => temporalResult .add left right <$> op (lhs + rhs)
  | .sub => temporalResult .sub left right <$> op (lhs - rhs)
  | .mul => Scalar.int64 <$> op (lhs * rhs)
  | .div => if rhs = 0 then .fail "/ divide by zero" else Scalar.int64 <$> op (lhs.tdiv rhs)
  | operator => ofExcept (applyIntegers operator left right lhs rhs)

def binarySteps (operator : BinaryOperator) (left right : Scalar) : Calc String Scalar :=
  if !left.isValid || !right.isValid then pure (.null .na)
  else
    match applyBooleans operator left right with
    | some result => pure (.bool result)
    | none =>
      match applyTexts operator left right with
      | some result => pure (.bool result)
      | none => do
        let lhs ← ofExcept (integerValue operator left)
        let rhs ← ofExcept (integerValue operator right)
        integerSteps operator left right lhs rhs

/-- `coalesce` evaluates an argument when its turn comes. -/
def coalesceSteps : Option Scalar → List (Calc String Scalar) → Calc String Scalar
  | first, [] => pure (first.getD (.null .na))
  | first, argument :: rest => do
    let scalar ← argument
    if !scalar.isValid then coalesceSteps (some (first.getD scalar)) rest
    else ofExcept (coalesceLoop lib first [.ok scalar])

def fromUtcSteps : List (Calc String Scalar) → Calc String Scalar
  | [timestamp] => do
    let timestamp ← timestamp
    ofExcept (fromUtc lib [.ok timestamp])
  | [timestamp, zone] => do
    let timestamp ← timestamp
    let zone ← zone
    ofExcept (fromUtc lib [.ok timestamp, .ok zone])
  | _ => .fail "from_utc has no matching overload"

def functionSteps (name : String) (arguments : List (Calc String Scalar)) : Calc String Scalar :=
  if lower name = "coalesce".toList then coalesceSteps lib none arguments
  else if lower name = "from_utc".toList then fromUtcSteps lib arguments
  else .fail ("Function evaluation is not implemented: " ++ name)

variable (batch : Batch ρ) (row : ρ)

mutual
/-- `evaluateExpression`, its arithmetic step by step. -/
def evaluationSteps : Expression → Calc String Scalar
  | .column name => ofExcept (readColumn batch row name)
  | .literal value => ofExcept (literalScalar value)
  | .unary operator operand => do
    let operand ← evaluationSteps operand
    unarySteps lib operator operand
  | .binary operator left right => do
    let left ← evaluationSteps left
    let right ← evaluationSteps right
    binarySteps operator left right
  | .function name arguments _ _ => functionSteps lib name (argumentSteps arguments)

def argumentSteps : List Expression → List (Calc String Scalar)
  | [] => []
  | argument :: rest => evaluationSteps argument :: argumentSteps rest
end

theorem unarySteps_run (operator : UnaryOperator) (operand : Scalar) :
    (unarySteps lib operator operand).run wrap64 = .ok (applyUnary lib operator operand) := by
  cases operator with
  | minus =>
    rw [unarySteps, applyUnary]
    split <;> rfl
  | isNull => rfl
  | isNotNull => rfl
  | not => rfl
  | plus => rfl

theorem integerSteps_run (operator : BinaryOperator) (left right : Scalar) (lhs rhs : Int) :
    (integerSteps operator left right lhs rhs).run wrap64 =
      applyIntegers operator left right lhs rhs := by
  cases operator with
  | div =>
    rw [integerSteps, applyIntegers]
    split <;> rfl
  | add => rfl
  | sub => rfl
  | mul => rfl
  | _ => rw [integerSteps, run_ofExcept] <;> exact fun h => by cases h

theorem binarySteps_run (operator : BinaryOperator) (left right : Scalar) :
    (binarySteps operator left right).run wrap64 = applyBinary operator left right := by
  rw [binarySteps, applyBinary]
  split
  · rfl
  cases applyBooleans operator left right with
  | some result => rfl
  | none =>
    cases applyTexts operator left right with
    | some result => rfl
    | none => simp only [run_bind, run_ofExcept, integerSteps_run]

theorem coalesceSteps_run (arguments : List (Calc String Scalar)) (first : Option Scalar) :
    (coalesceSteps lib first arguments).run wrap64 =
      coalesceLoop lib first (arguments.map fun c => c.run wrap64) := by
  induction arguments generalizing first with
  | nil => rfl
  | cons argument rest ih =>
    rw [coalesceSteps, map_cons, run_bind]
    cases argument.run wrap64 with
    | error e => rfl
    | ok scalar =>
      change Calc.run wrap64 (if _ then _ else _) = _
      cases hvalid : scalar.isValid with
      | false =>
        rw [if_pos (by simp), ih]
        simp [coalesceLoop, hvalid]
      | true =>
        rw [if_neg (by simp), run_ofExcept]
        simp [coalesceLoop, hvalid]

theorem fromUtcSteps_run (arguments : List (Calc String Scalar)) :
    (fromUtcSteps lib arguments).run wrap64 =
      fromUtc lib (arguments.map fun c => c.run wrap64) := by
  match arguments with
  | [] => rfl
  | [timestamp] =>
    simp only [fromUtcSteps, run_bind, run_ofExcept, map_cons, map_nil]
    cases timestamp.run wrap64 <;> rfl
  | [timestamp, zone] =>
    simp only [fromUtcSteps, run_bind, run_ofExcept, map_cons, map_nil]
    cases timestamp.run wrap64 with
    | error e => rfl
    | ok t => cases zone.run wrap64 <;> rfl
  | _ :: _ :: _ :: _ => rfl

mutual
/-- **On words, the steps give the value of the evaluator.** -/
theorem evaluationSteps_run (e : Expression) :
    (evaluationSteps lib batch row e).run wrap64 = evaluateExpression lib batch row e := by
  cases e with
  | column name => rw [evaluationSteps, evaluateExpression, run_ofExcept]
  | literal value => rw [evaluationSteps, evaluateExpression, run_ofExcept]
  | unary operator operand =>
    rw [evaluationSteps, evaluateExpression, run_bind, evaluationSteps_run operand]
    simp only [unarySteps_run]
  | binary operator left right =>
    rw [evaluationSteps, evaluateExpression, run_bind, evaluationSteps_run left]
    simp only [run_bind, evaluationSteps_run right, binarySteps_run]
  | function name arguments star distinct =>
    rw [evaluationSteps, evaluateExpression, functionSteps, callFunction,
      ← argumentSteps_run arguments]
    split
    · exact coalesceSteps_run lib _ _
    split
    · exact fromUtcSteps_run lib _
    · rfl

theorem argumentSteps_run (arguments : List Expression) :
    (argumentSteps lib batch row arguments).map (fun c => c.run wrap64) =
      evaluateArguments lib batch row arguments := by
  cases arguments with
  | nil => rw [argumentSteps, evaluateArguments, map_nil]
  | cons argument rest =>
    rw [argumentSteps, evaluateArguments, map_cons, evaluationSteps_run argument,
      argumentSteps_run rest]
end

end Evaluation

/-! ## 3. A query -/

inductive OptionText where
  | duration (token : DurationToken)
  | number (token : NumberToken)

inductive ShardValue where
  | durationNs (value : Int)
  | int64 (value : Int)

/-- A comparison of a column with constants. -/
structure PredicateOf (α : Type) where
  column : String
  columnType : ColumnType
  operands : List α

/-- The parts of a query that compute with integers.  A literal window `window IN (a, b; options)`
is kept apart from the other predicates; the slices of window subqueries are read by other code
than the options of the lists. -/
structure QueryText where
  subquerySlices : List DurationToken
  otherOptions : List OptionText
  options : List (String × OptionText)
  predicates : List (PredicateOf ExpressionText)
  window : Option (List ExpressionText)
  expressions : List ExpressionText

structure ParsedQuery where
  options : List (String × ShardValue)
  predicates : List (PredicateOf Expression)
  window : Option (List Expression)
  expressions : List Expression

/-- `window_option` -/
def parseOption : OptionText → Calc String ShardValue
  | .duration token => ShardValue.durationNs <$> durationNs token.lexeme
  | .number token => ShardValue.int64 <$> numberLiteral token.digits

def parsePredicate (p : PredicateOf ExpressionText) : Calc String (PredicateOf Expression) :=
  PredicateOf.mk p.column p.columnType <$> parseArguments p.operands

def parseWindow : Option (List ExpressionText) → Calc String (Option (List Expression))
  | none => pure none
  | some bounds => some <$> parseArguments bounds

def parseQuery (text : QueryText) : Calc String ParsedQuery := do
  let _ ← text.subquerySlices.mapM fun token => sliceNs token.lexeme
  let _ ← text.otherOptions.mapM parseOption
  let options ← text.options.mapM fun option => Prod.mk option.1 <$> parseOption option.2
  let predicates ← text.predicates.mapM parsePredicate
  let window ← parseWindow text.window
  let expressions ← parseArguments text.expressions
  pure ⟨options, predicates, window, expressions⟩

/-- The parser accepts the query. -/
def QueryText.Accepted (text : QueryText) : Prop := (parseQuery text).Succeeds wrap64

section Planning

-- `returnType`: what the registry resolves a function of so many texts to.
variable (returnType : String → Nat → Except String ColumnType)

def stringArguments (name : String) : Nat → List Expression → Except String (List Text)
  | _, [] => .ok []
  | i, argument :: rest =>
    match argument with
    | .literal (.string s) => (stringArguments name (i + 1) rest).map (s.toList :: ·)
    | _ => .error (name ++ " argument " ++ toString i ++ " must be STRING")

def evaluateTimestamp (name : String) (arguments : List Expression) : Except String Int := do
  let texts ← stringArguments name 1 arguments
  let type ← returnType name texts.length
  if type ≠ .TIMESTAMP then .error "Function does not return TIMESTAMP" else Utc.toUtc texts

def constantExpression : Expression → Except String LiteralValue
  | .literal value => .ok value
  | .function name arguments _ _ => (evaluateTimestamp returnType name arguments).map .int64
  | _ => .error "WHERE expression must be constant"

/-- A constant, and the column it is compared with. -/
structure Constant where
  column : String
  columnType : ColumnType
  value : LiteralValue

def bindPredicate (p : PredicateOf Expression) : Except String (List Constant) :=
  p.operands.mapM fun e =>
    (constantExpression returnType e).map (Constant.mk p.column p.columnType)

/-- The bounds of a literal window are checked as timestamps of a column `window`. -/
def bindWindow : Option (List Expression) → Except String (List Constant)
  | none => .ok []
  | some [first, second] => bindPredicate returnType ⟨"window", .TIMESTAMP, [first, second]⟩
  | some _ =>
    .error "MLDP time-series literal window requires exactly two timestamp expressions"

def bindWindowShardOptions : List (List Char) → WindowShardSpec → List (String × ShardValue) →
    Except String WindowShardSpec
  | _, spec, [] => .ok spec
  | seen, spec, (name, value) :: rest =>
    if lower name ∈ seen then
      .error ("MLDP time-series window shard option is duplicated: " ++ String.ofList (lower name))
    else if lower name = "slice".toList then
      match value with
      | .durationNs n =>
        if n ≤ 0 then .error "MLDP time-series window slice must be a positive duration"
        else bindWindowShardOptions (lower name :: seen) { spec with sliceNs := n } rest
      | .int64 _ => .error "MLDP time-series window slice must be a positive duration"
    else if lower name = "series_per_shard".toList then
      match value with
      | .int64 n =>
        if n ≤ 0 then .error "MLDP time-series window series_per_shard must be a positive integer"
        else
          bindWindowShardOptions (lower name :: seen) { spec with seriesPerShard := n.toNat } rest
      | .durationNs _ =>
        .error "MLDP time-series window series_per_shard must be a positive integer"
    else
      .error ("Unknown MLDP time-series window shard option: " ++ String.ofList (lower name))

structure BoundQuery where
  constants : List Constant
  window : List Constant
  windowShards : WindowShardSpec

def bindQuery (q : ParsedQuery) : Except String BoundQuery := do
  let constants ← q.predicates.mapM (bindPredicate returnType)
  let window ← bindWindow returnType q.window
  let shards ← bindWindowShardOptions [] ⟨0, 1⟩ q.options
  .ok ⟨constants.flatten, window, shards⟩

end Planning

def LiteralValue.hasType : LiteralValue → ColumnType → Bool
  | .string _, .STRING | .string _, .NATIVE_VALUE => true
  | .int64 _, .TIMESTAMP | .int64 _, .DURATION_SECONDS | .int64 _, .INT => true
  | .int64 _, .NATIVE_VALUE => true
  | .bool _, .BOOL | .bool _, .NATIVE_VALUE => true
  | .double _, .NATIVE_VALUE => true
  | .timestampNs _, .NATIVE_VALUE | .durationNs _, .NATIVE_VALUE => true
  | _, _ => false

def enforceLiteralType (column : String) (type : ColumnType) (value : LiteralValue) :
    Except String LiteralValue :=
  if value.hasType type then .ok value
  else .error ("Type mismatch for column '" ++ column ++ "'")

/-- The body of `type_check_predicates`. -/
def typeCheckValue (nowEpoch : Int) (c : Constant) : Calc String LiteralValue :=
  match c.value with
  | .now offset =>
    if c.columnType ≠ .TIMESTAMP then .fail "NOW can only be compared against TIMESTAMP columns"
    else LiteralValue.int64 <$> op (nowEpoch + offset)
  | value => ofExcept (enforceLiteralType c.column c.columnType value)

/-- The bounds of the window, in order. -/
def windowBounds : List LiteralValue → Option (Int × Int)
  | [.int64 first, .int64 second] =>
    some (if second < first then (second, first) else (first, second))
  | _ => none

/-- `typeCheckSelect`: a query with a literal window has one table. -/
def typeCheckSelect (nowEpoch : Int) (q : BoundQuery) : Calc String (Option (Int × Int)) := do
  let values ← (q.constants ++ q.window).mapM (typeCheckValue nowEpoch)
  pure (windowBounds (values.drop q.constants.length))

/-- An expression of the query, and a row it is evaluated on. -/
structure Job (ρ : Type) where
  expression : Nat
  batch : Batch ρ
  row : ρ

/-- How a planned query is executed. -/
structure Execution (ρ : Type) where
  nowEpoch : Int
  /-- The window is scanned by the streaming plan, not by the materialised one. -/
  streaming : Bool
  requestedPvs : List String
  /-- What the executor evaluates, in its order. -/
  work : List (Job ρ)

/-- The streaming plan chooses a slice from the length of the window when none is given. -/
def autoSliceSteps (streaming : Bool) (shards : WindowShardSpec) (first second : Int) :
    Calc String Unit :=
  if streaming = true ∧ shards.sliceNs = 0 then do
    let length ← op (second - first)
    let _ ← op (length * 1000000000)
    pure ()
  else pure ()

/-- The stream goes one past the last slice. -/
def pastWindow (streaming : Bool) (endNs : Int) : Calc String Int :=
  if streaming then op (endNs + 1) else pure endNs

/-- The slices: `remaining` of the first one bounds those of the others. -/
def sliceSteps (streaming : Bool) (pvs : List String) (beginNs endNs : Int) : Calc String Unit :=
  if pvs = [] then .fail "MLDP time-series window requires a PV predicate"
  else do
    let _ ← op (endNs - beginNs)
    let _ ← pastWindow streaming endNs
    pure ()

def scanWindow (streaming : Bool) (pvs : List String) (shards : WindowShardSpec) :
    Option (Int × Int) → Calc String Unit
  | none => pure ()
  | some (first, second) => do
    let _ ← autoSliceSteps streaming shards first second
    let beginNs ← op (first * 1000000000)
    let endNs ← op (second * 1000000000)
    sliceSteps streaming pvs beginNs endNs

section Run

variable (lib : ScalarLib) (returnType : String → Nat → Except String ColumnType) {ρ : Type}

def evaluateJob (expressions : List Expression) (job : Job ρ) : Calc String Scalar :=
  match expressions[job.expression]? with
  | none => .fail "Missing expression"
  | some e => evaluationSteps lib job.batch job.row e

/-- A query from its text to the values of its expressions. -/
def runQuery (text : QueryText) (run : Execution ρ) : Calc String (List Scalar) := do
  let q ← parseQuery text
  let bound ← ofExcept (bindQuery returnType q)
  let window ← typeCheckSelect run.nowEpoch bound
  let _ ← scanWindow run.streaming run.requestedPvs bound.windowShards window
  run.work.mapM (evaluateJob lib q.expressions)

end Run

end MldpDriver.Query.Evaluator
