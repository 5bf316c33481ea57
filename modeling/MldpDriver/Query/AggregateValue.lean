/-
# The values of GROUP BY

Aggregation reads every column through values of five kinds (`ValueKind`), whatever the Arrow type;
a native union column has values of several kinds.  At the end it builds a column from the chosen
values: of the column's own type, or of a type INFERRED from the kinds of the values when the column
was a union or had no type (`buildValueColumn`).
-/
import Mathlib.Algebra.Group.Int.Defs
import Mathlib.Algebra.Group.Nat.Defs
import Mathlib.Data.List.Basic

namespace MldpDriver.Query.Aggregate

/-! ## 1. Values and types

`D` are the doubles and `X` the values of other types (lists, structs).  What the code uses of them
is a parameter (`ValueLib`); integers are 64-bit and strings are bytes. -/

/-- `ValueRef` and `OwnedValue`, one constructor for each `ValueKind`. -/
inductive Value (D X : Type)
  | nul
  | int (integer : Int)
  | double (real : D)
  | bool (boolean : Bool)
  | string (text : List UInt8)
  | other (value : X)
  deriving DecidableEq

variable {D X : Type}

def Value.isNull : Value D X → Bool
  | .nul => true
  | _ => false

def Value.isInt : Value D X → Bool
  | .int _ => true
  | _ => false

def Value.isDouble : Value D X → Bool
  | .double _ => true
  | _ => false

def Value.isBool : Value D X → Bool
  | .bool _ => true
  | _ => false

def Value.isString : Value D X → Bool
  | .string _ => true
  | _ => false

def Value.isOther : Value D X → Bool
  | .other _ => true
  | _ => false

/-- The storage of an integer-backed type. -/
inductive IntegerStorage
  | int8
  | int16
  | int32
  | int64
  | uint8
  | uint16
  | uint32
  | uint64
  deriving DecidableEq

/-- Arrow types as GROUP BY tells them apart; `logical` tells dates, times, timestamps and durations
of one storage from each other. -/
inductive ArrowType
  | na
  | union
  | integer (storage : IntegerStorage) (logical : Nat)
  | float
  | double
  | bool
  | string
  | binary
  | largeString
  | largeBinary
  | other (id : Nat)
  deriving DecidableEq

def ArrowType.int64 : ArrowType := .integer .int64 0

/-- A slot of an output column. -/
inductive Cell (D X : Type)
  | null
  | int (integer : Int)
  | real (real : D)
  | bool (boolean : Bool)
  | text (text : List UInt8)
  | other (value : X)
  deriving DecidableEq

/-- What is used of doubles and of values of other types. -/
structure ValueLib (D X : Type) where
  lt : D → D → Bool
  zero : D
  add : D → D → D
  /-- Division by a count. -/
  divNat : D → Nat → D
  /-- `static_cast<double>` -/
  ofInt : Int → D
  /-- `static_cast<int64_t>` -/
  toInt : D → Int
  /-- Rounding to a float. -/
  toFloat : D → D
  /-- The bytes of a double, those of 0.0 for -0.0. -/
  keyBytes : D → List UInt8
  /-- `%.17g` -/
  doubleText : D → List UInt8
  /-- `Scalar::ToString` -/
  otherText : X → List UInt8
  /-- A builder of a type takes the value. -/
  accepts : Nat → X → Bool
  /-- The bytes are UTF-8. -/
  utf8 : List UInt8 → Bool

/-! ## 2. Keys and order -/

/-- The low bytes of a number, lowest first. -/
def littleEndian (n : Nat) (value : Int) : List UInt8 :=
  (List.range n).map fun i => UInt8.ofNat ((value / 256 ^ i) % 256).toNat

/-- A text with its length in front. -/
def sizedText (tag : UInt8) (text : List UInt8) : List UInt8 :=
  tag :: (littleEndian 4 text.length ++ text)

/-- `appendValueKey`: the bytes appended for a value. -/
def appendValueKey (lib : ValueLib D X) : Value D X → List UInt8
  | .nul => [78]
  | .int n => 73 :: littleEndian 8 n
  | .double d => 68 :: lib.keyBytes d
  | .bool b => [if b then 84 else 70]
  | .string text => sizedText 83 text
  | .other x => sizedText 79 (lib.otherText x)

/-- The order of two numbers. -/
def compareBy {α : Type} (lt : α → α → Bool) (left right : α) : Int :=
  if lt left right then -1 else if lt right left then 1 else 0

/-- The bytewise order of texts. -/
def compareText : List UInt8 → List UInt8 → Int
  | [], [] => 0
  | [], _ :: _ => -1
  | _ :: _, [] => 1
  | a :: as, b :: bs => if a < b then -1 else if b < a then 1 else compareText as bs

/-- A number as a double. -/
def Value.asDouble (lib : ValueLib D X) : Value D X → Option D
  | .int n => some (lib.ofInt n)
  | .double d => some d
  | _ => none

/-- `compareValues`; `none` says that it throws. -/
def compareValues (lib : ValueLib D X) (lhs rhs : Value D X) : Option Int :=
  match lhs, rhs with
  | .int l, .int r => some (compareBy (fun a b : Int => decide (a < b)) l r)
  | .string l, .string r => some (compareText l r)
  | .bool l, .bool r => some ((if l then 1 else 0) - (if r then 1 else 0))
  | lhs, rhs =>
    match lhs.asDouble lib, rhs.asDouble lib with
    | some l, some r => some (compareBy lib.lt l r)
    | _, _ => none

/-! ## 3. Columns -/

/-- `preservedType`: the type a column keeps; none for untyped and union columns. -/
def preservedType : ArrowType → Option ArrowType
  | .na => none
  | .union => none
  | type => some type

/-- The type inferred from the kinds of values. -/
def inferType (values : List (Value D X)) : ArrowType :=
  let ints := values.any Value.isInt
  let reals := values.any Value.isDouble
  let bools := values.any Value.isBool
  let strings := values.any Value.isString
  let others := values.any Value.isOther
  if values.all Value.isNull then .na
  else if !bools && !strings && !others then if reals then .double else .int64
  else if bools && !ints && !reals && !strings && !others then .bool
  else .string

/-- `valueText` -/
def valueText (lib : ValueLib D X) : Value D X → List UInt8
  | .nul => []
  | .int n => (toString n).toUTF8.data.toList
  | .double d => lib.doubleText d
  | .bool b => (if b then "true" else "false").toUTF8.data.toList
  | .string text => text
  | .other x => lib.otherText x

/-- The range of a storage. -/
def IntegerStorage.holds : IntegerStorage → Int → Bool
  | .int8, n => decide (-2 ^ 7 ≤ n) && decide (n < 2 ^ 7)
  | .int16, n => decide (-2 ^ 15 ≤ n) && decide (n < 2 ^ 15)
  | .int32, n => decide (-2 ^ 31 ≤ n) && decide (n < 2 ^ 31)
  | .int64, _ => true
  | .uint8, n => decide (0 ≤ n) && decide (n < 2 ^ 8)
  | .uint16, n => decide (0 ≤ n) && decide (n < 2 ^ 16)
  | .uint32, n => decide (0 ≤ n) && decide (n < 2 ^ 32)
  | .uint64, n => decide (0 ≤ n)

/-- The slot of a value in a column of a kept type; `none` says that building the column throws. -/
def typedCell (lib : ValueLib D X) : ArrowType → Value D X → Option (Cell D X)
  | .integer storage _, .int n => if storage.holds n then some (.int n) else none
  | .integer storage _, .double d =>
    if storage.holds (lib.toInt d) then some (.int (lib.toInt d)) else none
  | .float, .int n => some (.real (lib.toFloat (lib.ofInt n)))
  | .float, .double d => some (.real (lib.toFloat d))
  | .double, .int n => some (.real (lib.ofInt n))
  | .double, .double d => some (.real d)
  | .bool, .bool b => some (.bool b)
  | .string, .string text => some (.text text)
  | .binary, .string text => some (.text text)
  | .largeString, .string text => if lib.utf8 text then some (.text text) else none
  | .largeBinary, .string text => some (.text text)
  | .other id, .other x => if lib.accepts id x then some (.other x) else none
  | _, _ => some .null

/-- The slot of a value in a column of an inferred type; in a column of strings every value is
rendered as text. -/
def inferredCell (lib : ValueLib D X) : ArrowType → Value D X → Cell D X
  | _, .nul => .null
  | .integer _ _, .int n => .int n
  | .double, .int n => .real (lib.ofInt n)
  | .double, .double d => .real d
  | .bool, .bool b => .bool b
  | .string, value => .text (valueText lib value)
  | _, _ => .null

/-- An output column. -/
structure Column (D X : Type) where
  type : ArrowType
  cells : List (Cell D X)
  deriving DecidableEq

/-- `buildValueColumn` -/
def buildValueColumn (lib : ValueLib D X) (values : List (Value D X)) (requested : Option ArrowType) :
    Option (Column D X) :=
  match requested with
  | some type => (values.mapM (typedCell lib type)).map (Column.mk type)
  | none => some ⟨inferType values, values.map (inferredCell lib (inferType values))⟩

end MldpDriver.Query.Aggregate
