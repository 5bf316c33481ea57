/-
# Values of process variables

What a reader is handed is a structure of scalars, scalar arrays and arrays of structures.  The bus
has no unsigned element types: an unsigned value is cast to the signed type of its column.  This
module has the scalars and arrays with the types they have on the wire, and what each becomes in a
column; `stored_eq_iff` says which values a column holds unchanged.
-/
import Mathlib.Algebra.Group.Int.Defs
import MldpDriver.Bus.DataBatch

namespace MldpDriver.Reader

open Bus

/-! ## 1. Scalars and arrays -/

/-- The integer element types. -/
inductive IntType
  | int8
  | int16
  | int32
  | int64
  | uint8
  | uint16
  | uint32
  | uint64
  deriving DecidableEq

def IntType.min : IntType → Int
  | .int8 => -128
  | .int16 => -32768
  | .int32 => -2147483648
  | .int64 => -9223372036854775808
  | .uint8 | .uint16 | .uint32 | .uint64 => 0

def IntType.max : IntType → Int
  | .int8 => 127
  | .int16 => 32767
  | .int32 => 2147483647
  | .int64 => 9223372036854775807
  | .uint8 => 255
  | .uint16 => 65535
  | .uint32 => 4294967295
  | .uint64 => 18446744073709551615

/-- An integer of a type. -/
structure TypedInt (type : IntType) where
  value : Int
  lower : type.min ≤ value
  upper : value ≤ type.max

theorem uint32_upper (v : UInt32) : (v.toNat : Int) ≤ IntType.uint32.max := by
  have hlt := v.toNat_lt
  show (v.toNat : Int) ≤ 4294967295
  omega

def TypedInt.ofUInt32 (v : UInt32) : TypedInt .uint32 :=
  ⟨v.toNat, Int.natCast_nonneg _, uint32_upper v⟩

/-- A scalar; a floating point number is its bits. -/
inductive Scalar
  | bool (value : Bool)
  | int (type : IntType) (value : TypedInt type)
  | float (bits : BitVec 32)
  | double (bits : BitVec 64)
  | string (value : String)

/-- A scalar array. -/
inductive ScalarArray
  | bool (values : List Bool)
  | int (type : IntType) (values : List (TypedInt type))
  | float (values : List (BitVec 32))
  | double (values : List (BitVec 64))
  | string (values : List String)

/-- An element of a column. -/
inductive Datum
  | bool (value : Bool)
  | int (value : Int)
  | float (bits : BitVec 32)
  | double (bits : BitVec 64)
  | string (value : String)
  deriving DecidableEq

/-! ## 2. What becomes of them in a column -/

/-- The signed type of the column for an integer type. -/
def IntType.column : IntType → IntType
  | .int64 | .uint64 => .int64
  | _ => .int32

/-- `static_cast` to the signed type of the column. -/
def IntType.cast : IntType → Int → Int
  | .int64, v => v
  | .uint64, v => v.bmod 18446744073709551616
  | .uint8, v | .uint16, v | .uint32, v => v.bmod 4294967296
  | .int8, v | .int16, v | .int32, v => v

def ScalarArray.length : ScalarArray → Nat
  | .bool values => values.length
  | .int _ values => values.length
  | .float values => values.length
  | .double values => values.length
  | .string values => values.length

/-- The elements as they are. -/
def ScalarArray.data : ScalarArray → List Datum
  | .bool values => values.map .bool
  | .int _ values => values.map fun v => .int v.value
  | .float values => values.map .float
  | .double values => values.map .double
  | .string values => values.map .string

/-- The elements as a column holds them. -/
def ScalarArray.stored : ScalarArray → List Datum
  | .int type values => values.map fun v => .int (type.cast v.value)
  | a => a.data

/-- The element type of a scalar column for an array. -/
def ScalarArray.scalarKind : ScalarArray → ScalarKind
  | .bool _ => .bool
  | .int type _ => if type.column = .int64 then .int64 else .int32
  | .float _ => .float
  | .double _ => .double
  | .string _ => .string

/-- A column with one array in it; strings are stored one by one. -/
def ScalarArray.arrayValues (a : ScalarArray) : ColumnValues Datum :=
  match a with
  | .bool _ => .array .bool [a.stored]
  | .int type _ => .array (if type.column = .int64 then .int64 else .int32) [a.stored]
  | .float _ => .array .float [a.stored]
  | .double _ => .array .double [a.stored]
  | .string _ => .scalar .string a.stored

/-- A scalar as an array of one. -/
def Scalar.toArray : Scalar → ScalarArray
  | .bool value => .bool [value]
  | .int type value => .int type [value]
  | .float bits => .float [bits]
  | .double bits => .double [bits]
  | .string value => .string [value]

def Scalar.datum : Scalar → Datum
  | .bool value => .bool value
  | .int _ value => .int value.value
  | .float bits => .float bits
  | .double bits => .double bits
  | .string value => .string value

/-- The first `n` elements. -/
def ScalarArray.take (n : Nat) : ScalarArray → ScalarArray
  | .bool values => .bool (values.take n)
  | .int type values => .int type (values.take n)
  | .float values => .float (values.take n)
  | .double values => .double (values.take n)
  | .string values => .string (values.take n)

/-! ## 3. The values that a column holds unchanged -/

/-- No integer of the array is above the range of the column. -/
def ScalarArray.InRange : ScalarArray → Prop
  | .int type values => ∀ v ∈ values, v.value ≤ type.column.max
  | _ => True

theorem bmod_eq_self_iff {v m : Int} {n : Nat} (hn : (n : Int) = 2 * m + 2) (hlow : 0 ≤ v)
    (hv : v < n) : v.bmod n = v ↔ v ≤ m := by
  rw [Int.bmod_def, Int.emod_eq_of_lt hlow hv]
  split <;> omega

/-- **An integer is cast to itself exactly when the signed type has it.** -/
theorem cast_eq_iff {type : IntType} (v : TypedInt type) :
    type.cast v.value = v.value ↔ v.value ≤ type.column.max := by
  obtain ⟨value, lower, upper⟩ := v
  cases type with
  | int8 => exact iff_of_true rfl (Int.le_trans upper (by decide))
  | int16 => exact iff_of_true rfl (Int.le_trans upper (by decide))
  | int32 => exact iff_of_true rfl upper
  | int64 => exact iff_of_true rfl upper
  | uint8 => exact bmod_eq_self_iff (by decide) lower (Int.lt_of_le_of_lt upper (by decide))
  | uint16 => exact bmod_eq_self_iff (by decide) lower (Int.lt_of_le_of_lt upper (by decide))
  | uint32 => exact bmod_eq_self_iff (by decide) lower (Int.lt_of_le_of_lt upper (by decide))
  | uint64 => exact bmod_eq_self_iff (by decide) lower (Int.lt_of_le_of_lt upper (by decide))

theorem length_data (a : ScalarArray) : a.data.length = a.length := by
  cases a <;> simp [ScalarArray.data, ScalarArray.length]

theorem length_stored (a : ScalarArray) : a.stored.length = a.length := by
  cases a <;> simp [ScalarArray.stored, ScalarArray.data, ScalarArray.length]

/-- **A column holds an array unchanged exactly when every element is in its range.** -/
theorem stored_eq_iff (a : ScalarArray) : a.stored = a.data ↔ a.InRange := by
  cases a with
  | int type values =>
    simp only [ScalarArray.stored, ScalarArray.data, List.map_inj_left, Datum.int.injEq,
      cast_eq_iff, ScalarArray.InRange]
  | bool values => exact iff_of_true rfl trivial
  | float values => exact iff_of_true rfl trivial
  | double values => exact iff_of_true rfl trivial
  | string values => exact iff_of_true rfl trivial

end MldpDriver.Reader
