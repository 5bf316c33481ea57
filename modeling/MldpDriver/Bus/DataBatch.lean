/-
# Batches on the bus

A `DataBatch` is one frame: a list of timestamps and named columns, one entry of a column for each
timestamp.  An `EventBatch` carries frames of one source, or another kind of payload.

`V` is the type of the scalar values.  The twelve alternatives of `ColumnValues` in the source are
six scalar vectors, a vector of byte strings and five vectors of arrays; here the element type of
a vector is a tag.
-/
import Mathlib.Data.List.Basic

namespace MldpDriver.Bus

/-- `TimestampEntry`. -/
structure TimestampEntry where
  epochSeconds : Nat
  nanoseconds : Nat
  deriving DecidableEq

/-- The element types of scalar columns. -/
inductive ScalarKind
  | double
  | float
  | int64
  | int32
  | bool
  | string
  deriving DecidableEq

/-- The element types of array columns. -/
inductive ArrayKind
  | double
  | float
  | int64
  | int32
  | bool
  deriving DecidableEq

/-- `ColumnValues`. -/
inductive ColumnValues (V : Type)
  | scalar (kind : ScalarKind) (values : List V)
  | bytes (values : List (List V))
  | array (kind : ArrayKind) (values : List (List V))
  deriving DecidableEq

/-- `DataColumn`; the metadata in the order the map iterates. -/
structure DataColumn (V : Type) where
  name : String
  values : ColumnValues V
  metadata : List (String × String) := []
  deriving DecidableEq

/-- `EnumDataColumn`. -/
structure EnumDataColumn where
  name : String
  values : List Int
  enumId : String
  deriving DecidableEq

/-- `DataBatch`. -/
structure DataBatch (V : Type) where
  timestamps : List TimestampEntry
  columns : List (DataColumn V) := []
  enumColumns : List EnumDataColumn := []
  arrayDims : List (String × List Nat) := []
  deriving DecidableEq

/-- `TimeSeriesPayload`. -/
structure TimeSeriesPayload (V : Type) where
  rootSourceName : String
  frames : List (DataBatch V)
  endOfBatchGroup : Bool := false
  isTabular : Bool := false

/-- `BatchPayload`; what the other alternatives hold is not read by the writers modelled here. -/
inductive BatchPayload (V : Type)
  | timeSeries (payload : TimeSeriesPayload V)
  | sourceMetadata
  | configuration
  | configurationActivation

/-- `EventBatchStruct`. -/
structure EventBatch (V : Type) where
  metadata : List (String × String) := []
  payload : BatchPayload V

end MldpDriver.Bus
