/-
# Converting archiver samples

`parseSample` turns a serialized sample into a batch of one timestamp with one column, named like
the PV.  The payload type of the chunk's header says which message is parsed and what the column
holds.  What the generated message classes read is a parameter, `Messages`.

A waveform is one array, except for waveforms of strings and of enums: their elements become values
of the column, so that such a sample may have several values or none.
-/
import MldpDriver.Lib.CivilDate
import MldpDriver.Reader.ArchiverFetch

namespace MldpDriver.Reader.Archiver

open Bus Lib.CivilDate Lib.Directory

/-- `EPICS::PayloadType`; a number that is none of the fifteen is kept. -/
inductive PayloadType where
  | scalarString | scalarShort | scalarFloat | scalarEnum | scalarByte | scalarInt | scalarDouble
  | waveformString | waveformShort | waveformFloat | waveformEnum | waveformByte | waveformInt
  | waveformDouble | v4GenericBytes
  | other (number : Int)

/-- The fields of a message that are read. -/
structure Message (α : Type) where
  secondsIntoYear : Nat
  nano : Nat
  val : α

/-- The generated classes: `PayloadInfo`, and `ParseFromString` of the message class of a payload
type. -/
structure Messages (H V : Type) where
  parsePayloadInfo : List UInt8 → Option H
  pvname : H → String
  year : H → Int
  type : H → PayloadType
  scalar : PayloadType → List UInt8 → Option (Message V)
  vector : PayloadType → List UInt8 → Option (Message (List V))
  enum : List UInt8 → Option (Message Int)
  enumVector : List UInt8 → Option (Message (List Int))

variable {H V α : Type}

/-- The days of the years from 1970 up to a year. -/
def daysBefore (year : Int) : Nat :=
  ((List.range (year - 1970).toNat).map fun k => if isLeap (1970 + k) then 366 else 365).sum

def unixEpochSecondsFromYearAndSecondsIntoYear (year : Int) (secondsIntoYear : Nat) :
    Except String Nat :=
  if year < 1970 then .error "PB/HTTP sample year before 1970 is unsupported"
  else .ok (daysBefore year * 86400 + secondsIntoYear)

def makeBaseSample (m : Messages H V) (header : H) (secondsIntoYear nano : Nat) :
    Except String (ParsedSample V) := do
  let epochSeconds ← unixEpochSecondsFromYearAndSecondsIntoYear (m.year header) secondsIntoYear
  .ok { epochSeconds := epochSeconds, nanoseconds := nano }

/-- `parseScalar`, `parseWaveform` and `parseBlob`, which differ in the message that fails. -/
def parseMessage (kind : String) (m : Messages H V) (header : H) (message : Option (Message α))
    (setter : String → α → ParsedSample V → ParsedSample V) : Except String (ParsedSample V) :=
  match message with
  | none => .error ("failed to parse PB/HTTP " ++ kind ++ " sample")
  | some msg => do
    let s ← makeBaseSample m header msg.secondsIntoYear msg.nano
    .ok (setter (m.pvname header) msg.val s)

def pushColumn (name : String) (values : ColumnValues V) (s : ParsedSample V) : ParsedSample V :=
  { s with columns := s.columns ++ [{ name := name, values := values }] }

def pushEnumColumn (name : String) (values : List Int) (s : ParsedSample V) : ParsedSample V :=
  { s with
    enumColumns := s.enumColumns ++ [{ name := name, values := values, enumId := "epics:enum" }] }

/-- A waveform is one array, whose size goes into the dimensions. -/
def pushArray (kind : ArrayKind) (name : String) (vals : List V) (s : ParsedSample V) :
    ParsedSample V :=
  pushColumn name (.array kind [vals])
    { s with arrayDims := put s.arrayDims name [vals.length % 2 ^ 32] }

/-- `parseSample`. -/
def parseSample (m : Messages H V) (header : H) (bytes : List UInt8) :
    Except String (ParsedSample V) :=
  let scalar (kind : ScalarKind) :=
    parseMessage "scalar" m header (m.scalar (m.type header) bytes)
      fun name v => pushColumn name (.scalar kind [v])
  let waveform (kind : ArrayKind) :=
    parseMessage "waveform" m header (m.vector (m.type header) bytes) (pushArray kind)
  let blob :=
    parseMessage "blob" m header (m.vector (m.type header) bytes)
      fun name raw => pushColumn name (.bytes [raw])
  match m.type header with
  | .scalarString => scalar .string
  | .scalarShort => scalar .int32
  | .scalarFloat => scalar .float
  | .scalarEnum => parseMessage "scalar" m header (m.enum bytes) fun name v => pushEnumColumn name [v]
  | .scalarByte => blob
  | .scalarInt => scalar .int32
  | .scalarDouble => scalar .double
  | .waveformString =>
    parseMessage "waveform" m header (m.vector .waveformString bytes)
      fun name vals => pushColumn name (.scalar .string vals)
  | .waveformShort => waveform .int32
  | .waveformFloat => waveform .float
  | .waveformEnum => parseMessage "waveform" m header (m.enumVector bytes) pushEnumColumn
  | .waveformByte => blob
  | .waveformInt => waveform .int32
  | .waveformDouble => waveform .double
  | .v4GenericBytes => blob
  | .other number => .error ("unsupported archiver PB/HTTP payload type: " ++ toString number)

/-- What a fetch uses of the generated classes and the conversion. -/
def Messages.protobuf (m : Messages H V) : Protobuf H V where
  parsePayloadInfo := m.parsePayloadInfo
  pvname := m.pvname
  parseSample := parseSample m

end MldpDriver.Reader.Archiver
