/-
# Query results as JSON lines and as CSV

`QueryFormatter.cpp` writes the record batches of a result in one go (`formatQueryResult`) or batch
by batch as a stream brings them (`formatQueryStream`).  Both are here for the formats that are
texts with a grammar of their own, `json` (an object on each line) and `csv`.  Of a scalar the
formatter asks whether it is null, its type and its `ToString()`; of a list or a map its elements.
A text is a list of characters: both escapes pass on what is beyond ASCII as it is.
-/
import MldpDriver.Lib.Csv
import MldpDriver.Lib.Json

namespace MldpDriver.Query.Formatter

open Lib List

/-! ## 1. Scalars and batches -/

/-- The types that `isNumericOrBoolType` asks for, and all the others. -/
inductive ArrowType
  | bool
  | int8 | int16 | int32 | int64
  | uint8 | uint16 | uint32 | uint64
  | halfFloat | float | double
  | decimal32 | decimal64 | decimal128 | decimal256
  | other

/-- A scalar: null, a value with its `ToString()`, a list or a map (with the texts of its keys). -/
inductive Scalar
  | null
  | value (type : ArrowType) (text : List Char)
  | list (items : List Scalar)
  | map (entries : List (List Char × Scalar))

structure RecordBatch where
  schema : List (List Char)
  rows : List (List Scalar)
  width : ∀ row ∈ rows, row.length = schema.length

inductive QueryOutputFormat
  | json | csv

/-! ## 2. The formatter -/

/-- A character of a JSON string; the rest of the control characters as four hexadecimal digits. -/
def escapeJsonChar (c : Char) : List Char :=
  if c = '"' then ['\\', '"']
  else if c = '\\' then ['\\', '\\']
  else if c = '\x08' then ['\\', 'b']
  else if c = '\x0c' then ['\\', 'f']
  else if c = '\n' then ['\\', 'n']
  else if c = '\r' then ['\\', 'r']
  else if c = '\t' then ['\\', 't']
  else if c.toNat < 0x20 then '\\' :: 'u' :: (Nat.toDigits 16 c.toNat).leftpad 4 '0'
  else [c]

def escapeJson (input : List Char) : List Char := input.flatMap escapeJsonChar

def isNumericOrBoolType : ArrowType → Bool
  | .other => false
  | _ => true

/-- The loop that writes a comma before each element but the first. -/
def commaSeparated : List (List Char) → List Char
  | [] => []
  | text :: texts => text ++ texts.flatMap fun text => ',' :: text

mutual

def jsonValue : Scalar → List Char
  | .null => "null".toList
  | .value type text =>
    if isNumericOrBoolType type then text else '"' :: (escapeJson text ++ ['"'])
  | .list items => '[' :: (commaSeparated (jsonItems items) ++ [']'])
  | .map entries => '{' :: (commaSeparated (jsonEntries entries) ++ ['}'])

def jsonItems : List Scalar → List (List Char)
  | [] => []
  | item :: items => jsonValue item :: jsonItems items

def jsonEntries : List (List Char × Scalar) → List (List Char)
  | [] => []
  | (key, value) :: entries =>
    ('"' :: (escapeJson key ++ '"' :: ':' :: jsonValue value)) :: jsonEntries entries

end

def jsonField (name : List Char) (scalar : Scalar) : List Char :=
  '"' :: (escapeJson name ++ '"' :: ':' ::
    match scalar with
    | .null => "null".toList
    | scalar => jsonValue scalar)

def jsonRow (schema : List (List Char)) (row : List Scalar) : List Char :=
  '{' :: (commaSeparated (List.zipWith jsonField schema row) ++ ['}', '\n'])

/-- A batch may be missing; it is passed over. -/
def writeJsonLines (batches : List (Option RecordBatch)) : List Char :=
  batches.flatMap fun
    | none => []
    | some batch => batch.rows.flatMap (jsonRow batch.schema)

def escapeCsv (input : List Char) : List Char :=
  if input.any fun c => c == ',' || c == '"' || c == '\n' || c == '\r' then
    '"' :: (input.flatMap (fun c => if c = '"' then ['"', '"'] else [c]) ++ ['"'])
  else input

def csvValue : Scalar → List Char
  | .null => []
  | .value _ text => text
  | scalar => jsonValue scalar

def csvCell : Scalar → List Char
  | .null => []
  | scalar => escapeCsv (csvValue scalar)

def csvRow (row : List Scalar) : List Char := commaSeparated (row.map csvCell) ++ ['\n']

def csvHeader (schema : List (List Char)) : List Char :=
  commaSeparated (schema.map escapeCsv) ++ ['\n']

/-- The header is that of the first batch. -/
def writeCsv (batches : List (Option RecordBatch)) : List Char :=
  match batches with
  | [] | none :: _ => []
  | some front :: _ =>
    csvHeader front.schema ++ batches.flatMap fun
      | none => []
      | some batch => batch.rows.flatMap csvRow

def formatQueryResult (format : QueryOutputFormat) (batches : List (Option RecordBatch)) :
    List Char :=
  match format with
  | .json => writeJsonLines batches
  | .csv => writeCsv batches

/-- The loop over the stream, with `header_written`. -/
def formatStreamFrom (format : QueryOutputFormat) (headerWritten : Bool) :
    List RecordBatch → List Char
  | [] => []
  | batch :: stream =>
    (match format with
      | .json => writeJsonLines [some batch]
      | .csv =>
        (if headerWritten then [] else csvHeader batch.schema) ++ batch.rows.flatMap csvRow) ++
    formatStreamFrom format true stream

def formatQueryStream (format : QueryOutputFormat) (stream : List RecordBatch) : List Char :=
  formatStreamFrom format false stream

/-! ## 3. What a reader is to find -/

mutual

/-- The value of a scalar.  The text of a number or a truth value is a literal. -/
def Scalar.toJson : Scalar → Json.Value
  | .null => .null
  | .value type text => if isNumericOrBoolType type then .literal text else .string text
  | .list items => .array (itemsJson items)
  | .map entries => .object (entriesJson entries)

def itemsJson : List Scalar → List Json.Value
  | [] => []
  | item :: items => item.toJson :: itemsJson items

def entriesJson : List (List Char × Scalar) → List (List Char × Json.Value)
  | [] => []
  | (key, value) :: entries => (key, value.toJson) :: entriesJson entries

end

def rowJson (schema : List (List Char)) (row : List Scalar) : Json.Value :=
  .object (schema.zip (row.map Scalar.toJson))

/-- The rows of all the batches. -/
def allRows (batches : List RecordBatch) : List (List Scalar) := batches.flatMap (·.rows)

/-- The records of a CSV text: the names, and the rows with the texts of their fields. -/
def csvRecords (schema : List (List Char)) (batches : List RecordBatch) :
    List (List (List Char)) :=
  if batches.isEmpty then [] else schema :: (allRows batches).map (·.map csvValue)

/-- A reader of JSON lines and a reader of CSV find the result in what was written. -/
def Recovered (unique : Bool) (schema : List (List Char)) (batches : List RecordBatch) : Prop :=
  Json.readLines unique (formatQueryResult .json (batches.map some)) =
      some ((allRows batches).map (rowJson schema)) ∧
    Csv.read (formatQueryResult .csv (batches.map some)) = some (csvRecords schema batches)

mutual

/-- The numbers in the scalar are literals of JSON; and for a reader that asks for it, the keys of a
map are distinct. -/
def Scalar.recoverable (unique : Bool) : Scalar → Bool
  | .null => true
  | .value type text => !isNumericOrBoolType type || Json.isLiteral text
  | .list items => itemsRecoverable unique items
  | .map entries =>
    Json.namesAllowed unique (entries.map Prod.fst) && entriesRecoverable unique entries

def itemsRecoverable (unique : Bool) : List Scalar → Bool
  | [] => true
  | item :: items => item.recoverable unique && itemsRecoverable unique items

def entriesRecoverable (unique : Bool) : List (List Char × Scalar) → Bool
  | [] => true
  | (_, value) :: entries => value.recoverable unique && entriesRecoverable unique entries

end

def rowRecoverable (unique : Bool) (schema : List (List Char)) (row : List Scalar) : Bool :=
  Json.namesAllowed unique schema && row.all (Scalar.recoverable unique)

/-! ## 4. The escapes -/

theorem readUnit_control {n : Nat} (hn : n < 32) :
    (match (Nat.toDigits 16 n).leftpad 4 '0' with
      | [a, b, c, d] => Json.readUnit a b c d == some (Char.ofNat n)
      | _ => false) = true := by
  revert n
  decide +kernel

theorem readString_escapeJsonChar (c : Char) (rest : List Char) :
    Json.readString (escapeJsonChar c ++ rest) =
      (Json.readString rest).map fun s => (c :: s.1, s.2) := by
  rw [escapeJsonChar]
  split
  · rename_i h; subst h; exact Json.readString_escape (by decide) rfl rest
  split
  · rename_i h; subst h; exact Json.readString_escape (by decide) rfl rest
  split
  · rename_i h; subst h; exact Json.readString_escape (by decide) rfl rest
  split
  · rename_i h; subst h; exact Json.readString_escape (by decide) rfl rest
  split
  · rename_i h; subst h; exact Json.readString_escape (by decide) rfl rest
  split
  · rename_i h; subst h; exact Json.readString_escape (by decide) rfl rest
  split
  · rename_i h; subst h; exact Json.readString_escape (by decide) rfl rest
  rename_i hquote hslash _ _ _ _ _
  split
  · rename_i hcontrol
    have hunit := readUnit_control hcontrol
    split at hunit
    · rename_i a b d e hdigits
      rw [hdigits]
      have hc : Json.readUnit a b d e = some c := by
        rw [beq_iff_eq.mp hunit, Char.ofNat_toNat]
      exact Json.readString_unit hc rest
    · cases hunit
  · rename_i hcontrol
    exact Json.readString_char hquote hslash hcontrol rest

/-- **The reader undoes the escape of JSON strings.** -/
theorem escapeJson_undone : Json.Undone escapeJson := by
  intro text rest
  induction text with
  | nil => rfl
  | cons c text ih =>
    rw [escapeJson, flatMap_cons, append_assoc, readString_escapeJsonChar, ← escapeJson,
      ih]
    rfl

theorem newline_notMem_control {n : Nat} (hn : n < 32) :
    '\n' ∉ (Nat.toDigits 16 n).leftpad 4 '0' := by
  revert n
  decide +kernel

theorem newline_notMem_escapeJsonChar (c : Char) : '\n' ∉ escapeJsonChar c := by
  rw [escapeJsonChar]
  split
  · decide
  split
  · decide
  split
  · decide
  split
  · decide
  split
  · decide
  split
  · decide
  split
  · decide
  split
  · rename_i hcontrol
    intro hmem
    rcases mem_cons.mp hmem with h | hmem
    · exact absurd h (by decide)
    · rcases mem_cons.mp hmem with h | hmem
      · exact absurd h (by decide)
      · exact newline_notMem_control hcontrol hmem
  · rename_i hnewline _ _ _
    exact fun hmem => hnewline (mem_singleton.mp hmem).symm

theorem newline_notMem_escapeJson (text : List Char) : '\n' ∉ escapeJson text := by
  intro hmem
  obtain ⟨c, -, hc⟩ := mem_flatMap.mp hmem
  exact newline_notMem_escapeJsonChar c hc

/-- **The reader undoes the escape of CSV fields.** -/
theorem escapeCsv_written (field : List Char) : Csv.Written field (escapeCsv field) := by
  rw [escapeCsv]
  split
  · exact .inr rfl
  · rename_i h
    refine .inl ⟨rfl, fun c hc => ?_⟩
    rw [Bool.not_eq_true, any_eq_false] at h
    exact Bool.eq_false_iff.mpr (h c hc)

/-! ## 5. The texts of values -/

/-- What `commaSeparated` writes after the first text. -/
def commaTail (texts : List (List Char)) : List Char := texts.flatMap fun text => ',' :: text

mutual

/-- `jsonValue` writes the text of the value of the scalar. -/
theorem jsonValue_eq : ∀ scalar : Scalar, jsonValue scalar = scalar.toJson.text escapeJson
  | .null => by rw [jsonValue, Scalar.toJson, Json.Value.text]
  | .value type text => by
    rw [jsonValue, Scalar.toJson]
    split
    · rw [Json.Value.text]
    · rw [Json.Value.text, Json.quoted]
  | .list [] => by
    rw [jsonValue, Scalar.toJson, itemsJson, Json.Value.text]
    rfl
  | .list (item :: items) => by
    have htail := itemsText_eq items
    rw [jsonValue, jsonItems, Scalar.toJson, itemsJson, Json.Value.text, ← jsonValue_eq item,
      ← htail, commaSeparated, append_assoc]
    rfl
  | .map [] => by
    rw [jsonValue, Scalar.toJson, entriesJson, Json.Value.text]
    rfl
  | .map ((key, value) :: entries) => by
    have htail := membersText_eq entries
    rw [jsonValue, jsonEntries, Scalar.toJson, entriesJson, Json.Value.text, ← jsonValue_eq value,
      ← htail, commaSeparated, Json.quoted]
    simp [commaTail]

theorem itemsText_eq : ∀ items : List Scalar,
    commaTail (jsonItems items) ++ [']'] = Json.itemsText escapeJson (itemsJson items)
  | [] => by
    rw [itemsJson, Json.itemsText]
    rfl
  | item :: items => by
    have htail := itemsText_eq items
    rw [jsonItems, itemsJson, Json.itemsText, ← jsonValue_eq item, ← htail]
    simp [commaTail]

theorem membersText_eq : ∀ entries : List (List Char × Scalar),
    commaTail (jsonEntries entries) ++ ['}'] = Json.membersText escapeJson (entriesJson entries)
  | [] => by
    rw [entriesJson, Json.membersText]
    rfl
  | (key, value) :: entries => by
    have htail := membersText_eq entries
    rw [jsonEntries, entriesJson, Json.membersText, ← jsonValue_eq value, ← htail, Json.quoted]
    simp [commaTail]

end

theorem jsonField_eq (name : List Char) (scalar : Scalar) :
    jsonField name scalar = Json.quoted escapeJson name ++ ':' :: scalar.toJson.text escapeJson := by
  rw [← jsonValue_eq, Json.quoted]
  cases scalar <;> simp [jsonField, jsonValue]

theorem members_eq (schema : List (List Char)) (row : List Scalar) :
    commaTail (List.zipWith jsonField schema row) ++ ['}'] =
      Json.membersText escapeJson (schema.zip (row.map Scalar.toJson)) := by
  induction schema generalizing row with
  | nil =>
    rw [zipWith_nil_left, zip_nil_left, Json.membersText]
    rfl
  | cons name schema ih =>
    cases row with
    | nil =>
      rw [zipWith_nil_right, map_nil, zip_nil_right, Json.membersText]
      rfl
    | cons scalar row =>
      rw [zipWith_cons_cons, map_cons, zip_cons_cons, Json.membersText, ← ih row,
        jsonField_eq]
      simp [commaTail]

theorem jsonRow_eq (schema : List (List Char)) (row : List Scalar) :
    jsonRow schema row = (rowJson schema row).text escapeJson ++ ['\n'] := by
  rw [rowJson]
  cases schema with
  | nil =>
    rw [zip_nil_left, Json.Value.text, jsonRow, zipWith_nil_left]
    rfl
  | cons name schema =>
    cases row with
    | nil =>
      rw [map_nil, zip_nil_right, Json.Value.text, jsonRow, zipWith_nil_right]
      rfl
    | cons scalar row =>
      rw [map_cons, zip_cons_cons, Json.Value.text, ← members_eq, jsonRow,
        zipWith_cons_cons, jsonField_eq, commaSeparated]
      simp [commaTail]

theorem csvCell_eq (scalar : Scalar) : csvCell scalar = escapeCsv (csvValue scalar) := by
  cases scalar <;> rfl

theorem recordText_eq (texts : List (List Char)) :
    commaSeparated texts ++ ['\n'] = Csv.recordText texts := by
  have htail : ∀ texts : List (List Char), commaTail texts ++ ['\n'] = Csv.fieldsText texts := by
    intro texts
    induction texts with
    | nil => rfl
    | cons text texts ih =>
      rw [Csv.fieldsText, ← ih]
      simp [commaTail]
  cases texts with
  | nil => rfl
  | cons text texts =>
    rw [Csv.recordText, ← htail, commaSeparated, append_assoc]
    rfl

theorem csvRow_eq (row : List Scalar) :
    csvRow row = Csv.recordText ((row.map csvValue).map escapeCsv) := by
  rw [csvRow, recordText_eq, map_map]
  congr 1
  exact map_congr_left fun scalar _ => csvCell_eq scalar

/-! ## 6. What is written

`formatQueryStream_eq`: the stream is written as the whole result, however it is cut. -/

section Written

variable {unique : Bool} {schema : List (List Char)} {batches : List RecordBatch}

theorem allRows_cons (batch : RecordBatch) (batches : List RecordBatch) :
    allRows (batch :: batches) = batch.rows ++ allRows batches :=
  flatMap_cons

theorem writeJsonLines_eq (h : ∀ batch ∈ batches, batch.schema = schema) :
    writeJsonLines (batches.map some) =
      Lines.stream '\n' (((allRows batches).map (rowJson schema)).map
        (Json.Value.text escapeJson)) := by
  induction batches with
  | nil => rfl
  | cons batch batches ih =>
    have hschema := h batch mem_cons_self
    have hrest := ih fun b hb => h b (mem_cons_of_mem _ hb)
    rw [writeJsonLines, map_cons, flatMap_cons, ← writeJsonLines, hrest, allRows_cons,
      map_append, map_append, Lines.stream_append]
    refine congrArg (· ++ _) ?_
    rw [Lines.stream, map_map, flatMap_map, ← hschema]
    exact congrArg (List.flatMap · batch.rows) (funext fun row => jsonRow_eq _ row)

theorem csvRows_eq (batches : List RecordBatch) :
    ((batches.map some).flatMap fun
      | none => []
      | some batch => batch.rows.flatMap csvRow) =
    ((allRows batches).map (·.map csvValue)).flatMap
      fun record => Csv.recordText (record.map escapeCsv) := by
  rw [flatMap_map, allRows, flatMap_map, flatMap_assoc]
  refine congrArg (List.flatMap · batches) (funext fun batch => ?_)
  exact congrArg (List.flatMap · batch.rows) (funext fun row => csvRow_eq row)

theorem writeCsv_eq (h : ∀ batch ∈ batches, batch.schema = schema) :
    writeCsv (batches.map some) =
      (csvRecords schema batches).flatMap fun record => Csv.recordText (record.map escapeCsv) := by
  cases batches with
  | nil => rfl
  | cons batch batches =>
    have hrows := csvRows_eq (batch :: batches)
    rw [map_cons] at hrows
    rw [map_cons, writeCsv, hrows, csvRecords, csvHeader, recordText_eq,
      h batch mem_cons_self]
    rfl

theorem formatStreamFrom_eq (format : QueryOutputFormat) (stream : List RecordBatch) :
    formatStreamFrom format true stream =
      match format with
      | .json => writeJsonLines (stream.map some)
      | .csv => (stream.map some).flatMap fun
        | none => []
        | some batch => batch.rows.flatMap csvRow := by
  induction stream with
  | nil => cases format <;> rfl
  | cons batch stream ih =>
    cases format with
    | json =>
      rw [formatStreamFrom, ih]
      simp [writeJsonLines]
    | csv =>
      rw [formatStreamFrom, ih]
      simp

/-- **The stream is written as the whole result.** -/
theorem formatQueryStream_eq (format : QueryOutputFormat) (stream : List RecordBatch) :
    formatQueryStream format stream = formatQueryResult format (stream.map some) := by
  cases stream with
  | nil => cases format <;> rfl
  | cons batch stream =>
    rw [formatQueryStream]
    cases format with
    | json =>
      rw [formatStreamFrom, formatStreamFrom_eq]
      simp [formatQueryResult, writeJsonLines]
    | csv =>
      rw [formatStreamFrom, formatStreamFrom_eq]
      simp [formatQueryResult, writeCsv]

theorem formatQueryResult_parts (format : QueryOutputFormat) {parts : List RecordBatch}
    (h : ∀ batch ∈ batches, batch.schema = schema) (hparts : ∀ part ∈ parts, part.schema = schema)
    (hrows : allRows parts = allRows batches) (hnil : parts = [] ↔ batches = []) :
    formatQueryResult format (parts.map some) = formatQueryResult format (batches.map some) := by
  cases format with
  | json => rw [formatQueryResult, formatQueryResult, writeJsonLines_eq h, writeJsonLines_eq hparts,
      hrows]
  | csv =>
    have hrecords : csvRecords schema parts = csvRecords schema batches := by
      rw [csvRecords, csvRecords, hrows]
      simp only [List.isEmpty_iff, hnil]
    rw [formatQueryResult, formatQueryResult, writeCsv_eq h, writeCsv_eq hparts, hrecords]

end Written

/-! ## 7. What a reader finds

`nan_not_recovered` is the other case: the text of a number is written as it is, also `nan`, and the
line is then no JSON text. -/

mutual

theorem toJson_wellFormed (unique : Bool) : ∀ scalar : Scalar,
    scalar.toJson.wellFormed unique = scalar.recoverable unique
  | .null => by rw [Scalar.toJson, Json.Value.wellFormed, Scalar.recoverable]
  | .value type text => by
    rw [Scalar.toJson, Scalar.recoverable]
    split
    · rename_i htype
      rw [Json.Value.wellFormed, htype]
      rfl
    · rename_i htype
      rw [Json.Value.wellFormed, Bool.eq_false_iff.mpr htype]
      rfl
  | .list items => by
    rw [Scalar.toJson, Json.Value.wellFormed, Scalar.recoverable, itemsJson_wellFormed unique items]
  | .map entries => by
    have hkeys : (entriesJson entries).map Prod.fst = entries.map Prod.fst := entriesJson_keys entries
    rw [Scalar.toJson, Json.Value.wellFormed, Scalar.recoverable, hkeys,
      entriesJson_wellFormed unique entries]

theorem itemsJson_wellFormed (unique : Bool) : ∀ items : List Scalar,
    Json.itemsWellFormed unique (itemsJson items) = itemsRecoverable unique items
  | [] => by rw [itemsJson, Json.itemsWellFormed, itemsRecoverable]
  | item :: items => by
    rw [itemsJson, Json.itemsWellFormed, itemsRecoverable, toJson_wellFormed unique item,
      itemsJson_wellFormed unique items]

theorem entriesJson_wellFormed (unique : Bool) : ∀ entries : List (List Char × Scalar),
    Json.membersWellFormed unique (entriesJson entries) = entriesRecoverable unique entries
  | [] => by rw [entriesJson, Json.membersWellFormed, entriesRecoverable]
  | (key, value) :: entries => by
    rw [entriesJson, Json.membersWellFormed, entriesRecoverable, toJson_wellFormed unique value,
      entriesJson_wellFormed unique entries]

theorem entriesJson_keys : ∀ entries : List (List Char × Scalar),
    (entriesJson entries).map Prod.fst = entries.map Prod.fst
  | [] => by rw [entriesJson]; rfl
  | (key, value) :: entries => by
    rw [entriesJson, map_cons, map_cons, entriesJson_keys entries]

end

theorem zip_wellFormed (unique : Bool) : ∀ {schema : List (List Char)} {row : List Scalar},
    row.length = schema.length →
    Json.membersWellFormed unique (schema.zip (row.map Scalar.toJson)) =
      row.all (Scalar.recoverable unique)
  | [], [], _ => by
    rw [zip_nil_left, Json.membersWellFormed]
    rfl
  | name :: schema, scalar :: row, h => by
    rw [map_cons, zip_cons_cons, Json.membersWellFormed, all_cons,
      toJson_wellFormed unique scalar, zip_wellFormed unique (Nat.succ.inj h)]

theorem rowJson_wellFormed (unique : Bool) {schema : List (List Char)} {row : List Scalar}
    (h : row.length = schema.length) :
    (rowJson schema row).wellFormed unique = rowRecoverable unique schema row := by
  have hnames : (schema.zip (row.map Scalar.toJson)).map Prod.fst = schema :=
    map_fst_zip (by rw [length_map, h])
  rw [rowJson, Json.Value.wellFormed, hnames, zip_wellFormed unique h, rowRecoverable]

section Recovered

variable {unique : Bool} {schema : List (List Char)} {batches : List RecordBatch}

theorem allRows_width (h : ∀ batch ∈ batches, batch.schema = schema) :
    ∀ row ∈ allRows batches, row.length = schema.length := by
  intro row hrow
  obtain ⟨batch, hbatch, hmem⟩ := mem_flatMap.mp hrow
  rw [← h batch hbatch]
  exact batch.width row hmem

/-- **The objects are found exactly if the rows allow it.** -/
theorem json_recovered_iff (h : ∀ batch ∈ batches, batch.schema = schema) :
    Json.readLines unique (writeJsonLines (batches.map some)) =
        some ((allRows batches).map (rowJson schema)) ↔
      ∀ row ∈ allRows batches, rowRecoverable unique schema row = true := by
  rw [writeJsonLines_eq h]
  have hwidth := allRows_width h
  constructor
  · intro hread row hrow
    rw [← rowJson_wellFormed unique (hwidth row hrow)]
    exact Json.wellFormed_of_readLines hread _ (mem_map_of_mem hrow)
  · intro hrows
    refine Json.readLines_text escapeJson_undone newline_notMem_escapeJson fun value hvalue => ?_
    obtain ⟨row, hrow, rfl⟩ := mem_map.mp hvalue
    rw [rowJson_wellFormed unique (hwidth row hrow)]
    exact hrows row hrow

/-- **The records are found exactly if there is a column.** -/
theorem csv_recovered_iff (h : ∀ batch ∈ batches, batch.schema = schema) :
    Csv.read (writeCsv (batches.map some)) = some (csvRecords schema batches) ↔
      batches = [] ∨ schema ≠ [] := by
  rw [writeCsv_eq h]
  have hwidth := allRows_width h
  cases batches with
  | nil => exact ⟨fun _ => .inl rfl, fun _ => rfl⟩
  | cons batch batches =>
    constructor
    · intro hread
      exact .inr (Csv.ne_nil_of_read hread schema mem_cons_self)
    · rintro (hnil | hschema)
      · cases hnil
      · refine Csv.read_records escapeCsv_written fun record hrecord => ?_
        rcases mem_cons.mp hrecord with rfl | hrecord
        · exact hschema
        · obtain ⟨row, hrow, rfl⟩ := mem_map.mp hrecord
          intro hnil
          have hlength := hwidth row hrow
          rw [map_eq_nil_iff.mp hnil] at hlength
          exact hschema (eq_nil_of_length_eq_zero hlength.symm)

/-- **What was written can be read**, by a stream or in one go, and however the rows are cut into
batches: a reader finds the rows, the fields and the texts of the fields exactly if every number is
a literal of JSON and there is a column.  A reader that asks for distinct names in an object
(`unique`) needs them too. -/
theorem formatted_recovered_iff (unique : Bool) (schema : List (List Char))
    (batches : List RecordBatch) (hschema : ∀ batch ∈ batches, batch.schema = schema) :
    (Recovered unique schema batches ∧
      ∀ format parts, (∀ part ∈ parts, part.schema = schema) → allRows parts = allRows batches →
        (parts = [] ↔ batches = []) →
        formatQueryStream format parts = formatQueryResult format (batches.map some)) ↔
    (∀ row ∈ allRows batches, rowRecoverable unique schema row = true) ∧
      (batches = [] ∨ schema ≠ []) := by
  have hstream : ∀ format parts, (∀ part ∈ parts, part.schema = schema) →
      allRows parts = allRows batches → (parts = [] ↔ batches = []) →
      formatQueryStream format parts = formatQueryResult format (batches.map some) := by
    intro format parts hparts hrows hnil
    rw [formatQueryStream_eq, formatQueryResult_parts format hschema hparts hrows hnil]
  rw [and_iff_left hstream]
  exact and_congr (json_recovered_iff hschema) (csv_recovered_iff hschema)

end Recovered

/-- Commas, quotes, line ends, a NULL and nested values are recovered from both formats. -/
theorem texts_recovered :
    Recovered true ["pv".toList, "v\"1".toList]
      [⟨["pv".toList, "v\"1".toList],
        [[.value .other "a,\"b\"\n".toList, .value .double "-1.5e+20".toList],
          [.null, .list [.value .bool "true".toList, .map [([], .null)]]]], by decide⟩] :=
  ((formatted_recovered_iff true ["pv".toList, "v\"1".toList]
    [⟨["pv".toList, "v\"1".toList],
      [[.value .other "a,\"b\"\n".toList, .value .double "-1.5e+20".toList],
        [.null, .list [.value .bool "true".toList, .map [([], .null)]]]], by decide⟩]
    (fun _ h => by rw [mem_singleton.mp h])).mpr
      ⟨by decide +kernel, .inr (by decide)⟩).1

/-- **Not for every number**: `nan` stands in the line as it is, and the line is no JSON text. -/
theorem nan_not_recovered :
    ¬ Recovered false ["v".toList]
      [⟨["v".toList], [[.value .double "nan".toList]], by decide⟩] := by
  intro h
  have hread := congrArg Option.isSome h.1
  revert hread
  decide +kernel

end MldpDriver.Query.Formatter
