/-
# The common schema of UNION branches

Branches of a UNION may select columns of different types: `unifySchemas` gives every column a type
that covers the types of the branches, and `conformBatch` casts a batch to it.  A cast is done by
Arrow's kernels (`Compute`), which work value by value.
-/
import MldpDriver.Lib.Loop
import MldpDriver.Query.RowDeduplicator

namespace MldpDriver.Query.Union

open MldpDriver.Arrow List
open Distinct (RowTyped)
open Lib.Loop

/-! ## 1. Types -/

inductive TimeUnit where
  | second | milli | micro | nano
  deriving DecidableEq

def TimeUnit.text : TimeUnit → String
  | .second => "s"
  | .milli => "ms"
  | .micro => "us"
  | .nano => "ns"

/-- `arrow::DataType`; a type the union only compares is its text. -/
inductive DataType where
  | na
  | integer (signed : Bool) (bits : Nat)
  | floating (bits : Nat)
  | timestamp (unit : TimeUnit) (timezone : String)
  | other (text : String)
  deriving DecidableEq

namespace DataType

def int64 : DataType := .integer true 64

def float64 : DataType := .floating 64

def isInteger : DataType → Bool
  | .integer _ _ => true
  | _ => false

def isFloating : DataType → Bool
  | .floating _ => true
  | _ => false

def numeric (type : DataType) : Bool := type.isInteger || type.isFloating

/-- `ToString` -/
def text : DataType → String
  | .na => "null"
  | .integer signed bits => (if signed then "int" else "uint") ++ toString bits
  | .floating bits => if bits = 16 then "halffloat" else if bits = 32 then "float" else "double"
  | .timestamp unit timezone =>
    "timestamp[" ++ unit.text ++ (if timezone = "" then "" else ", tz=" ++ timezone) ++ "]"
  | .other text => text

end DataType

abbrev Schema := List (Arrow.Field DataType)

/-- Common type of two branch columns at the same position, or nothing when incompatible. -/
def unifyTypes (left right : DataType) : Option DataType :=
  if left = right then some left
  else if left = .na then some right
  else if right = .na then some left
  else if left.numeric && right.numeric then
    some (if left.isFloating || right.isFloating then .float64 else .int64)
  else
    match left, right with
    | .timestamp _ timezone, .timestamp _ _ => some (.timestamp .nano timezone)
    | _, _ => none

def unifyField (branch : Nat) (field other : Arrow.Field DataType) :
    Except String (Arrow.Field DataType) :=
  match unifyTypes field.type other.type with
  | some type => .ok { name := field.name, type := type, nullable := true }
  | none => .error ("UNION column '" ++ field.name ++ "' has incompatible types " ++
      field.type.text ++ " and " ++ other.type.text ++ " in branch " ++ toString (branch + 1))

/-- A further branch. -/
def unifySchema (branch : Nat) (result schema : Schema) : Except String Schema :=
  if schema.length ≠ result.length then
    .error ("UNION branches must select the same number of columns: " ++ toString result.length ++
      " vs " ++ toString schema.length ++ " in branch " ++ toString (branch + 1))
  else (result.zip schema).mapM fun fields => unifyField branch fields.1 fields.2

section Batches

variable {V : Type}

/-- `RecordBatches`: pointers to batches. -/
abbrev RecordBatches (V : Type) := List (Option (Arrow.RecordBatch DataType V))

/-- The body of the loop: only the first batch of a branch is looked at. -/
def unifyBranch (result : Option Schema) (branch : RecordBatches V × Nat) :
    Except String (Option Schema) :=
  match branch.1.head?.join, result with
  | none, result => .ok result
  | some front, none => .ok (some front.schema)
  | some front, some result => (unifySchema branch.2 result front.schema).map some

/-- Output schema of the union: first-branch names, per-column unified types. -/
def unifySchemas (branches : List (RecordBatches V)) : Except String (Option Schema) :=
  branches.zipIdx.foldlM unifyBranch none

end Batches

/-! ## 2. The order of the common types

`Widens` is the order of the common types.  On the rows a cast is `castRow`
(`conformBatch_outcome`), which may be done in two steps (`castRow_coherent`) and keeps different
rows different (`castRow_injective`). -/

inductive Widens : DataType → DataType → Prop
  | refl (type : DataType) : Widens type type
  | na (type : DataType) : Widens .na type
  | integer (signed : Bool) (bits : Nat) : Widens (.integer signed bits) .int64
  | integerFloating (signed : Bool) (bits : Nat) : Widens (.integer signed bits) .float64
  | floating (bits : Nat) : Widens (.floating bits) .float64
  | timestamp (unit : TimeUnit) (timezone timezone' : String) :
      Widens (.timestamp unit timezone) (.timestamp .nano timezone')

theorem Widens.trans {t u w : DataType} (h : Widens t u) (h' : Widens u w) : Widens t w := by
  cases h with
  | refl => exact h'
  | na => exact .na w
  | integer signed bits =>
    cases h' with
    | refl => exact .integer signed bits
    | integer => exact .integer signed bits
    | integerFloating => exact .integerFloating signed bits
  | integerFloating signed bits =>
    cases h' with
    | refl => exact .integerFloating signed bits
    | floating => exact .integerFloating signed bits
  | floating bits =>
    cases h' with
    | refl => exact .floating bits
    | floating => exact .floating bits
  | timestamp unit timezone timezone' =>
    cases h' with
    | refl => exact .timestamp unit timezone _
    | timestamp => exact .timestamp unit timezone _

theorem numeric_widens {type : DataType} (h : type.numeric = true) : Widens type .float64 := by
  cases type with
  | integer signed bits => exact .integerFloating signed bits
  | floating bits => exact .floating bits
  | _ => cases h

theorem integer_widens {type : DataType} (h : type.numeric = true) (h' : type.isFloating = false) :
    Widens type .int64 := by
  cases type with
  | integer signed bits => exact .integer signed bits
  | floating bits => cases h'
  | _ => cases h

/-- **A common type covers both types.** -/
theorem unifyTypes_widens {t u w : DataType} (h : unifyTypes t u = some w) :
    Widens t w ∧ Widens u w := by
  unfold unifyTypes at h
  split at h
  · next heq =>
    obtain rfl := Option.some.inj h
    exact ⟨.refl t, heq ▸ .refl t⟩
  split at h
  · next hna =>
    obtain rfl := Option.some.inj h
    exact ⟨hna ▸ .na u, .refl u⟩
  split at h
  · next hna =>
    obtain rfl := Option.some.inj h
    exact ⟨.refl t, hna ▸ .na t⟩
  split at h
  · next hnumeric =>
    obtain ⟨ht, hu⟩ := Bool.and_eq_true_iff.mp hnumeric
    split at h
    · obtain rfl := Option.some.inj h
      exact ⟨numeric_widens ht, numeric_widens hu⟩
    · next hfloating =>
      obtain rfl := Option.some.inj h
      obtain ⟨ht', hu'⟩ := Bool.or_eq_false_iff.mp (Bool.eq_false_iff.mpr hfloating)
      exact ⟨integer_widens ht ht', integer_widens hu hu'⟩
  split at h
  · obtain rfl := Option.some.inj h
    exact ⟨.timestamp _ _ _, .timestamp _ _ _⟩
  · cases h

/-- The columns of a schema. -/
abbrev Columns := List (String × DataType)

def columnsOf (schema : Schema) : Columns := schema.map fun field => (field.name, field.type)

def typesOf (columns : Columns) : List DataType := columns.map Prod.snd

/-- The common columns of two branches, with the names of the first. -/
def joinColumns : Columns → Columns → Option Columns
  | [], [] => some []
  | column :: columns, other :: others => do
    let type ← unifyTypes column.2 other.2
    let rest ← joinColumns columns others
    some ((column.1, type) :: rest)
  | _, _ => none

/-- One schema more; there is none at first. -/
def addColumns (common : Option Columns) (columns : Columns) : Option (Option Columns) :=
  match common with
  | none => some (some columns)
  | some common => (joinColumns common columns).map some

/-- The common columns of some schemas. -/
def commonColumns (schemas : List Columns) : Option (Option Columns) := schemas.foldlM addColumns none

def Covers (target columns : List DataType) : Prop := List.Forall₂ Widens columns target

theorem joinColumns_covers {columns others common : Columns}
    (h : joinColumns columns others = some common) :
    Covers (typesOf common) (typesOf columns) ∧ Covers (typesOf common) (typesOf others) := by
  induction columns generalizing others common with
  | nil =>
    cases others with
    | nil =>
      obtain rfl := Option.some.inj h
      exact ⟨.nil, .nil⟩
    | cons => cases h
  | cons column columns ih =>
    cases others with
    | nil => cases h
    | cons other others =>
      simp only [joinColumns, Option.bind_eq_bind, Option.bind_eq_some_iff, Option.some.injEq] at h
      obtain ⟨type, htype, rest, hrest, rfl⟩ := h
      obtain ⟨hleft, hright⟩ := unifyTypes_widens htype
      obtain ⟨hcolumns, hothers⟩ := ih hrest
      exact ⟨.cons hleft hcolumns, .cons hright hothers⟩

theorem Covers.trans {t u w : List DataType} (h : Covers u t) (h' : Covers w u) : Covers w t := by
  induction h generalizing w with
  | nil => exact h'
  | cons hhead _ ih =>
    cases h' with
    | cons hhead' htail' => exact .cons (hhead.trans hhead') (ih htail')

/-- `unifySchema` joins the columns. -/
theorem unifySchema_outcome (branch : Nat) (result schema : Schema) :
    Outcome (unifySchema branch result schema)
      (fun out => joinColumns (columnsOf result) (columnsOf schema) = some (columnsOf out))
      (joinColumns (columnsOf result) (columnsOf schema) = none) := by
  unfold unifySchema
  induction result generalizing schema with
  | nil =>
    cases schema with
    | nil => exact .ok rfl
    | cons => exact .error rfl
  | cons field result ih =>
    cases schema with
    | nil => exact .error rfl
    | cons other schema =>
      have hjoin : joinColumns (columnsOf (field :: result)) (columnsOf (other :: schema)) =
          (unifyTypes field.type other.type).bind fun type =>
            (joinColumns (columnsOf result) (columnsOf schema)).map ((field.name, type) :: ·) := by
        simp only [columnsOf, map_cons, joinColumns, Option.bind_eq_bind]
        congr 1
        funext type
        cases joinColumns (result.map _) (schema.map _) <;> rfl
      have hrest := ih schema
      rw [hjoin]
      by_cases hlength : schema.length = result.length
      · rw [if_neg (by simpa using hlength)] at hrest ⊢
        rw [zip_cons_cons, mapM_cons]
        cases htype : unifyTypes field.type other.type with
        | none =>
          refine Or.inr ⟨⟨_, by rw [unifyField, htype]; rfl⟩, rfl⟩
        | some type =>
          rw [show unifyField branch field other =
            .ok { name := field.name, type := type, nullable := true } by rw [unifyField, htype]]
          change Outcome ((result.zip schema).mapM _ >>= fun rest => .ok (_ :: rest)) _ _
          refine Outcome.bind (hrest.mono (fun out hout => hout) fun hnone => ?_) fun out hout => ?_
          · rw [Option.bind_some, hnone]
            rfl
          · refine .ok ?_
            rw [Option.bind_some, hout]
            rfl
      · rw [if_pos (by simpa using hlength)] at hrest ⊢
        refine .error ?_
        rcases hrest with ⟨_, h, -⟩ | ⟨-, hnone⟩
        · cases h
        · rw [hnone]
          cases unifyTypes field.type other.type <;> rfl

theorem commonColumns_append (schemas more : List Columns) :
    commonColumns (schemas ++ more) =
      (commonColumns schemas).bind fun common => more.foldlM addColumns common :=
  foldlM_append

theorem addColumns_ne_none {common : Option Columns} {columns : Columns} :
    addColumns common columns ≠ some none := by
  cases common with
  | none => simp [addColumns]
  | some common => simp [addColumns]

theorem commonColumns_eq_none {schemas : List Columns} :
    commonColumns schemas = some none ↔ schemas = [] := by
  refine ⟨fun h => ?_, fun h => by rw [h]; rfl⟩
  rcases eq_nil_or_concat schemas with rfl | ⟨schemas, columns, rfl⟩
  · rfl
  · rw [concat_eq_append, commonColumns_append, Option.bind_eq_some_iff] at h
    obtain ⟨common, -, h⟩ := h
    rw [foldlM_cons] at h
    obtain ⟨result, hresult, h⟩ := Option.bind_eq_some_iff.mp h
    obtain rfl := Option.some.inj h
    exact absurd hresult addColumns_ne_none

/-- The types a cast may go to: those that cover the common types. -/
def Below (target : List DataType) (common : Option Columns) : Prop :=
  ∀ columns ∈ common, Covers target (typesOf columns)

variable {target : List DataType}

theorem foldlM_below {schemas : List Columns} {start common : Option Columns}
    (h : schemas.foldlM addColumns start = some common) (hbelow : Below target common) :
    Below target start ∧ ∀ columns ∈ schemas, Covers target (typesOf columns) := by
  induction schemas generalizing start with
  | nil =>
    obtain rfl := Option.some.inj h
    exact ⟨hbelow, by simp⟩
  | cons columns schemas ih =>
    rw [foldlM_cons] at h
    obtain ⟨next, hnext, h⟩ := Option.bind_eq_some_iff.mp h
    obtain ⟨hstart, hall⟩ := ih h
    cases start with
    | none =>
      obtain rfl := Option.some.inj hnext
      refine ⟨?_, forall_mem_cons.mpr ⟨hstart columns rfl, hall⟩⟩
      rintro columns ⟨⟩
    | some first =>
      obtain ⟨joined, hjoined, rfl⟩ := Option.map_eq_some_iff.mp hnext
      obtain ⟨hleft, hright⟩ := joinColumns_covers hjoined
      refine ⟨?_, forall_mem_cons.mpr ⟨hright.trans (hstart joined rfl), hall⟩⟩
      rintro columns ⟨⟩
      exact hleft.trans (hstart joined rfl)

/-- The columns of the first batch. -/
def front {V : Type} (branch : RecordBatches V) : List Columns :=
  (branch.head?.join.map fun batch => columnsOf batch.schema).toList

/-- **`unifySchemas` takes the common columns of the first batches.** -/
theorem unifySchemas_outcome {V : Type} (branches : List (RecordBatches V)) :
    Outcome (unifySchemas branches)
      (fun schema => commonColumns (branches.flatMap front) = some (schema.map columnsOf))
      (commonColumns (branches.flatMap front) = none) := by
  suffices h : ∀ (n : Nat) (result : Option Schema),
      Outcome ((branches.zipIdx n).foldlM unifyBranch result)
        (fun schema => (branches.flatMap front).foldlM addColumns (result.map columnsOf) =
          some (schema.map columnsOf))
        ((branches.flatMap front).foldlM addColumns (result.map columnsOf) = none) from h 0 none
  induction branches with
  | nil => exact fun n result => .ok rfl
  | cons branch branches ih =>
    intro n result
    rw [zipIdx_cons, foldlM_cons, flatMap_cons, foldlM_append]
    have hbranch : Outcome (unifyBranch result (branch, n))
        (fun next => (front branch).foldlM addColumns (result.map columnsOf) =
          some (next.map columnsOf))
        ((front branch).foldlM addColumns (result.map columnsOf) = none) := by
      dsimp only [unifyBranch, front]
      cases branch.head?.join with
      | none => exact .ok rfl
      | some batch =>
        cases result with
        | none => exact .ok rfl
        | some result =>
          dsimp only
          rcases unifySchema_outcome n result batch.schema with
            ⟨schema, hschema, hjoin⟩ | ⟨⟨e, he⟩, hnone⟩
          · refine .inl ⟨some schema, by rw [hschema]; rfl, ?_⟩
            simp [addColumns, hjoin]
          · refine .inr ⟨⟨e, by rw [he]; rfl⟩, ?_⟩
            simp [addColumns, hnone]
    refine Outcome.bind (hbranch.mono (fun next hnext => hnext) fun hnone => ?_) fun next hnext => ?_
    · rw [hnone]
      rfl
    · rw [hnext]
      exact ih (n + 1) next

/-! ## 3. Casts -/

/-- Arrow's cast kernels: the pairs of types there is one for, and what it does to a value; the text
of a failure is Arrow's. -/
structure Compute (V : Type) where
  supports : DataType → DataType → Bool
  castValue : DataType → V → Except String V
  unsupported : DataType → DataType → String

variable {V : Type} (compute : Compute V)

/-- `arrow::compute::Cast` on an array. -/
def Compute.cast (type target : DataType) (column : List (Option V)) :
    Except String (List (Option V)) :=
  if compute.supports type target then
    column.mapM fun cell =>
      match cell with
      | none => .ok none
      | some value => (compute.castValue target value).map some
  else .error (compute.unsupported type target)

def castColumn (name : String) (type target : DataType) (column : List (Option V)) :
    Except String (List (Option V)) :=
  if type = target then .ok column
  else if type = .na then .ok (List.replicate column.length none)
  else
    match compute.cast type target column with
    | .ok column => .ok column
    | .error status => .error ("UNION cannot convert column '" ++ name ++ "': " ++ status)

/-- The loop over the fields of the schema; `batch->column(index)` needs a column. -/
def conformColumns : Schema → List (List (Option V)) → Schema →
    Except String (List (List (Option V)))
  | _, _, [] => .ok []
  | field :: fields, column :: columns, target :: targets => do
    let column ← castColumn compute target.name field.type target.type column
    let rest ← conformColumns fields columns targets
    .ok (column :: rest)
  | _, _, _ :: _ => .error "column index out of range"

/-- The value of a cell in the target type. -/
def Compute.convert (type target : DataType) (value : V) : Option V :=
  if type = target then some value else (compute.castValue target value).toOption

def castCell (type target : DataType) : Option V → Option (Option V)
  | none => some none
  | some value => (compute.convert type target value).map some

/-- A row in the target types. -/
def castRow : List DataType → List DataType → List (Option V) → Option (List (Option V))
  | type :: types, target :: targets, cell :: cells => do
    let cell ← castCell compute type target cell
    let rest ← castRow types targets cells
    some (cell :: rest)
  | _, _, _ => some []

/-- What Arrow promises of casts to a wider type: there is a kernel, a value gets the type, a cast
in two steps is a cast in one when the first succeeds, and values that differ stay different (the
casts are checked: a value that does not fit fails). -/
structure Lawful (typeOf : V → DataType) : Prop where
  noNull : ∀ value, typeOf value ≠ .na
  supported : ∀ {t w}, Widens t w → t ≠ w → t ≠ .na → compute.supports t w = true
  typed : ∀ {t w value result}, Widens t w → typeOf value = t →
    compute.convert t w value = some result → typeOf result = w
  coherent : ∀ {t u w value result}, Widens t u → Widens u w → typeOf value = t →
    compute.convert t u value = some result →
    compute.convert u w result = compute.convert t w value
  injective : ∀ {t w value value' result}, Widens t w → typeOf value = t → typeOf value' = t →
    compute.convert t w value = some result → compute.convert t w value' = some result →
    value = value'

variable {compute}

theorem castColumn_length {name : String} {type target : DataType} {column out : List (Option V)}
    (h : castColumn compute name type target column = .ok out) : out.length = column.length := by
  unfold castColumn at h
  split at h
  · exact congrArg List.length (Except.ok.inj h).symm
  split at h
  · rw [← Except.ok.inj h, length_replicate]
  unfold Compute.cast at h
  split at h
  · next hcast =>
    obtain rfl := Except.ok.inj h
    split at hcast
    · rw [← (mapM_eq_ok_iff none).mp hcast |>.2, length_map]
    · cases hcast
  · cases h

theorem conformColumns_length {n : Nat} {fields targets : Schema}
    {columns out : List (List (Option V))} (hcolumns : ∀ column ∈ columns, column.length = n)
    (h : conformColumns compute fields columns targets = .ok out) :
    out.length = targets.length ∧ ∀ column ∈ out, column.length = n := by
  induction targets generalizing fields columns out with
  | nil =>
    obtain rfl : [] = out := by simpa [conformColumns] using h
    exact ⟨rfl, by simp⟩
  | cons target targets ih =>
    cases fields with
    | nil => cases h
    | cons field fields =>
      cases columns with
      | nil => cases h
      | cons column columns =>
        rw [conformColumns] at h
        cases hcast : castColumn compute target.name field.type target.type column with
        | error e => simp [hcast, bind, Except.bind] at h
        | ok cast =>
          cases hrest : conformColumns compute fields columns targets with
          | error e => simp [hcast, hrest, bind, Except.bind] at h
          | ok rest =>
            rw [hcast, hrest] at h
            obtain rfl := Except.ok.inj h
            obtain ⟨hlength, hall⟩ := ih (forall_mem_cons.mp hcolumns).2 hrest
            refine ⟨congrArg (· + 1) hlength, forall_mem_cons.mpr ⟨?_, hall⟩⟩
            rw [castColumn_length hcast]
            exact (forall_mem_cons.mp hcolumns).1

variable (compute) in
/-- Renames and casts a branch batch to the union output schema. -/
def conformBatch (batch : Arrow.RecordBatch DataType V) (schema : Schema) :
    Except String (Arrow.RecordBatch DataType V) :=
  match h : conformColumns compute batch.schema batch.columns schema with
  | .error e => .error e
  | .ok columns => .ok
      { schema := schema
        numRows := batch.numRows
        columns := columns
        columns_length := (conformColumns_length batch.column_length h).1
        column_length := (conformColumns_length batch.column_length h).2 }

/-! ## 4. Rows -/

/-- The rows of a batch with their types. -/
def typedRows (batch : Arrow.RecordBatch DataType V) : List (List DataType × List (Option V)) :=
  batch.rows.map fun row => (batch.schema.map (·.type), row)

variable (compute) in
/-- Rows cast to the types of a schema. -/
def castRows (target : List DataType) (rows : List (List DataType × List (Option V))) :
    Option (List (List (Option V))) :=
  rows.mapM fun row => castRow compute row.1 target row.2

theorem castRows_append (target : List DataType) (rows more : List (List DataType × List (Option V))) :
    castRows compute target (rows ++ more) =
      (castRows compute target rows).bind fun left =>
        (castRows compute target more).map (left ++ ·) := by
  rw [castRows, castRows, castRows, mapM_append]
  cases rows.mapM fun row => castRow compute row.1 target row.2 with
  | none => rfl
  | some left =>
    cases more.mapM fun row => castRow compute row.1 target row.2 with
    | none => rfl
    | some right => rfl

variable {rows : List (List DataType × List (Option V))}

theorem castRows_eq_some {results : List (List (Option V))} :
    castRows compute target rows = some results ↔
      (∀ row ∈ rows, ∃ result, castRow compute row.1 target row.2 = some result) ∧
        rows.map (fun row => (castRow compute row.1 target row.2).getD []) = results :=
  mapM_eq_some_iff []

theorem castRows_eq_none :
    castRows compute target rows = none ↔
      ∃ row ∈ rows, castRow compute row.1 target row.2 = none := by
  rw [Option.eq_none_iff_forall_ne_some]
  constructor
  · intro h
    by_contra hall
    push Not at hall
    exact h _ (castRows_eq_some.mpr
      ⟨fun row hrow => Option.ne_none_iff_exists'.mp (hall row hrow), rfl⟩)
  · rintro ⟨row, hrow, hnone⟩ results hresults
    obtain ⟨result, hresult⟩ := (castRows_eq_some.mp hresults).1 row hrow
    rw [hnone] at hresult
    cases hresult

section Lawful

variable {typeOf : V → DataType} (hlaw : Lawful compute typeOf)
include hlaw

theorem castColumn_outcome {t w : DataType} (h : Widens t w) (name : String)
    {column : List (Option V)} (htyped : ∀ v, some v ∈ column → typeOf v = t) :
    Outcome (castColumn compute name t w column)
      (fun out => ∀ i < column.length, castCell compute t w (slot column i) = some (slot out i))
      (∃ i < column.length, castCell compute t w (slot column i) = none) := by
  have hslot : ∀ (l : List (Option V)) (i : Nat) (hi : i < l.length), slot l i = l[i] := by
    intro l i hi
    rw [slot, List.getElem?_eq_getElem hi, Option.join_some]
  unfold castColumn
  split
  · next heq =>
    refine .ok fun i hi => ?_
    subst heq
    cases slot column i with
    | none => rfl
    | some v => simp [castCell, Compute.convert]
  next hne =>
  split
  · next hna =>
    refine .ok fun i hi => ?_
    have hnone : slot column i = none := by
      rw [hslot _ _ hi]
      cases hcell : column[i] with
      | none => rfl
      | some v =>
        exact absurd ((htyped v (hcell ▸ getElem_mem hi)).trans hna) (hlaw.noNull v)
    rw [hnone, hslot _ _ (by simpa using hi), getElem_replicate]
    rfl
  next hna =>
  have hcast : Outcome (compute.cast t w column)
      (fun out => out = column.map (fun cell => (castCell compute t w cell).getD none) ∧
        ∀ cell ∈ column, ¬ castCell compute t w cell = none)
      (∃ cell ∈ column, castCell compute t w cell = none) := by
    rw [Compute.cast, if_pos (hlaw.supported h hne hna)]
    refine mapM_outcome fun cell _ => ?_
    cases cell with
    | none => exact .ok ⟨rfl, by simp [castCell]⟩
    | some v =>
      simp only [castCell, Compute.convert, if_neg hne]
      cases compute.castValue w v with
      | error e => exact .error rfl
      | ok result => exact .ok ⟨rfl, by simp [Except.toOption]⟩
  rcases hcast with ⟨out, hout, rfl, hgood⟩ | ⟨⟨e, he⟩, cell, hcell, hbad⟩
  · rw [hout]
    refine .ok fun i hi => ?_
    rw [hslot _ _ hi, hslot _ _ (by simpa using hi), getElem_map]
    obtain ⟨result, hresult⟩ := Option.ne_none_iff_exists'.mp (hgood _ (getElem_mem hi))
    rw [hresult, Option.getD_some]
  · rw [he]
    obtain ⟨i, hi, rfl⟩ := getElem_of_mem hcell
    exact .error ⟨i, hi, by rw [hslot _ _ hi]; exact hbad⟩

theorem conformColumns_outcome {fields targets : Schema}
    (h : List.Forall₂ (fun field target => Widens field.type target.type) fields targets) {n : Nat}
    {columns : List (List (Option V))} (hlength : ∀ column ∈ columns, column.length = n)
    (htyped : List.Forall₂ (fun field column => ∀ v, some v ∈ column → typeOf v = field.type)
      fields columns) :
    Outcome (conformColumns compute fields columns targets)
      (fun out => ∀ i < n, castRow compute (fields.map (·.type)) (targets.map (·.type))
        (columns.map (slot · i)) = some (out.map (slot · i)))
      (∃ i < n, castRow compute (fields.map (·.type)) (targets.map (·.type))
        (columns.map (slot · i)) = none) := by
  induction h generalizing columns with
  | nil =>
    cases htyped
    exact .ok fun _ _ => rfl
  | @cons field target fields targets hwiden _ ih =>
    cases htyped with
    | @cons _ column _ columns hcolumn hcolumns =>
      obtain ⟨hn, hrest⟩ := forall_mem_cons.mp hlength
      subst hn
      rw [conformColumns]
      refine Outcome.bind ((castColumn_outcome hlaw hwiden target.name hcolumn).mono
        (fun out hout => hout) ?_) fun out hout => ?_
      · rintro ⟨i, hi, hnone⟩
        exact ⟨i, hi, by simp [castRow, hnone]⟩
      refine Outcome.bind ((ih hrest hcolumns).mono (fun rest hrest => hrest) ?_) fun rest hrest => ?_
      · rintro ⟨i, hi, hnone⟩
        exact ⟨i, hi, by simp [castRow, hnone]⟩
      · exact .ok fun i hi => by simp [castRow, hout i hi, hrest i hi]

variable {batch : Arrow.RecordBatch DataType V}

omit hlaw in
theorem wellTyped_iff :
    batch.WellTyped typeOf ↔
      ∀ r ∈ batch.rows, RowTyped typeOf (batch.schema.map (·.type)) r := by
  constructor
  · intro h r hr
    obtain ⟨i, hi, rfl⟩ := Arrow.RecordBatch.mem_rows.mp hr
    exact Distinct.row_typed h hi
  · intro h r hr i field v hfield hv
    obtain ⟨hlength, hget⟩ := List.forall₂_iff_get.mp (h r hr)
    obtain ⟨hi, rfl⟩ := List.getElem?_eq_some_iff.mp hfield
    have hi' : i < r.length := by
      rw [← hlength, length_map]
      exact hi
    rw [List.getElem?_eq_getElem hi', Option.join_some] at hv
    have := hget i (by simpa using hi) hi' v hv
    simpa using this

omit hlaw in
theorem columns_typed (h : batch.WellTyped typeOf) :
    List.Forall₂ (fun field column => ∀ v, some v ∈ column → typeOf v = field.type)
      batch.schema batch.columns := by
  refine List.forall₂_iff_get.mpr ⟨batch.columns_length.symm, fun i hi hi' v hv => ?_⟩
  obtain ⟨k, hk, hcell⟩ := getElem_of_mem hv
  have hlength : (batch.columns.get ⟨i, hi'⟩).length = batch.numRows :=
    batch.column_length _ (get_mem _ _)
  have hrow : batch.row k ∈ batch.rows :=
    Arrow.RecordBatch.mem_rows.mpr ⟨k, by rw [← hlength]; exact hk, rfl⟩
  refine h _ hrow i _ v (List.getElem?_eq_getElem hi) ?_
  rw [Arrow.RecordBatch.row, List.getElem?_map, List.getElem?_eq_getElem hi', Option.map_some,
    Option.join_some]
  change slot (batch.columns.get ⟨i, hi'⟩) k = some v
  rw [slot, List.getElem?_eq_getElem hk, Option.join_some]
  exact hcell

theorem castCell_spec {t u : DataType} (htu : Widens t u) {cell result : Option V}
    (htyped : ∀ v, cell = some v → typeOf v = t) (hcast : castCell compute t u cell = some result) :
    (∀ v, result = some v → typeOf v = u) ∧
      ∀ {w}, Widens u w → castCell compute u w result = castCell compute t w cell := by
  cases cell with
  | none =>
    obtain rfl := Option.some.inj hcast
    exact ⟨fun v hv => (Option.some_ne_none v hv.symm).elim, fun _ => rfl⟩
  | some v =>
    rw [castCell, Option.map_eq_some_iff] at hcast
    obtain ⟨v', hv', rfl⟩ := hcast
    refine ⟨fun v hv => ?_, fun huw => ?_⟩
    · obtain rfl := Option.some.inj hv
      exact hlaw.typed htu (htyped _ rfl) hv'
    · rw [castCell, castCell, hlaw.coherent htu huw (htyped _ rfl) hv']

theorem castCell_injective {t u : DataType} (htu : Widens t u) {cell cell' result : Option V}
    (htyped : ∀ v, cell = some v → typeOf v = t) (htyped' : ∀ v, cell' = some v → typeOf v = t)
    (hcast : castCell compute t u cell = some result)
    (hcast' : castCell compute t u cell' = some result) : cell = cell' := by
  cases cell with
  | none =>
    obtain rfl := Option.some.inj hcast
    cases cell' with
    | none => rfl
    | some v' => simp [castCell] at hcast'
  | some v =>
    rw [castCell, Option.map_eq_some_iff] at hcast
    obtain ⟨v₁, hv₁, rfl⟩ := hcast
    cases cell' with
    | none => simp [castCell] at hcast'
    | some v' =>
      rw [castCell, Option.map_eq_some_iff] at hcast'
      obtain ⟨v₂, hv₂, heq⟩ := hcast'
      obtain rfl := Option.some.inj heq
      exact congrArg some (hlaw.injective htu (htyped _ rfl) (htyped' _ rfl) hv₁ hv₂)

variable {types targets : List DataType}

omit hlaw in
theorem castRow_cons_eq_some {t w : DataType} {cell : Option V} {cells result : List (Option V)} :
    castRow compute (t :: types) (w :: targets) (cell :: cells) = some result ↔
      ∃ head rest, castCell compute t w cell = some head ∧
        castRow compute types targets cells = some rest ∧ head :: rest = result := by
  simp [castRow, Option.bind_eq_some_iff]

/-- **A cast row has the types it was cast to, and may be cast further.** -/
theorem castRow_coherent (h : Covers targets types) {cells result : List (Option V)}
    (htyped : RowTyped typeOf types cells)
    (hcast : castRow compute types targets cells = some result) :
    RowTyped typeOf targets result ∧ ∀ {further}, Covers further targets →
      castRow compute targets further result = castRow compute types further cells := by
  induction h generalizing cells result with
  | nil =>
    cases htyped
    obtain rfl := Option.some.inj hcast
    refine ⟨.nil, fun hfurther => ?_⟩
    cases hfurther
    rfl
  | cons hwiden _ ih =>
    cases htyped with
    | cons hcell hcells =>
      obtain ⟨head, rest, hhead, hrest, rfl⟩ := castRow_cons_eq_some.mp hcast
      obtain ⟨htype, hcoherent⟩ := castCell_spec hlaw hwiden hcell hhead
      obtain ⟨htypes, hcoherents⟩ := ih hcells hrest
      refine ⟨.cons htype htypes, fun hfurther => ?_⟩
      cases hfurther with
      | cons hw hws => rw [castRow, castRow, hcoherent hw, hcoherents hws]

/-- **Different rows stay different.** -/
theorem castRow_injective (h : Covers targets types) {cells cells' result : List (Option V)}
    (htyped : RowTyped typeOf types cells) (htyped' : RowTyped typeOf types cells')
    (hcast : castRow compute types targets cells = some result)
    (hcast' : castRow compute types targets cells' = some result) : cells = cells' := by
  induction h generalizing cells cells' result with
  | nil =>
    cases htyped
    cases htyped'
    rfl
  | cons hwiden _ ih =>
    cases htyped with
    | cons hcell hcells =>
      cases htyped' with
      | cons hcell' hcells' =>
        obtain ⟨head, rest, hhead, hrest, rfl⟩ := castRow_cons_eq_some.mp hcast
        obtain ⟨head', rest', hhead', hrest', heq⟩ := castRow_cons_eq_some.mp hcast'
        obtain ⟨rfl, rfl⟩ := List.cons.inj heq
        rw [castCell_injective hlaw hwiden hcell hcell' hhead hhead', ih hcells hcells' hrest hrest']

/-- **A conformed batch has the cast rows.** -/
theorem conformBatch_outcome (hbatch : batch.WellTyped typeOf) {schema : Schema}
    (h : Covers (schema.map (·.type)) (batch.schema.map (·.type))) :
    Outcome (conformBatch compute batch schema)
      (fun out => out.schema = schema ∧ out.WellTyped typeOf ∧
        castRows compute (schema.map (·.type)) (typedRows batch) = some out.rows)
      (castRows compute (schema.map (·.type)) (typedRows batch) = none) := by
  have hwiden : List.Forall₂ (fun field target => Widens field.type target.type) batch.schema
      schema := by
    rw [Covers, List.forall₂_map_left_iff, List.forall₂_map_right_iff] at h
    exact h
  have houtcome := conformColumns_outcome hlaw hwiden batch.column_length (columns_typed hbatch)
  unfold conformBatch
  split
  · next e he =>
    refine .error ?_
    rcases houtcome with ⟨columns, hcolumns, -⟩ | ⟨-, i, hi, hnone⟩
    · rw [he] at hcolumns
      cases hcolumns
    · exact castRows_eq_none.mpr ⟨_, mem_map_of_mem
        (Arrow.RecordBatch.mem_rows.mpr ⟨i, hi, rfl⟩), hnone⟩
  · next columns hcolumns =>
    rcases houtcome with ⟨columns', hcolumns', hrow⟩ | ⟨⟨e, he⟩, -⟩
    · obtain rfl := Except.ok.inj (hcolumns.symm.trans hcolumns')
      refine .ok ⟨rfl, ?_, ?_⟩
      · rw [wellTyped_iff]
        intro r hr
        obtain ⟨i, hi, rfl⟩ := Arrow.RecordBatch.mem_rows.mp hr
        exact (castRow_coherent hlaw h (Distinct.row_typed hbatch hi) (hrow i hi)).1
      · rw [castRows, typedRows, Arrow.RecordBatch.rows, mapM_map, mapM_map]
        exact mapM_eq_pure fun i hi => hrow i (mem_range.mp hi)
    · rw [he] at hcolumns
      cases hcolumns

end Lawful

end MldpDriver.Query.Union
