/-
# Chains of UNION and UNION ALL

`planUnion` folds a chain of SELECTs from the left.  A UNION makes a node that drops duplicate rows;
the branches of a run of UNION ALL go into one node.  Executing a node brings the batches of its
inputs to one schema, the one `unifySchemas` reads off the first batch of every input.

The fold of the chain (`Chain.fold`) is over rows cast to the common columns of all batches.
-/
import MldpDriver.Query.UnionSchema

namespace MldpDriver.Query.Union

open MldpDriver.Arrow List
open Distinct (RowTyped applyDistinct applyDistinct_eq distinctLoop pushRows takeSelectedRows)
open Lib.KeySplit
open Lib.Loop

variable {V : Type}

/-! ## 1. The plan -/

/-- `PhysicalUnion` over the plans of the SELECTs, which stand for the batches they give. -/
inductive PhysicalNode (V : Type) where
  | select (batches : RecordBatches V)
  | union (inputs : List (PhysicalNode V)) (distinct : Bool)

structure SetOperation (V : Type) where
  all : Bool
  query : RecordBatches V

/-- Consecutive UNION ALL branches share one node, and each UNION closes the rows accumulated so far
into a deduplicating node. -/
def appendOperation (current : PhysicalNode V) (operation : SetOperation V) : PhysicalNode V :=
  match operation.all, current with
  | true, .union inputs false => .union (inputs ++ [.select operation.query]) false
  | _, _ => .union [current, .select operation.query] (!operation.all)

def planUnion (head : RecordBatches V) (operations : List (SetOperation V)) : PhysicalNode V :=
  operations.foldl appendOperation (.select head)

/-! ## 2. The execution -/

section Execute

variable (compute : Compute V) (text : V → List Char) (isUnion : DataType → Bool)

def batchesOf (branch : RecordBatches V) : List (Arrow.RecordBatch DataType V) := branch.filterMap id

/-- `execute` after its inputs. -/
def unionOf (distinct : Bool) (branches : List (RecordBatches V)) :
    Except String (RecordBatches V) := do
  match ← unifySchemas branches with
  | none => .ok []
  | some schema =>
    let output ← (branches.flatMap batchesOf).mapM fun batch => conformBatch compute batch schema
    .ok (if distinct then (applyDistinct text isUnion (output.map some)).map some
      else output.map some)

mutual
def execute : PhysicalNode V → Except String (RecordBatches V)
  | .select batches => .ok batches
  | .union inputs distinct => do
    let branches ← executeAll inputs
    unionOf compute text isUnion distinct branches

def executeAll : List (PhysicalNode V) → Except String (List (RecordBatches V))
  | [] => .ok []
  | node :: nodes => do
    let branch ← execute node
    let rest ← executeAll nodes
    .ok (branch :: rest)
end

variable {compute text isUnion}

/-- The inputs of the node UNION ALL would extend. -/
def openInputs : PhysicalNode V → List (PhysicalNode V)
  | .union inputs false => inputs
  | node => [node]

def isOpen : PhysicalNode V → Bool
  | .union _ false => true
  | _ => false

theorem executeAll_append (nodes more : List (PhysicalNode V)) :
    executeAll compute text isUnion (nodes ++ more) = (do
      let left ← executeAll compute text isUnion nodes
      let right ← executeAll compute text isUnion more
      .ok (left ++ right)) := by
  induction nodes with
  | nil =>
    rw [nil_append, executeAll]
    cases executeAll compute text isUnion more <;> rfl
  | cons node nodes ih =>
    rw [cons_append, executeAll, ih, executeAll]
    cases execute compute text isUnion node with
    | error e => rfl
    | ok branch =>
      cases executeAll compute text isUnion nodes with
      | error e => rfl
      | ok left => cases executeAll compute text isUnion more <;> rfl

theorem executeAll_singleton (node : PhysicalNode V) :
    executeAll compute text isUnion [node] =
      (execute compute text isUnion node).map fun branch => [branch] := by
  rw [executeAll, executeAll]
  cases execute compute text isUnion node <;> rfl

end Execute

/-! ## 3. The fold -/

/-- A SELECT with set operations; `planUnion` is not called without one. -/
structure Chain (V : Type) where
  head : RecordBatches V
  operations : List (SetOperation V)
  nonempty : operations ≠ []

def Chain.batches (chain : Chain V) : List (Arrow.RecordBatch DataType V) :=
  batchesOf chain.head ++ chain.operations.flatMap fun operation => batchesOf operation.query

/-- The common columns of some batches. -/
def commonOf (batches : List (Arrow.RecordBatch DataType V)) : Option (Option Columns) :=
  commonColumns (batches.map fun batch => columnsOf batch.schema)

def targetOf (common : Option Columns) : List DataType := typesOf (common.getD [])

section Fold

variable [DecidableEq V] (compute : Compute V)

/-- The rows of some batches in the target types. -/
def rowsIn (target : List DataType) (batches : List (Arrow.RecordBatch DataType V)) :
    Option (List (List (Option V))) :=
  castRows compute target (batches.flatMap typedRows)

/-- **One operation more**: UNION ALL adds the rows of its branch, UNION also drops duplicates from
everything accumulated so far. -/
def foldOperation (target : List DataType) (rows : Option (List (List (Option V))))
    (operation : SetOperation V) : Option (List (List (Option V))) := do
  let rows ← rows
  let branch ← rowsIn compute target (batchesOf operation.query)
  some (if operation.all then rows ++ branch else firstRows id (rows ++ branch))

/-- The common columns of the chain and its rows; nothing when the columns have no common types or a
value does not fit. -/
def Chain.fold (chain : Chain V) : Option (Option Columns × List (List (Option V))) := do
  let common ← commonOf chain.batches
  let rows ← chain.operations.foldl (foldOperation compute (targetOf common))
    (rowsIn compute (targetOf common) (batchesOf chain.head))
  some (common, rows)

/-- The execution of the chain gives the rows of the fold, in batches of one schema with the common
columns; it throws where there is no fold. -/
def Agrees (text : V → List Char) (isUnion : DataType → Bool) (chain : Chain V) : Prop :=
  match chain.fold compute with
  | none => ∃ message,
      execute compute text isUnion (planUnion chain.head chain.operations) = .error message
  | some (common, rows) => ∃ (schema : Schema) (output : List (Arrow.RecordBatch DataType V)),
      execute compute text isUnion (planUnion chain.head chain.operations) = .ok (output.map some) ∧
        (∀ batch ∈ output, batch.schema = schema) ∧
        (output ≠ [] → common = some (columnsOf schema)) ∧ output.flatMap (·.rows) = rows

end Fold

/-! ## 4. Where nodes are closed -/

/-- A place in the chain: the batches so far, the schemas handed to the node that is open by the
first batches, and whether it is one of UNION ALL. -/
structure Progress (V : Type) where
  batches : List (Arrow.RecordBatch DataType V)
  handed : List Columns
  grouped : Bool

namespace Progress

def common (p : Progress V) : Option (Option Columns) := commonOf p.batches

def start (head : RecordBatches V) : Progress V where
  batches := batchesOf head
  handed := front head
  grouped := false

def push (p : Progress V) (operation : SetOperation V) : Progress V where
  batches := p.batches ++ batchesOf operation.query
  handed := p.handed ++ front operation.query
  grouped := operation.all

/-- After a UNION its rows are handed on, with the common columns; no rows, no batch. -/
def close (p : Progress V) : Progress V :=
  { p with handed := if p.batches.any (0 < ·.numRows) then p.common.join.toList else [] }

/-- The places where a node is closed: at every UNION, after a run of UNION ALL. -/
def closings : Progress V → List (SetOperation V) → List (Progress V)
  | p, [] => if p.grouped then [p] else []
  | p, operation :: operations =>
    if operation.all then closings (p.push operation) operations
    else (if p.grouped then [p] else []) ++
      p.push operation :: closings (p.push operation).close operations

/-- The schemas handed on tell the common columns of all batches so far; if there is none, there are
no rows so far. -/
structure Known (p : Progress V) : Prop where
  first : p.handed ≠ [] → commonColumns p.handed = p.common
  empty : p.handed = [] → p.common.isSome ∧ ∀ batch ∈ p.batches, batch.numRows = 0

/-- The values so far fit the common types so far. -/
def Fits (compute : Compute V) (p : Progress V) : Prop :=
  ∀ common, p.common = some common → (rowsIn compute (targetOf common) p.batches).isSome

end Progress

open Progress

/-- **The condition**: wherever a node is closed, the first batches tell the common columns, and the
values fit these if they fit the common columns of the whole chain. -/
structure Determined [DecidableEq V] (compute : Compute V) (chain : Chain V) : Prop where
  columns : ∀ p ∈ closings (start chain.head) chain.operations, p.Known
  values : (chain.fold compute).isSome →
    ∀ p ∈ closings (start chain.head) chain.operations, p.Fits compute

/-! ## 5. One node -/

variable {schema : Schema}

variable {output : List (Arrow.RecordBatch DataType V)}

section Node

variable {compute : Compute V} {text : V → List Char} (isUnion : DataType → Bool)
variable {typeOf : V → DataType}

theorem rowsIn_append (target : List DataType) (batches more : List (Arrow.RecordBatch DataType V)) :
    rowsIn compute target (batches ++ more) =
      (rowsIn compute target batches).bind fun left =>
        (rowsIn compute target more).map (left ++ ·) := by
  rw [rowsIn, flatMap_append, castRows_append]
  rfl

variable {batches : List (Arrow.RecordBatch DataType V)}

theorem rowsIn_empty (target : List DataType) (h : ∀ batch ∈ batches, batch.numRows = 0) :
    rowsIn compute target batches = some [] := by
  have hnil : batches.flatMap typedRows = [] := flatMap_eq_nil_iff.mpr fun batch hbatch => by
    rw [typedRows, Arrow.RecordBatch.rows_eq_nil (h batch hbatch), map_nil]
  rw [rowsIn, hnil]
  rfl

/-- Batches of one schema. -/
def OfSchema (typeOf : V → DataType) (schema : Schema) (batches : List (Arrow.RecordBatch DataType V)) :
    Prop :=
  ∀ batch ∈ batches, batch.schema = schema ∧ batch.WellTyped typeOf

theorem OfSchema.typedRows (h : OfSchema typeOf schema batches) :
    batches.flatMap typedRows =
      (batches.flatMap (·.rows)).map fun row => (schema.map (·.type), row) := by
  rw [map_flatMap]
  refine flatMap_congr fun batch hbatch => ?_
  rw [Union.typedRows, (h batch hbatch).1]

theorem OfSchema.rowTyped (h : OfSchema typeOf schema batches) {row : List (Option V)}
    (hrow : row ∈ batches.flatMap (·.rows)) :
    RowTyped typeOf (schema.map (·.type)) row := by
  obtain ⟨batch, hbatch, hrow⟩ := mem_flatMap.mp hrow
  rw [← (h batch hbatch).1]
  exact wellTyped_iff.mp (h batch hbatch).2 row hrow

/-- **Conforming all batches casts their rows**, and what is cast may be cast further. -/
theorem conform_outcome (hlaw : Lawful compute typeOf)
    (h : ∀ batch ∈ batches, batch.WellTyped typeOf ∧
      Covers (schema.map (·.type)) (batch.schema.map (·.type))) :
    Outcome (batches.mapM fun batch => conformBatch compute batch schema)
      (fun output => OfSchema typeOf schema output ∧ output.length = batches.length ∧
        rowsIn compute (schema.map (·.type)) batches = some (output.flatMap (·.rows)))
      (rowsIn compute (schema.map (·.type)) batches = none) := by
  induction batches with
  | nil => exact .ok ⟨by simp [OfSchema], rfl, rfl⟩
  | cons batch batches ih =>
    obtain ⟨⟨hbatch, hcovers⟩, hrest⟩ := forall_mem_cons.mp h
    have hsplit : rowsIn compute (schema.map (·.type)) (batch :: batches) = _ :=
      castRows_append _ _ _
    rw [mapM_cons, hsplit]
    refine Outcome.bind ((conformBatch_outcome hlaw hbatch hcovers).mono (fun out hout => hout)
      fun hnone => by rw [hnone]; rfl) fun out hout => ?_
    obtain ⟨hschema, htyped, hrows⟩ := hout
    rw [hrows, Option.bind_some]
    refine Outcome.bind ((ih hrest).mono (fun rest hrest => hrest) fun hnone => ?_) fun rest hrest => ?_
    · exact Option.map_eq_none_iff.mpr hnone
    · obtain ⟨hof, hlength, hrows'⟩ := hrest
      refine .ok ⟨forall_mem_cons.mpr ⟨⟨hschema, htyped⟩, hof⟩, congrArg (· + 1) hlength, ?_⟩
      exact Option.map_eq_some_iff.mpr ⟨_, hrows', rfl⟩

theorem castRows_further (hlaw : Lawful compute typeOf) {target further : List DataType}
    (hfurther : Covers further target) {rows : List (List DataType × List (Option V))}
    (h : ∀ row ∈ rows, RowTyped typeOf row.1 row.2 ∧ Covers target row.1)
    {results : List (List (Option V))} (hcast : castRows compute target rows = some results) :
    castRows compute further (results.map fun row => (target, row)) =
      castRows compute further rows := by
  induction rows generalizing results with
  | nil =>
    obtain rfl := Option.some.inj hcast
    rfl
  | cons row rows ih =>
    obtain ⟨⟨htyped, hcovers⟩, hrest⟩ := forall_mem_cons.mp h
    obtain ⟨result, results, hresult, hresults, rfl⟩ := mapM_cons_eq_some.mp hcast
    rw [map_cons, castRows, castRows, mapM_cons, mapM_cons]
    rw [(castRow_coherent hlaw hcovers htyped hresult).2 hfurther]
    have htail := ih hrest hresults
    rw [castRows, castRows] at htail
    rw [htail]

variable [DecidableEq V]

theorem mem_firstRows_id {R : Type} [DecidableEq R] {rows : List R} {r : R} :
    r ∈ firstRows id rows ↔ r ∈ rows := by
  have h := @mem_firstRows_keys _ _ _ id rows r
  rwa [map_id, map_id] at h

theorem firstRows_eq_nil {R : Type} [DecidableEq R] {rows : List R} :
    firstRows id rows = [] ↔ rows = [] := by
  cases rows with
  | nil => exact iff_of_true rfl rfl
  | cons row rows => exact iff_of_false (cons_ne_nil _ _) (cons_ne_nil _ _)

/-- **Dropping duplicates before a cast drops the duplicates after it.** -/
theorem castRows_firstRows (hlaw : Lawful compute typeOf) {types target : List DataType}
    (hcovers : Covers target types) {rows : List (List (Option V))}
    (h : ∀ row ∈ rows, RowTyped typeOf types row) :
    castRows compute target ((firstRows id rows).map fun row => (types, row)) =
      (castRows compute target (rows.map fun row => (types, row))).map (firstRows id) := by
  cases hall : castRows compute target (rows.map fun row => (types, row)) with
  | none =>
    obtain ⟨_, hmem, hnone⟩ := castRows_eq_none.mp hall
    obtain ⟨row, hrow, rfl⟩ := mem_map.mp hmem
    exact castRows_eq_none.mpr
      ⟨_, mem_map_of_mem (mem_firstRows_id.mpr hrow), hnone⟩
  | some results =>
    obtain ⟨hsome, rfl⟩ := castRows_eq_some.mp hall
    refine castRows_eq_some.mpr ⟨fun _ hmem => ?_, ?_⟩
    · obtain ⟨row, hrow, rfl⟩ := mem_map.mp hmem
      exact hsome _ (mem_map_of_mem (mem_firstRows_id.mp hrow))
    · rw [map_map, map_map, firstRows_map]
      refine congrArg (List.map _) ?_
      refine firstRows_congr fun row hrow row' hrow' => ⟨fun heq => ?_, fun heq => ?_⟩
      · rw [show row = row' from heq]
      obtain ⟨result, hresult⟩ := hsome _ (mem_map_of_mem hrow)
      obtain ⟨result', hresult'⟩ := hsome _ (mem_map_of_mem hrow')
      have heq' : result = result' := by simpa [hresult, hresult'] using heq
      exact castRow_injective hlaw hcovers (h row hrow) (h row' hrow') hresult (heq' ▸ hresult')

omit [DecidableEq V] in
theorem distinctLoop_mem {input : List (Option (Arrow.RecordBatch DataType V))}
    {d : Distinct.RowDeduplicator} {batch : Arrow.RecordBatch DataType V}
    (h : batch ∈ distinctLoop text isUnion input d output) :
    batch ∈ output ∨ 0 < batch.numRows ∧ ∃ source, some source ∈ input ∧
      batch.schema = source.schema := by
  induction input generalizing d output with
  | nil => exact .inl h
  | cons entry input ih =>
    cases entry with
    | none =>
      rcases ih h with h | ⟨hpos, source, hsource, hschema⟩
      · exact .inl h
      · exact .inr ⟨hpos, source, mem_cons_of_mem _ hsource, hschema⟩
    | some source =>
      rcases ih h with h | ⟨hpos, source, hsource, hschema⟩
      · rw [pushRows] at h
        split at h
        · next hpos =>
          rcases mem_append.mp h with h | h
          · exact .inl h
          · obtain rfl := mem_singleton.mp h
            refine .inr ⟨hpos, source, mem_cons_self, ?_⟩
            simp only [Distinct.RowDeduplicator.filter, Distinct.RowDeduplicator.take,
              takeSelectedRows]
            split <;> rfl
        · exact .inl h
      · exact .inr ⟨hpos, source, mem_cons_of_mem _ hsource, hschema⟩

end Node

/-! ## 6. What a node is handed -/

section Handed

variable {compute : Compute V} {text : V → List Char} {isUnion : DataType → Bool}
variable {typeOf : V → DataType}

/-- Rows as a function of the types they are cast to. -/
abbrev RowsAt (V : Type) := List DataType → Option (List (List (Option V)))

/-- What the inputs of the open node give at a place of the chain, where the fold has the rows
`rows`. -/
structure Handed (compute : Compute V) (typeOf : V → DataType) (p : Progress V) (rows : RowsAt V)
    (branches : List (RecordBatches V)) : Prop where
  first : commonColumns (branches.flatMap front) = commonColumns p.handed
  typed : ∀ batch ∈ branches.flatMap batchesOf, batch.WellTyped typeOf ∧
    ∀ target common, p.common = some common → Below target common →
      Covers target (batch.schema.map (·.type))
  rows_eq : ∀ target common, p.common = some common → Below target common →
    rowsIn compute target (branches.flatMap batchesOf) = rows target
  empty : (∀ batch ∈ p.batches, batch.numRows = 0) ↔
    ∀ batch ∈ branches.flatMap batchesOf, batch.numRows = 0
  defined : ∀ target, (rows target).isSome = (rowsIn compute target p.batches).isSome

/-- The values so far do not fit the common columns so far, or there are none. -/
def Fails (compute : Compute V) (p : Progress V) : Prop :=
  ∀ common, p.common = some common → rowsIn compute (targetOf common) p.batches = none

/-- A node that is closed gives the rows of the fold. -/
structure Result (typeOf : V → DataType) (batches : List (Arrow.RecordBatch DataType V))
    (rows : RowsAt V)
    (common : Option Columns) (schema : Schema) (output : List (Arrow.RecordBatch DataType V)) :
    Prop where
  common_eq : commonOf batches = some common
  ofSchema : OfSchema typeOf schema output
  columns : output ≠ [] → common = some (columnsOf schema)
  rows_eq : rows (targetOf common) = some (output.flatMap (·.rows))

theorem typesOf_columnsOf (schema : Schema) : typesOf (columnsOf schema) = schema.map (·.type) := by
  rw [typesOf, columnsOf, map_map]
  rfl

theorem below_self (columns : Columns) : Below (typesOf columns) (some columns) := by
  rintro _ ⟨⟩
  exact List.forall₂_same.mpr fun type _ => .refl type

theorem batchesOf_map_some (batches : List (Arrow.RecordBatch DataType V)) :
    batchesOf (batches.map some) = batches := by
  rw [batchesOf, filterMap_map]
  simp

theorem front_map_some (batches : List (Arrow.RecordBatch DataType V)) :
    front (batches.map some) = (batches.head?.map fun batch => columnsOf batch.schema).toList := by
  cases batches <;> rfl

variable {branches : List (RecordBatches V)}

theorem front_eq_nil (h : branches.flatMap batchesOf = []) :
    branches.flatMap front = [] := by
  rw [flatMap_eq_nil_iff] at h ⊢
  intro branch hbranch
  have hnil := h branch hbranch
  cases branch with
  | nil => rfl
  | cons entry entries =>
    cases entry with
    | none => rfl
    | some batch => cases hnil

theorem flatMap_rows_eq_nil {batches : List (Arrow.RecordBatch DataType V)} :
    batches.flatMap (·.rows) = [] ↔ ∀ batch ∈ batches, batch.numRows = 0 := by
  simp only [flatMap_eq_nil_iff, Arrow.RecordBatch.numRows_eq_zero_iff]

variable {rows : RowsAt V}
variable {p : Progress V}

theorem handed_single {common : Option Columns}
    (hresult : Result typeOf p.batches rows common schema output)
    (hfirst : commonColumns (front (output.map some)) = commonColumns p.handed)
    (hempty : (∀ batch ∈ p.batches, batch.numRows = 0) ↔ output.flatMap (·.rows) = [])
    (hrows : ∀ target, Below target common → castRows compute target
      ((output.flatMap (·.rows)).map fun row => (schema.map (·.type), row)) = rows target)
    (hdefined : ∀ target, (rows target).isSome = (rowsIn compute target p.batches).isSome) :
    Handed compute typeOf p rows [output.map some] := by
  have hbatches : [output.map some].flatMap batchesOf = output := by
    rw [flatMap_singleton, batchesOf_map_some]
  have hcommon : ∀ other, p.common = some other → other = common := fun other hother =>
    Option.some.inj (hother.symm.trans hresult.common_eq)
  refine ⟨?_, ?_, ?_, ?_, hdefined⟩
  · rw [flatMap_singleton]
    exact hfirst
  · rw [hbatches]
    refine fun batch hbatch => ⟨(hresult.ofSchema batch hbatch).2, fun target other hother hbelow => ?_⟩
    rw [(hresult.ofSchema batch hbatch).1, ← typesOf_columnsOf]
    exact hbelow _ ((hcommon other hother).trans
      (hresult.columns (ne_nil_of_mem hbatch)))
  · intro target other hother hbelow
    rw [hbatches, rowsIn, hresult.ofSchema.typedRows]
    exact hrows target (hcommon other hother ▸ hbelow)
  · rw [hbatches, hempty]
    exact flatMap_rows_eq_nil

/-- **A run of UNION ALL.** -/
theorem unionAll_outcome (hlaw : Lawful compute typeOf) (h : Handed compute typeOf p rows branches)
    (hknown : p.Known) :
    Outcome (unionOf compute text isUnion false branches)
      (fun out => ∃ common schema output, out = output.map some ∧
        Result typeOf p.batches rows common schema output ∧
        Handed compute typeOf p rows [output.map some])
      (Fails compute p) := by
  rcases unifySchemas_outcome branches with ⟨schema, hschema, hcolumns⟩ | ⟨⟨e, he⟩, hnone⟩
  · rw [h.first] at hcolumns
    rw [unionOf, hschema]
    cases schema with
    | none =>
      have hhanded := commonColumns_eq_none.mp hcolumns
      obtain ⟨hsome, hzero⟩ := hknown.empty hhanded
      obtain ⟨common, hcommon⟩ := Option.isSome_iff_exists.mp hsome
      have hrows : ∀ target, Below target common → some [] = rows target := fun target hbelow => by
        rw [← h.rows_eq target common hcommon hbelow, rowsIn_empty target (h.empty.mp hzero)]
      have hresult : Result typeOf p.batches rows common [] [] := by
        refine ⟨hcommon, by simp [OfSchema], by simp, ?_⟩
        refine (hrows _ ?_).symm
        rintro columns ⟨⟩
        exact below_self columns columns rfl
      refine .ok ⟨common, [], [], rfl, hresult, handed_single hresult ?_
        (iff_of_true hzero rfl) hrows h.defined⟩
      rw [hhanded]
      rfl
    | some schema =>
      have hhanded : p.handed ≠ [] := fun hnil => by
        rw [hnil] at hcolumns
        cases hcolumns
      have hcommon : p.common = some (some (columnsOf schema)) :=
        (hknown.first hhanded).symm.trans hcolumns
      have hself := below_self (columnsOf schema)
      rw [typesOf_columnsOf] at hself
      have hbatches : ∀ batch ∈ branches.flatMap batchesOf, batch.WellTyped typeOf ∧
          Covers (schema.map (·.type)) (batch.schema.map (·.type)) := fun batch hbatch =>
        ⟨(h.typed batch hbatch).1, (h.typed batch hbatch).2 _ _ hcommon hself⟩
      have htarget : targetOf (some (columnsOf schema)) = schema.map (·.type) := typesOf_columnsOf schema
      have hrowsIn := h.rows_eq _ _ hcommon hself
      change Outcome ((branches.flatMap batchesOf).mapM _ >>= fun output => .ok _) _ _
      refine Outcome.bind ((conform_outcome hlaw hbatches).mono (fun output houtput => houtput) ?_)
        fun output houtput => ?_
      · intro hnone other hother
        obtain rfl := Option.some.inj (hcommon.symm.trans hother)
        have hdefined := h.defined (schema.map (·.type))
        rw [← hrowsIn, hnone] at hdefined
        rw [htarget]
        exact Option.isNone_iff_eq_none.mp (by simpa using hdefined.symm)
      · obtain ⟨hof, hlength, hcast⟩ := houtput
        have hresult : Result typeOf p.batches rows (some (columnsOf schema)) schema output :=
          ⟨hcommon, hof, fun _ => rfl, by rw [htarget, ← hrowsIn, hcast]⟩
        refine .ok ⟨_, schema, output, rfl, hresult, handed_single hresult ?_ ?_ ?_ h.defined⟩
        · have hne : output ≠ [] := fun hnil => by
            rw [hnil, length_nil, eq_comm, length_eq_zero_iff] at hlength
            rw [← h.first, front_eq_nil hlength] at hcolumns
            cases hcolumns
          rw [front_map_some, hcolumns]
          cases output with
          | nil => exact absurd rfl hne
          | cons batch rest =>
            rw [List.head?_cons, Option.map_some, (hof batch mem_cons_self).1]
            rfl
        · rw [h.empty, ← flatMap_rows_eq_nil, ← (castRows_eq_some.mp hcast).2, map_eq_nil_iff,
            flatMap_eq_nil_iff, flatMap_eq_nil_iff]
          simp only [typedRows, map_eq_nil_iff]
        · intro target hbelow
          rw [← h.rows_eq target _ hcommon hbelow]
          refine castRows_further hlaw ?_ ?_ hcast
          · rw [← typesOf_columnsOf]
            exact hbelow _ rfl
          · intro _ hmem
            obtain ⟨batch, hbatch, hmem⟩ := mem_flatMap.mp hmem
            obtain ⟨row, hrow, rfl⟩ := mem_map.mp hmem
            exact ⟨wellTyped_iff.mp (hbatches batch hbatch).1 row hrow, (hbatches batch hbatch).2⟩
  · rw [h.first] at hnone
    have hhanded : p.handed ≠ [] := fun hnil => by
      rw [hnil] at hnone
      cases hnone
    refine .inr ⟨⟨e, by rw [unionOf, he]; rfl⟩, fun common hcommon => ?_⟩
    rw [← hknown.first hhanded, hnone] at hcommon
    cases hcommon

variable [DecidableEq V]

omit [DecidableEq V] in
theorem unionOf_distinct (branches : List (RecordBatches V)) :
    unionOf compute text isUnion true branches =
      (unionOf compute text isUnion false branches).map fun out =>
        (applyDistinct text isUnion out).map some := by
  rw [unionOf, unionOf]
  cases unifySchemas branches with
  | error e => rfl
  | ok schema =>
    cases schema with
    | none => rfl
    | some schema =>
      simp only [bind, Except.bind]
      cases (branches.flatMap batchesOf).mapM fun batch => conformBatch compute batch schema <;> rfl

/-- **A UNION.** -/
theorem union_outcome (hlaw : Lawful compute typeOf)
    (htext : ∀ a b, typeOf a = typeOf b → text a = text b → a = b)
    (h : Handed compute typeOf p rows branches) (hknown : p.Known) :
    Outcome (unionOf compute text isUnion true branches)
      (fun out => ∃ common schema output, out = output.map some ∧
        Result typeOf p.batches (fun target => (rows target).map (firstRows id)) common schema output ∧
        Handed compute typeOf p.close (fun target => (rows target).map (firstRows id))
          [output.map some])
      (Fails compute p) := by
  rw [unionOf_distinct]
  have hall : Outcome (unionOf compute text isUnion false branches) _ _ :=
    unionAll_outcome hlaw h hknown
  rcases hall with
    ⟨out, hout, common, schema, source, rfl, hresult, hsource⟩ | ⟨⟨e, he⟩, hfails⟩
  · rw [hout]
    have hdistinct : (applyDistinct text isUnion (source.map some)).flatMap (·.rows) =
        firstRows id (source.flatMap (·.rows)) := by
      have hinput : ∀ batch, some batch ∈ source.map some →
          batch.schema.map (·.type) = schema.map (·.type) ∧ batch.WellTyped typeOf := by
        intro batch hbatch
        obtain ⟨hschema, htyped⟩ := hresult.ofSchema batch (by simpa using hbatch)
        exact ⟨by rw [hschema], htyped⟩
      refine (applyDistinct_eq isUnion htext hinput).trans (congrArg _ ?_)
      exact congrArg _ (batchesOf_map_some source)
    have htypedRows : ∀ row ∈ source.flatMap (·.rows), RowTyped typeOf (schema.map (·.type)) row :=
      fun row hrow => hresult.ofSchema.rowTyped hrow
    have hmem : ∀ batch ∈ applyDistinct text isUnion (source.map some),
        0 < batch.numRows ∧ batch.schema = schema := by
      intro batch hbatch
      rcases distinctLoop_mem isUnion hbatch with hnil | ⟨hpos, b, hb, hschema⟩
      · cases hnil
      · exact ⟨hpos, hschema.trans (hresult.ofSchema b (by simpa using hb)).1⟩
    have hempty : (∀ batch ∈ p.batches, batch.numRows = 0) ↔
        applyDistinct text isUnion (source.map some) = [] := by
      rw [hsource.empty, flatMap_singleton, batchesOf_map_some, ← flatMap_rows_eq_nil]
      rw [← firstRows_eq_nil, ← hdistinct, flatMap_rows_eq_nil]
      refine ⟨fun hzero => ?_, fun hnil => by rw [hnil]; simp⟩
      refine eq_nil_iff_forall_not_mem.mpr fun batch hbatch => ?_
      exact absurd (hzero batch hbatch) (Nat.ne_of_gt (hmem batch hbatch).1)
    have hcolumns : applyDistinct text isUnion (source.map some) ≠ [] →
        common = some (columnsOf schema) := by
      intro hne
      refine hresult.columns fun hnil => hne ?_
      rw [hnil]
      rfl
    have hunique : Result typeOf p.close.batches (fun target => (rows target).map (firstRows id)) common
        schema (applyDistinct text isUnion (source.map some)) := by
      refine ⟨hresult.common_eq, fun batch hbatch => ⟨(hmem batch hbatch).2, ?_⟩, hcolumns, ?_⟩
      · rw [wellTyped_iff, (hmem batch hbatch).2]
        intro row hrow
        refine htypedRows row (mem_firstRows_id.mp ?_)
        rw [← hdistinct]
        exact mem_flatMap.mpr ⟨batch, hbatch, hrow⟩
      · rw [hresult.rows_eq, hdistinct]
        rfl
    refine .ok ⟨common, schema, _, rfl, hunique, handed_single hunique ?_ ?_ ?_ ?_⟩
    · rw [front_map_some, Progress.close]
      by_cases hzero : ∀ batch ∈ p.batches, batch.numRows = 0
      · rw [if_neg (by simpa using hzero), hempty.mp hzero]
        rfl
      · rw [if_pos (by simpa [Nat.pos_iff_ne_zero] using hzero)]
        have hne := mt hempty.mpr hzero
        rw [show p.common = some common from hresult.common_eq, hcolumns hne]
        cases hunique' : applyDistinct text isUnion (source.map some) with
        | nil => exact absurd hunique' hne
        | cons batch rest =>
          rw [List.head?_cons, Option.map_some, (hmem batch (hunique' ▸ mem_cons_self)).2]
          rfl
    · rw [hdistinct, firstRows_eq_nil, flatMap_rows_eq_nil]
      have hempty' := hsource.empty
      rwa [flatMap_singleton, batchesOf_map_some] at hempty'
    · intro target hbelow
      have hrows := hsource.rows_eq target common hresult.common_eq hbelow
      rw [flatMap_singleton, batchesOf_map_some, rowsIn, hresult.ofSchema.typedRows] at hrows
      rw [hdistinct, ← hrows]
      by_cases hnil : source = []
      · subst hnil
        rfl
      · refine castRows_firstRows hlaw ?_ htypedRows
        rw [← typesOf_columnsOf]
        exact hbelow _ (hresult.columns hnil)
    · intro target
      rw [Option.isSome_map]
      exact h.defined target
  · exact .inr ⟨⟨e, by rw [he]; rfl⟩, hfails⟩

/-! ## 7. A run over the chain -/

/-- The rows after a branch is added. -/
def added (compute : Compute V) (rows : RowsAt V) (operation : SetOperation V) : RowsAt V :=
  fun target => foldOperation compute target (rows target) { operation with all := true }

theorem foldOperation_eq (target : List DataType) (rows : RowsAt V) (operation : SetOperation V) :
    foldOperation compute target (rows target) operation =
      if operation.all then added compute rows operation target
      else (added compute rows operation target).map (firstRows id) := by
  unfold added foldOperation
  cases rows target with
  | none => cases operation.all <;> rfl
  | some left =>
    cases rowsIn compute target (batchesOf operation.query) with
    | none => cases operation.all <;> rfl
    | some branch => cases operation.all <;> rfl

/-- **One branch more.** -/
theorem Handed.push (h : Handed compute typeOf p rows branches) (operation : SetOperation V)
    (htyped : ∀ batch ∈ batchesOf operation.query, batch.WellTyped typeOf) :
    Handed compute typeOf (p.push operation) (added compute rows operation)
      (branches ++ [operation.query]) := by
  -- what covers the common types of all covers those of the batches so far and of the branch
  have hbelow : ∀ {target common}, (p.push operation).common = some common → Below target common →
      (∃ earlier, p.common = some earlier ∧ Below target earlier) ∧
        ∀ batch ∈ batchesOf operation.query, Covers target (batch.schema.map (·.type)) := by
    intro target common hcommon hbelow
    rw [Progress.common, Progress.push, commonOf, map_append, commonColumns_append] at hcommon
    obtain ⟨earlier, hearlier, hcommon⟩ := Option.bind_eq_some_iff.mp hcommon
    obtain ⟨hleft, hright⟩ := foldlM_below hcommon hbelow
    refine ⟨⟨earlier, hearlier, hleft⟩, fun batch hbatch => ?_⟩
    rw [← typesOf_columnsOf]
    exact hright _ (mem_map_of_mem hbatch)
  refine ⟨?_, ?_, ?_, ?_, ?_⟩
  · rw [flatMap_append, flatMap_singleton, commonColumns_append, h.first, Progress.push,
      commonColumns_append]
  · intro batch hbatch
    rw [flatMap_append, flatMap_singleton, mem_append] at hbatch
    rcases hbatch with hbatch | hbatch
    · refine ⟨(h.typed batch hbatch).1, fun target common hcommon hb => ?_⟩
      obtain ⟨⟨earlier, hearlier, hleft⟩, -⟩ := hbelow hcommon hb
      exact (h.typed batch hbatch).2 target earlier hearlier hleft
    · exact ⟨htyped batch hbatch, fun target common hcommon hb => (hbelow hcommon hb).2 batch hbatch⟩
  · intro target common hcommon hb
    obtain ⟨⟨earlier, hearlier, hleft⟩, -⟩ := hbelow hcommon hb
    rw [flatMap_append, flatMap_singleton, rowsIn_append,
      h.rows_eq target earlier hearlier hleft, added, foldOperation]
    cases rows target with
    | none => rfl
    | some left =>
      cases rowsIn compute target (batchesOf operation.query) with
      | none => rfl
      | some branch => rfl
  · rw [Progress.push, flatMap_append, flatMap_singleton, forall_mem_append,
      forall_mem_append, h.empty]
  · intro target
    have hdefined := h.defined target
    rw [Progress.push, rowsIn_append, added, foldOperation]
    cases hrows : rows target with
    | none =>
      rw [hrows] at hdefined
      have hnone : rowsIn compute target p.batches = none :=
        Option.isNone_iff_eq_none.mp (by simpa using hdefined.symm)
      rw [hnone]
      rfl
    | some left =>
      rw [hrows] at hdefined
      obtain ⟨left', hleft'⟩ := Option.isSome_iff_exists.mp hdefined.symm
      rw [hleft']
      cases rowsIn compute target (batchesOf operation.query) with
      | none => rfl
      | some branch => rfl

omit [DecidableEq V] in
theorem current_outcome (hlaw : Lawful compute typeOf) {current : PhysicalNode V} {bad : Prop}
    (hopen : p.grouped = isOpen current)
    (h : Outcome (executeAll compute text isUnion (openInputs current))
      (Handed compute typeOf p rows) bad) (hknown : p.grouped = true → p.Known) :
    Outcome (execute compute text isUnion current)
      (fun out => Handed compute typeOf p rows [out] ∧ (p.grouped = true → ∃ common schema output,
        out = output.map some ∧ Result typeOf p.batches rows common schema output))
      (bad ∨ p.grouped = true ∧ Fails compute p) := by
  have hclosed : isOpen current = false → openInputs current = [current] := by
    intro hfalse
    cases current with
    | select batches => rfl
    | union inputs distinct =>
      cases distinct with
      | false => cases hfalse
      | true => rfl
  cases hgrouped : isOpen current with
  | false =>
    rw [hclosed hgrouped, executeAll_singleton] at h
    rw [hopen, hgrouped]
    cases hcurrent : execute compute text isUnion current with
    | error e =>
      rw [hcurrent] at h
      rcases h with ⟨branches, hbranches, -⟩ | ⟨-, hbad⟩
      · cases hbranches
      · exact .error (.inl hbad)
    | ok out =>
      rw [hcurrent] at h
      rcases h with ⟨branches, hbranches, hhanded⟩ | ⟨⟨e, he⟩, -⟩
      · obtain rfl := Except.ok.inj hbranches
        exact .ok ⟨hhanded, fun hfalse => by cases hfalse⟩
      · cases he
  | true =>
    cases current with
    | select batches => cases hgrouped
    | union inputs distinct =>
      cases distinct with
      | true => cases hgrouped
      | false =>
        rw [execute]
        refine Outcome.bind (h.mono (fun branches hbranches => hbranches) .inl)
          fun branches hbranches => ?_
        refine (unionAll_outcome hlaw hbranches (hknown (hopen.trans hgrouped))).mono ?_
          fun hfails => .inr ⟨hopen.trans hgrouped, hfails⟩
        rintro out ⟨common, schema, output, rfl, hresult, hhanded⟩
        exact ⟨hhanded, fun _ => ⟨common, schema, output, rfl, hresult⟩⟩

omit [DecidableEq V] in
theorem append_all {operation : SetOperation V} (h : operation.all = true) (current : PhysicalNode V) :
    appendOperation current operation =
      .union (openInputs current ++ [.select operation.query]) false := by
  unfold appendOperation
  rw [h]
  cases current with
  | select batches => rfl
  | union inputs distinct => cases distinct <;> rfl

omit [DecidableEq V] in
theorem append_distinct {operation : SetOperation V} (h : operation.all = false)
    (current : PhysicalNode V) :
    appendOperation current operation = .union [current, .select operation.query] true := by
  unfold appendOperation
  rw [h]
  cases current <;> rfl

/-- The batches of a node with the rows of the fold. -/
def Gives (typeOf : V → DataType) (batches : List (Arrow.RecordBatch DataType V)) (rows : RowsAt V)
    (out : RecordBatches V) : Prop :=
  ∃ common schema output, out = output.map some ∧ Result typeOf batches rows common schema output

theorem inputs_push {inputs : List (PhysicalNode V)} {operation : SetOperation V} {bad : Prop}
    (h : Outcome (executeAll compute text isUnion inputs) (Handed compute typeOf p rows) bad)
    (htyped : ∀ batch ∈ batchesOf operation.query, batch.WellTyped typeOf) :
    Outcome (executeAll compute text isUnion (inputs ++ [.select operation.query]))
      (Handed compute typeOf (p.push operation) (added compute rows operation)) bad := by
  rw [executeAll_append, executeAll_singleton]
  refine Outcome.bind h fun branches hbranches => ?_
  exact .ok (hbranches.push operation htyped)

omit [DecidableEq V] in
theorem singleton_outcome {node : PhysicalNode V} {good : RecordBatches V → Prop}
    {handed : List (RecordBatches V) → Prop} {bad : Prop}
    (h : Outcome (execute compute text isUnion node) good bad) (hgood : ∀ out, good out → handed [out]) :
    Outcome (executeAll compute text isUnion [node]) handed bad := by
  rw [executeAll_singleton]
  rcases h with ⟨out, hout, hout'⟩ | ⟨⟨e, he⟩, hbad⟩
  · rw [hout]
    exact .ok (hgood out hout')
  · exact .inr ⟨⟨e, by rw [he]; rfl⟩, hbad⟩

/-- **A UNION without ALL** closes the node so far: its rows and those of the branch, each once, are
handed on as one input. -/
theorem distinct_outcome (hlaw : Lawful compute typeOf)
    (htext : ∀ a b, typeOf a = typeOf b → text a = text b → a = b) {current : PhysicalNode V}
    {operation : SetOperation V} {bad : Prop} (hopen : p.grouped = isOpen current)
    (hinputs : Outcome (executeAll compute text isUnion (openInputs current))
      (Handed compute typeOf p rows) bad) (hknown : p.grouped = true → p.Known)
    (hpush : (p.push operation).Known)
    (htyped : ∀ batch ∈ batchesOf operation.query, batch.WellTyped typeOf) :
    Outcome (execute compute text isUnion (.union [current, .select operation.query] true))
      (fun out => ∃ common schema output, out = output.map some ∧
        Result typeOf (p.push operation).batches
          (fun target => (added compute rows operation target).map (firstRows id)) common schema
          output ∧
        Handed compute typeOf (p.push operation).close
          (fun target => (added compute rows operation target).map (firstRows id)) [output.map some])
      ((bad ∨ p.grouped = true ∧ Fails compute p) ∨ Fails compute (p.push operation)) := by
  have hcurrent : Outcome (executeAll compute text isUnion [current])
      (Handed compute typeOf p rows) (bad ∨ p.grouped = true ∧ Fails compute p) :=
    singleton_outcome (current_outcome hlaw hopen hinputs hknown) fun out hout => hout.1
  rw [execute]
  refine Outcome.bind ((inputs_push hcurrent htyped).mono (fun _ h => h) .inl)
    fun branches hbranches => ?_
  exact (union_outcome hlaw htext hbranches hpush).mono (fun out hout => hout) .inr

/-- **A run over the chain.**  The induction is over the operations still to come; `bad` is what
went wrong at the nodes closed before. -/
theorem run_outcome (hlaw : Lawful compute typeOf)
    (htext : ∀ a b, typeOf a = typeOf b → text a = text b → a = b)
    (operations : List (SetOperation V)) : ∀ {p : Progress V} {rows : RowsAt V}
      {current : PhysicalNode V} {bad : Prop}, p.grouped = isOpen current →
      Outcome (executeAll compute text isUnion (openInputs current))
        (Handed compute typeOf p rows) bad →
      (operations = [] → Outcome (execute compute text isUnion current)
        (Gives typeOf p.batches rows) (bad ∨ ∃ q ∈ closings p [], Fails compute q)) →
      (∀ q ∈ closings p operations, q.Known) →
      (∀ operation ∈ operations, ∀ batch ∈ batchesOf operation.query, batch.WellTyped typeOf) →
      Outcome (execute compute text isUnion (operations.foldl appendOperation current))
        (Gives typeOf (p.batches ++ operations.flatMap fun operation => batchesOf operation.query)
          fun target => operations.foldl (foldOperation compute target) (rows target))
        (bad ∨ ∃ q ∈ closings p operations, Fails compute q) := by
  induction operations with
  | nil =>
    intro p rows current bad _ _ hend _ _
    rw [flatMap_nil, append_nil]
    exact hend rfl
  | cons operation operations ih =>
    intro p rows current bad hopen hinputs _ hknown htyped
    obtain ⟨hquery, hrest⟩ := forall_mem_cons.mp htyped
    have hbatches : p.batches ++ ((operation :: operations).flatMap fun operation =>
        batchesOf operation.query) = (p.push operation).batches ++
          operations.flatMap fun operation => batchesOf operation.query := by
      rw [flatMap_cons, Progress.push, append_assoc]
    have hrows : ∀ target, foldOperation compute target (rows target) operation = _ := fun target =>
      foldOperation_eq target rows operation
    rw [hbatches, foldl_cons]
    simp only [foldl_cons, hrows]
    rw [closings] at hknown ⊢
    by_cases hall : operation.all = true
    · rw [if_pos hall] at hknown ⊢
      simp only [if_pos hall]
      rw [append_all hall]
      have hgrouped : (p.push operation).grouped = true := hall
      have hinputs' := inputs_push hinputs hquery
      refine ih hgrouped hinputs' (fun hnil => ?_) hknown hrest
      subst hnil
      have hlast : closings (p.push operation) [] = [p.push operation] := if_pos hgrouped
      rw [hlast] at hknown ⊢
      have hcurrent : Outcome (execute compute text isUnion
          (.union (openInputs current ++ [.select operation.query]) false)) _ _ :=
        current_outcome hlaw hgrouped hinputs' fun _ => hknown _ mem_cons_self
      refine hcurrent.mono (fun out hout => hout.2 hgrouped) ?_
      exact Or.imp_right fun hfails => ⟨_, mem_cons_self, hfails.2⟩
    · rw [if_neg hall] at hknown ⊢
      simp only [if_neg hall]
      rw [append_distinct (Bool.eq_false_iff.mpr hall)]
      have hgrouped : (p.push operation).grouped = false := Bool.eq_false_iff.mpr hall
      have hpush : (p.push operation).Known := hknown _ (by simp)
      have hnode := distinct_outcome hlaw htext hopen hinputs
        (fun hgrouped => hknown p (by simp [hgrouped])) hpush hquery
      have hopen' : (p.push operation).close.grouped =
          isOpen (.union [current, .select operation.query] true) := hgrouped
      have hone : Outcome (executeAll compute text isUnion
          (openInputs (.union [current, .select operation.query] true)))
          (Handed compute typeOf (p.push operation).close
            fun target => (added compute rows operation target).map (firstRows id))
          ((bad ∨ p.grouped = true ∧ Fails compute p) ∨ Fails compute (p.push operation)) := by
        change Outcome (executeAll compute text isUnion [.union _ true]) _ _
        refine singleton_outcome hnode ?_
        rintro out ⟨common, schema, output, rfl, -, hhanded⟩
        exact hhanded
      refine (ih hopen' hone (fun _ => ?_)
        (fun q hq => hknown q (by simp [hq])) hrest).mono (fun out hout => hout) ?_
      · refine hnode.mono ?_ .inl
        rintro out ⟨common, schema, output, rfl, hresult, -⟩
        exact ⟨common, schema, output, rfl, hresult⟩
      · rintro (((hbad | ⟨hg, hfails⟩) | hfails) | ⟨q, hq, hfails⟩)
        · exact .inl hbad
        · exact .inr ⟨p, by simp [hg], hfails⟩
        · exact .inr ⟨p.push operation, by simp, hfails⟩
        · exact .inr ⟨q, by simp [hq], hfails⟩

omit [DecidableEq V] in
theorem closings_batches (operations : List (SetOperation V)) : ∀ {p q : Progress V},
    q ∈ closings p operations → ∃ more,
      p.batches ++ operations.flatMap (fun operation => batchesOf operation.query) =
        q.batches ++ more := by
  induction operations with
  | nil =>
    intro p q hq
    rw [closings] at hq
    split at hq
    · obtain rfl := mem_singleton.mp hq
      exact ⟨_, rfl⟩
    · cases hq
  | cons operation operations ih =>
    intro p q hq
    rw [flatMap_cons, ← append_assoc]
    rw [closings] at hq
    split at hq
    · exact ih hq
    rcases mem_append.mp hq with hq | hq
    · split at hq
      · obtain rfl := mem_singleton.mp hq
        exact ⟨_, append_assoc _ _ _⟩
      · cases hq
    rcases mem_cons.mp hq with rfl | hq
    · exact ⟨_, rfl⟩
    · exact ih hq

/-- **The execution gives the fold** where the first batches tell the common columns at every place
a node is closed.  `unifySchemas` looks at the first batch of every input only, so the names and
types of later batches do not count, and a later batch is cast to columns that are not common. -/
theorem agrees_of_determined (hlaw : Lawful compute typeOf)
    (htext : ∀ a b, typeOf a = typeOf b → text a = text b → a = b) (chain : Chain V)
    (htyped : ∀ batch ∈ chain.batches, batch.WellTyped typeOf) (h : Determined compute chain) :
    Agrees compute text isUnion chain := by
  obtain ⟨hhead, hoperations⟩ := forall_mem_append.mp htyped
  have hstart : Outcome (executeAll compute text isUnion (openInputs (.select chain.head)))
      (Handed compute typeOf (start chain.head)
        fun target => rowsIn compute target (batchesOf chain.head)) False := by
    change Outcome (executeAll compute text isUnion [.select chain.head]) _ _
    rw [executeAll_singleton, execute]
    refine .ok ⟨?_, ?_, ?_, ?_, fun target => rfl⟩
    · rw [flatMap_singleton]
      rfl
    · rw [flatMap_singleton]
      refine fun batch hbatch => ⟨hhead batch hbatch, fun target common hcommon hbelow => ?_⟩
      rw [← typesOf_columnsOf]
      exact (foldlM_below hcommon hbelow).2 _ (mem_map_of_mem hbatch)
    · intro target common _ _
      rw [flatMap_singleton]
    · rw [flatMap_singleton]
      rfl
  have hrun := run_outcome hlaw htext chain.operations (by rfl) hstart
    (fun hnil => absurd hnil chain.nonempty) h.columns
    fun operation hoperation batch hbatch =>
      hoperations batch (mem_flatMap.mpr ⟨operation, hoperation, hbatch⟩)
  unfold Agrees planUnion
  rcases hrun with ⟨out, hout, common, schema, output, rfl, hresult⟩ | ⟨⟨e, he⟩, hbad⟩
  · have hfold : chain.fold compute = some (common, output.flatMap (·.rows)) := by
      have hcommon : commonOf chain.batches = some common := hresult.common_eq
      rw [Chain.fold, hcommon]
      change Option.bind (chain.operations.foldl _ _) _ = _
      rw [hresult.rows_eq]
      rfl
    rw [hfold]
    exact ⟨schema, output, hout, fun batch hbatch => (hresult.ofSchema batch hbatch).1,
      hresult.columns, rfl⟩
  · rcases hbad with hfalse | ⟨q, hq, hfails⟩
    · exact hfalse.elim
    cases hfold : chain.fold compute with
    | none => exact ⟨e, he⟩
    | some result =>
      -- the values fit where the node is closed, so it cannot throw there
      have hfits := h.values (by rw [hfold]; rfl) q hq
      obtain ⟨common, hcommon, -⟩ := Option.bind_eq_some_iff.mp hfold
      obtain ⟨more, hmore⟩ := closings_batches chain.operations hq
      have hbatches : chain.batches = q.batches ++ more := hmore
      rw [hbatches, commonOf, map_append, commonColumns_append] at hcommon
      obtain ⟨earlier, hearlier, -⟩ := Option.bind_eq_some_iff.mp hcommon
      have hsome := hfits earlier hearlier
      rw [hfails earlier hearlier] at hsome
      cases hsome

end Handed

/-! ## 8. Two chains -/

/-- A number of some type. -/
structure Value where
  type : DataType
  number : Nat
  notNull : type ≠ .na
  deriving DecidableEq

/-- Casts that keep the number; there is none to the null type. -/
def plainCompute : Compute Value where
  supports _ target := target ≠ .na
  castValue target value :=
    if h : target ≠ .na then .ok ⟨target, value.number, h⟩ else .error "Unsupported cast"
  unsupported type target := "Unsupported cast from " ++ type.text ++ " to " ++ target.text

theorem plainCompute_convert {t w : DataType} {value result : Value} (htype : value.type = t)
    (h : plainCompute.convert t w value = some result) :
    result.type = w ∧ result.number = value.number := by
  unfold Compute.convert plainCompute at h
  split at h
  · next heq =>
    obtain rfl := Option.some.inj h
    exact ⟨htype.trans heq, rfl⟩
  · dsimp only at h
    split at h
    · obtain rfl := Option.some.inj h
      exact ⟨rfl, rfl⟩
    · cases h

theorem Value.eq_of {a b : Value} (htype : a.type = b.type) (hnumber : a.number = b.number) : a = b := by
  cases a
  cases b
  cases htype
  cases hnumber
  rfl

theorem widens_ne_na {t w : DataType} (h : Widens t w) (ht : t ≠ .na) : w ≠ .na := by
  cases h with
  | refl => exact ht
  | na => exact absurd rfl ht
  | _ => exact nofun

theorem plainCompute_some {t w : DataType} {value : Value} (h : Widens t w) (htype : value.type = t) :
    ∃ result, plainCompute.convert t w value = some result := by
  unfold Compute.convert plainCompute
  split
  · exact ⟨_, rfl⟩
  · dsimp only
    rw [dif_pos (widens_ne_na h (htype ▸ value.notNull))]
    exact ⟨_, rfl⟩

theorem plainCompute_lawful : Lawful plainCompute Value.type where
  noNull value := value.notNull
  supported h _ hna := decide_eq_true (widens_ne_na h hna)
  typed _ htype h := (plainCompute_convert htype h).1
  coherent htu huw htype h := by
    obtain ⟨htype', hnumber⟩ := plainCompute_convert htype h
    obtain ⟨further, hfurther⟩ := plainCompute_some huw htype'
    obtain ⟨direct, hdirect⟩ := plainCompute_some (htu.trans huw) htype
    obtain ⟨hfurthertype, hfurthernumber⟩ := plainCompute_convert htype' hfurther
    obtain ⟨hdirecttype, hdirectnumber⟩ := plainCompute_convert htype hdirect
    rw [hfurther, hdirect]
    refine congrArg some (Value.eq_of (hfurthertype.trans hdirecttype.symm) ?_)
    rw [hfurthernumber, hnumber, hdirectnumber]
  injective _ htype htype' h h' := Value.eq_of (htype.trans htype'.symm)
    ((plainCompute_convert htype h).2.symm.trans (plainCompute_convert htype' h').2)

def valueText (value : Value) : List Char := Lib.DecimalText.natText value.number

theorem valueText_inj (a b : Value) (htype : a.type = b.type) (h : valueText a = valueText b) : a = b :=
  Value.eq_of htype (Lib.DecimalText.natText_inj h)

/-- A batch of one column. -/
def columnBatch (type : DataType) (cells : List (Option Value)) : Arrow.RecordBatch DataType Value where
  schema := [{ name := "y", type := type }]
  numRows := cells.length
  columns := [cells]
  columns_length := rfl
  column_length := by simp

theorem columnBatch_wellTyped {type : DataType} {cells : List (Option Value)}
    (h : ∀ value, some value ∈ cells → value.type = type) :
    (columnBatch type cells).WellTyped Value.type := by
  rw [wellTyped_iff]
  intro r hr
  obtain ⟨i, hi, rfl⟩ := Arrow.RecordBatch.mem_rows.mp hr
  refine .cons (fun value hvalue => h value ?_) .nil
  change slot cells i = some value at hvalue
  rw [slot, List.getElem?_eq_getElem hi, Option.join_some] at hvalue
  exact mem_of_getElem hvalue

def one (type : DataType) (h : type ≠ .na) : Value := ⟨type, 1, h⟩

/-- An int64 column, UNION ALL a float64 column with the same number, UNION the int64 column. -/
def mixedChain : Chain Value where
  head := [some (columnBatch .int64 [some (one .int64 (by decide))])]
  operations :=
    [⟨true, [some (columnBatch .float64 [some (one .float64 (by decide)), none])]⟩,
      ⟨false, [some (columnBatch .int64 [some (one .int64 (by decide))])]⟩]
  nonempty := by simp

theorem mixedChain_agrees : Agrees plainCompute valueText (fun _ => false) mixedChain := by
  refine agrees_of_determined plainCompute_lawful valueText_inj mixedChain ?_ ⟨?_, fun _ => ?_⟩
  · exact forall_mem_cons.mpr ⟨columnBatch_wellTyped (by simp [one]),
      forall_mem_cons.mpr ⟨columnBatch_wellTyped (by simp [one]),
        forall_mem_cons.mpr ⟨columnBatch_wellTyped (by simp [one]), forall_mem_nil _⟩⟩⟩
  · exact forall_mem_cons.mpr ⟨⟨fun _ => by rfl, fun h => by cases h⟩,
      forall_mem_cons.mpr ⟨⟨fun _ => by rfl, fun h => by cases h⟩, forall_mem_nil _⟩⟩
  · refine forall_mem_cons.mpr ⟨?_, forall_mem_cons.mpr ⟨?_, forall_mem_nil _⟩⟩
    · rintro common ⟨⟩
      rfl
    · rintro common ⟨⟩
      rfl

/-- A branch whose first batch has only NULL, UNION ALL a branch with only NULL. -/
def nullFirstChain : Chain Value where
  head := [some (columnBatch .na [none]),
    some (columnBatch .int64 [some (one .int64 (by decide))])]
  operations := [⟨true, [some (columnBatch .na [none])]⟩]
  nonempty := by simp

/-- **The later batches of a branch may not fit.** -/
theorem nullFirstChain_throws : ¬ ∀ (V : Type) [DecidableEq V] (compute : Compute V)
    (typeOf : V → DataType) (text : V → List Char) (isUnion : DataType → Bool) (chain : Chain V),
    Lawful compute typeOf → (∀ a b, typeOf a = typeOf b → text a = text b → a = b) →
    (∀ batch ∈ chain.batches, batch.WellTyped typeOf) → Agrees compute text isUnion chain := by
  intro h
  have hagrees := h Value plainCompute Value.type valueText (fun _ => false) nullFirstChain
    plainCompute_lawful valueText_inj
    (forall_mem_cons.mpr ⟨columnBatch_wellTyped (by simp),
      forall_mem_cons.mpr ⟨columnBatch_wellTyped (by simp [one]),
        forall_mem_cons.mpr ⟨columnBatch_wellTyped (by simp), forall_mem_nil _⟩⟩⟩)
  have hfold : nullFirstChain.fold plainCompute =
      some (some [("y", .int64)], [[none], [some (one .int64 (by decide))], [none]]) := by rfl
  have hthrows : execute plainCompute valueText (fun _ => false)
      (planUnion nullFirstChain.head nullFirstChain.operations) =
      .error "UNION cannot convert column 'y': Unsupported cast from int64 to null" := by rfl
  rw [Agrees, hfold] at hagrees
  obtain ⟨schema, output, hok, -⟩ := hagrees
  rw [hthrows] at hok
  cases hok

end MldpDriver.Query.Union
