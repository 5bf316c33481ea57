/-
# IN (SELECT …): what the values of a subquery keep

The values that a subquery returns are turned into literals of the target column's type, and the
literals are compared by the code that compares the literals of a query (or by the backend, where
the column can be pushed down).  On the way a timestamp loses what is below its second, and an
integer is rounded to a `double` when it is compared.  So a row may be kept whose value no value of
the subquery equals.

The backend is a parameter: it returns the rows whose value is one of the pushed literals.
-/
import MldpDriver.Query.Filter

namespace MldpDriver.Query.Membership

open Lib (Binary64)
open Lib.Binary64 (toBinary64)

/-! ## 1. The result of a subquery -/

inductive ColumnType where
  | STRING | BOOL | INT | DURATION_SECONDS | NATIVE_VALUE | TIMESTAMP
  deriving DecidableEq

inductive TimeUnit where
  | second | milli | micro | nano

def TimeUnit.perSecond : TimeUnit → Int
  | .second => 1
  | .milli => 1000
  | .micro => 1000000
  | .nano => 1000000000

/-- How many nanoseconds one step of the unit has. -/
def TimeUnit.nanoseconds : TimeUnit → Int
  | .second => 1000000000
  | .milli => 1000000
  | .micro => 1000
  | .nano => 1

/-- A valid cell of the result: INT8 to UINT64 are `integer`, every type that no target takes is
`other`. -/
inductive ArrowScalar where
  | string (value : String)
  | boolean (value : Bool)
  | integer (value : Int)
  | timestamp (unit : TimeUnit) (value : Int)
  | other

/-- A batch of the result, column by column; `none` is null. -/
structure ResultBatch where
  columns : List (List (Option ArrowScalar))

/-- `timestampToEpochSeconds`: C++ division truncates. -/
def timestampToEpochSeconds (unit : TimeUnit) (value : Int) : Int := value.tdiv unit.perSecond

/-- What `std::stoll` can represent. -/
def fitsInt64 (n : Int) : Bool := decide (-2 ^ 63 ≤ n) && decide (n < 2 ^ 63)

/-- The `switch` over the target type. -/
def valueOf (type : ColumnType) (column : String) (scalar : ArrowScalar) : Except String Literal :=
  match type, scalar with
  | .STRING, .string s => .ok (.string s)
  | .STRING, _ =>
    .error ("IN (SELECT ...) for string column '" ++ column ++ "' requires Arrow string output")
  | .BOOL, .boolean b => .ok (.bool b)
  | .BOOL, _ =>
    .error ("IN (SELECT ...) for bool column '" ++ column ++ "' requires Arrow boolean output")
  | .INT, .integer n | .DURATION_SECONDS, .integer n =>
    if fitsInt64 n then .ok (.int64 n)
    else
      .error ("IN (SELECT ...) value cannot be represented as int64 for column '" ++ column ++ "'")
  | .INT, _ | .DURATION_SECONDS, _ =>
    .error ("IN (SELECT ...) for integral column '" ++ column ++
      "' requires Arrow integral output")
  | .NATIVE_VALUE, _ => .error "IN (SELECT ...) is not supported for native value columns"
  | .TIMESTAMP, .timestamp unit t => .ok (.int64 (timestampToEpochSeconds unit t))
  | .TIMESTAMP, _ =>
    .error ("IN (SELECT ...) for timestamp column '" ++ column ++
      "' requires Arrow timestamp output")

def rowValues (type : ColumnType) (column : String) :
    List (Option ArrowScalar) → Except String (List Literal)
  | [] => .ok []
  | none :: _ => .error ("IN (SELECT ...) for column '" ++ column ++ "' returned a null value")
  | some scalar :: rest => do
    let value ← valueOf type column scalar
    let values ← rowValues type column rest
    .ok (value :: values)

def extractInSubqueryValues (type : ColumnType) (column : String) :
    List ResultBatch → Except String (List Literal)
  | [] => .ok []
  | batch :: rest =>
    match batch.columns with
    | [cells] => do
      let values ← rowValues type column cells
      let more ← extractInSubqueryValues type column rest
      .ok (values ++ more)
    | _ =>
      .error ("IN (SELECT ...) for column '" ++ column ++ "' must return exactly one column")

/-- The values of the result. -/
def resultValues (batches : List ResultBatch) : List ArrowScalar :=
  batches.flatMap fun batch => batch.columns.flatMap fun cells => cells.filterMap id

/-- The literal that a value becomes, whatever the target type is. -/
def ArrowScalar.literal : ArrowScalar → Option Literal
  | .string s => some (.string s)
  | .boolean b => some (.bool b)
  | .integer n => some (.int64 n)
  | .timestamp unit t => some (.int64 (timestampToEpochSeconds unit t))
  | .other => none

variable {type : ColumnType}

theorem valueOf_ok {column : String} {scalar : ArrowScalar} {l : Literal}
    (h : valueOf type column scalar = .ok l) : scalar.literal = some l := by
  unfold valueOf at h
  split at h <;> first | (obtain rfl := Except.ok.inj h; rfl) | cases h | skip
  all_goals
    split at h
    · obtain rfl := Except.ok.inj h
      rfl
    · cases h

theorem rowValues_ok {column : String} {cells : List (Option ArrowScalar)} {values : List Literal}
    (h : rowValues type column cells = .ok values) :
    values = (cells.filterMap id).filterMap ArrowScalar.literal := by
  induction cells generalizing values with
  | nil =>
    obtain rfl := Except.ok.inj h
    rfl
  | cons cell cells ih =>
    cases cell with
    | none => cases h
    | some scalar =>
      rw [rowValues] at h
      cases hv : valueOf type column scalar with
      | error e =>
        rw [hv] at h
        cases h
      | ok value =>
        cases hr : rowValues type column cells with
        | error e =>
          rw [hv, hr] at h
          cases h
        | ok more =>
          rw [hv, hr] at h
          obtain rfl := Except.ok.inj h
          rw [List.filterMap_cons_some (by rfl), List.filterMap_cons_some (valueOf_ok hv), ← ih hr]

/-- **The literals are those of the values, in order.** -/
theorem extract_ok {column : String} {batches : List ResultBatch} {values : List Literal}
    (h : extractInSubqueryValues type column batches = .ok values) :
    values = (resultValues batches).filterMap ArrowScalar.literal := by
  induction batches generalizing values with
  | nil =>
    obtain rfl := Except.ok.inj h
    rfl
  | cons batch batches ih =>
    rw [extractInSubqueryValues] at h
    split at h
    · rename_i cells hcells
      cases hr : rowValues type column cells with
      | error e =>
        rw [hr] at h
        cases h
      | ok values' =>
        cases hx : extractInSubqueryValues type column batches with
        | error e =>
          rw [hr, hx] at h
          cases h
        | ok more =>
          rw [hr, hx] at h
          obtain rfl := Except.ok.inj h
          rw [resultValues, List.flatMap_cons, hcells, List.flatMap_singleton,
            List.filterMap_append, ← rowValues_ok hr, ← resultValues, ← ih hx]
    · cases h

/-! ## 2. The scan -/

/-- An IN subquery of a scan, with the batches of its child. -/
structure PhysicalInSubquery where
  column : String
  columnType : ColumnType
  pushable : Bool
  result : List ResultBatch

def PhysicalInSubquery.values (s : PhysicalInSubquery) : Except String (List Literal) :=
  extractInSubqueryValues s.columnType s.column s.result

/-- The predicate that the extracted values make. -/
def PhysicalInSubquery.predicate (s : PhysicalInSubquery) (values : List Literal) : Predicate :=
  ⟨s.column, .IN, values⟩

/-- `none` when some subquery is empty; else the pushable and the local predicates. -/
def materializeMembershipPredicates (partition : Bool) :
    List PhysicalInSubquery → List Predicate × List Predicate →
      Except String (Option (List Predicate × List Predicate))
  | [], predicates => .ok (some predicates)
  | s :: rest, (pushable, localPredicates) => do
    let values ← s.values
    if values.isEmpty then .ok none
    else if partition && !s.pushable then
      materializeMembershipPredicates partition rest
        (pushable, localPredicates ++ [s.predicate values])
    else
      materializeMembershipPredicates partition rest
        (pushable ++ [s.predicate values], localPredicates)

def resolvePushableInSubqueries :
    List PhysicalInSubquery → List Predicate → Except String (Option (List Predicate))
  | [], pushable => .ok (some pushable)
  | s :: rest, pushable => do
    let values ← s.values
    if values.isEmpty then .ok none
    else resolvePushableInSubqueries rest (pushable ++ [s.predicate values])

section Execute

variable {ρ : Type} (serves : Predicate → ρ → Bool) (batch : RecordBatch ρ)

/-- What the backend returns for the pushed predicates. -/
def served (pushable : List Predicate) : RecordBatch ρ :=
  { batch with rows := batch.rows.filter fun row => pushable.all (serves · row) }

/-- Where the scan runs. -/
inductive Path where
  /-- A derived table or a stored Arrow table: every membership is a local filter. -/
  | stored
  /-- The materialised scan of a backend table. -/
  | backend
  /-- The streaming scan: every membership is pushed. -/
  | streaming

/-- The rows of a scan with pushed predicates `base` and IN subqueries. -/
def execute (path : Path) (base : List Predicate) (subqueries : List PhysicalInSubquery) :
    Except String (List ρ) :=
  match path with
  | .stored =>
    (materializeMembershipPredicates false subqueries ([], [])).map fun
      | none => []
      | some (predicates, _) => (applyFilter batch predicates).rows
  | .backend =>
    (materializeMembershipPredicates true subqueries (base, [])).map fun
      | none => []
      | some (pushable, localPredicates) =>
        (applyFilter (served serves batch pushable) localPredicates).rows
  | .streaming =>
    (resolvePushableInSubqueries subqueries base).map fun
      | none => []
      | some pushable => (served serves batch pushable).rows

/-- The rows that the memberships choose from. -/
def baseRows (path : Path) (base : List Predicate) : List ρ :=
  match path with
  | .stored => batch.rows
  | .backend | .streaming => batch.rows.filter fun row => base.all (serves · row)

end Execute

/-- The membership is decided by the backend. -/
def pushed (path : Path) (s : PhysicalInSubquery) : Bool :=
  match path with
  | .stored => false
  | .backend => s.pushable
  | .streaming => true

/-! ## 3. What a membership keeps -/

/-- The scalars of a column in a row: the elements of the list for `tag`. -/
def columnScalars {ρ : Type} (batch : RecordBatch ρ) (row : ρ) (column : String) :
    List NativeScalar :=
  if column = "tag" then
    match predicateField batch "tags" with
    | none => []
    | some read =>
      match read row with
      | .list values => values
      | .scalar _ => []
  else
    match predicateField batch column with
    | none => []
    | some read => [nativeScalarFromArrow (read row)]

/-- **Equality of values**, at full resolution and over the full range. -/
def equalsValue : NativeScalar → ArrowScalar → Bool
  | .string s, .string t => s == t
  | .boolean a, .boolean b => a == b
  | .signedInteger a, .integer n => a == n
  | .unsignedInteger a, .integer n => (a : Int) == n
  | .floatingPoint d, .integer n => d == .finite n
  | .timestamp ns, .timestamp unit t => ns == t * unit.nanoseconds
  | _, _ => false

/-- The integer that a value is compared as: a timestamp has become whole seconds. -/
def ArrowScalar.whole : ArrowScalar → Option Int
  | .integer n => some n
  | .timestamp unit t => some (timestampToEpochSeconds unit t)
  | _ => none

/-- What the local comparison makes of a value: integers as doubles, timestamps as whole seconds. -/
def localImage (scalar : NativeScalar) (value : ArrowScalar) : Bool :=
  match scalar, value with
  | .string s, .string t => s == t
  | .boolean a, .boolean b => a == b
  | scalar, value =>
    match scalar, value.whole with
    | .signedInteger a, some n => toBinary64 a == toBinary64 n
    | .unsignedInteger a, some n => toBinary64 a == toBinary64 n
    | .floatingPoint d, some n => d == .finite (toBinary64 n)
    | .timestamp ns, some n => toBinary64 (ns.tdiv nsPerSecond) == toBinary64 n
    | _, _ => false

/-- What a literal says to a backend that compares exactly: an integer literal for a timestamp is
that second. -/
def literalEquals : NativeScalar → Literal → Bool
  | .string s, .string t => s == t
  | .boolean a, .bool b => a == b
  | .signedInteger a, .int64 n => a == n
  | .unsignedInteger a, .int64 n => (a : Int) == n
  | .floatingPoint d, .int64 n => d == .finite n
  | .timestamp ns, .int64 n => ns == n * nsPerSecond
  | _, _ => false

def pushedImage (scalar : NativeScalar) (value : ArrowScalar) : Bool :=
  value.literal.any (literalEquals scalar)

/-- The documented behaviour of the backend: it returns the rows whose column has one of the pushed
literals. -/
def ServesExactly {ρ : Type} (serves : Predicate → ρ → Bool) (batch : RecordBatch ρ) : Prop :=
  ∀ p row, p.op = .IN →
    serves p row = (columnScalars batch row p.column).any fun scalar =>
      p.values.any (literalEquals scalar)

section Rows

variable {ρ : Type} (batch : RecordBatch ρ) (row : ρ) (s : PhysicalInSubquery)

/-- Some scalar of the column is related to some value of the subquery. -/
def related (relation : NativeScalar → ArrowScalar → Bool) : Bool :=
  (columnScalars batch row s.column).any fun scalar => (resultValues s.result).any (relation scalar)

/-- The value of the column equals a value of the subquery. -/
def equalMember : Bool := related batch row s equalsValue

/-- The image of some value of the subquery reaches the row. -/
def imageMember (path : Path) : Bool :=
  related batch row s (if pushed path s then pushedImage else localImage)

end Rows

theorem eqb_ofInt_eq (d : Binary64) (n : Int) :
    d.eqb (.ofInt n) = (d == .finite (toBinary64 n)) := by
  cases d <;> simp [Binary64.ofInt, Binary64.eqb]

theorem compareSingle_int64 (scalar : NativeScalar) (n : Int) :
    compareSingle scalar (.int64 n) .EQ =
      match scalar with
      | .signedInteger a => toBinary64 a == toBinary64 n
      | .unsignedInteger a => toBinary64 a == toBinary64 n
      | .floatingPoint d => d == .finite (toBinary64 n)
      | .timestamp ns => toBinary64 (ns.tdiv nsPerSecond) == toBinary64 n
      | _ => false := by
  cases scalar with
  | signedInteger a | unsignedInteger a | timestamp a =>
    simp only [compareSingle, nativeScalarFromLiteral, NativeScalar.asDouble?, compareNumeric,
      Lib.Binary64.eqb_ofInt, beq_eq_decide]
  | floatingPoint d => exact eqb_ofInt_eq d n
  | null | string | boolean | duration | unsupported => rfl

theorem compareSingle_image (scalar : NativeScalar) (value : ArrowScalar) :
    (value.literal.any fun l => compareSingle scalar l .EQ) = localImage scalar value := by
  cases value with
  | string t | boolean b | other => cases scalar <;> rfl
  | integer n =>
    rw [ArrowScalar.literal, Option.any_some, compareSingle_int64]
    cases scalar <;> rfl
  | timestamp unit t =>
    rw [ArrowScalar.literal, Option.any_some, compareSingle_int64]
    cases scalar <;> rfl

theorem any_literals (test : Literal → Bool) (values : List ArrowScalar) :
    (values.filterMap ArrowScalar.literal).any test =
      values.any fun value => value.literal.any test := by
  induction values with
  | nil => rfl
  | cons value values ih =>
    rw [List.filterMap_cons, List.any_cons, ← ih]
    cases value.literal <;> rfl

section Keeps

variable {ρ : Type} {serves : Predicate → ρ → Bool} {batch : RecordBatch ρ}

theorem scalarMatches_in (cell : Cell) (column : String) (values : List Literal) :
    scalarMatchesPredicate cell ⟨column, .IN, values⟩ =
      values.any (compareSingle (nativeScalarFromArrow cell) · .EQ) := by
  have hinvalid : ∀ native : NativeScalar, native = .null ∨ native = .unsupported →
      values.any (compareSingle native · .EQ) = false := by
    rintro native (rfl | rfl) <;>
      exact List.any_eq_false.mpr fun l _ => by cases l <;> exact Bool.false_ne_true
  simp only [scalarMatchesPredicate]
  split
  · rename_i h
    rw [h, hinvalid _ (.inl rfl)]
  · rename_i h
    rw [h, hinvalid _ (.inr rfl)]
  · rfl

theorem predicateTruth_in (row : ρ) (column : String) (values : List Literal) :
    (predicateTruth batch row ⟨column, .IN, values⟩ == .trueValue) =
      (columnScalars batch row column).any fun scalar =>
        values.any (compareSingle scalar · .EQ) := by
  unfold predicateTruth columnScalars
  by_cases htag : column = "tag"
  · simp only [htag, if_true]
    cases predicateField batch "tags" with
    | none => rfl
    | some read =>
      simp only [truth_ofBool_eq_true]
      cases read row with
      | scalar => rfl
      | list elements =>
        simp only [listContainsPredicateValue, scalarMatches_in, nativeScalarFromArrow]
  · simp only [htag, if_false]
    cases predicateField batch column with
    | none => rfl
    | some read =>
      have hmatch := scalarMatches_in (read row) column values
      simp only [List.any_cons, List.any_nil, Bool.or_false, ← hmatch]
      split
      · rename_i hnull
        -- a null cell equals no literal
        have hcell : (read row).isValid = false := by simpa [isNullTest] using hnull
        have : scalarMatchesPredicate (read row) ⟨column, .IN, values⟩ = false := by
          generalize read row = cell at hcell
          rcases cell with v | l
          · cases v <;> first | rfl | cases hcell
          · cases hcell
        rw [this]
        rfl
      · exact truth_ofBool_eq_true _

/-- **What one membership keeps**, in the backend or locally. -/
theorem keeps_eq (hserves : ServesExactly serves batch) (path : Path) (s : PhysicalInSubquery)
    {values : List Literal} (h : s.values = .ok values) (row : ρ) :
    (if pushed path s then serves (s.predicate values) row
      else predicateTruth batch row (s.predicate values) == .trueValue) =
        imageMember batch row s path := by
  have hvalues := extract_ok h
  unfold imageMember related
  cases pushed path s with
  | true =>
    rw [if_pos rfl, if_pos rfl, hserves _ _ rfl]
    refine congrArg _ (funext fun scalar => ?_)
    rw [PhysicalInSubquery.predicate, hvalues]
    exact any_literals _ _
  | false =>
    rw [if_neg Bool.false_ne_true, if_neg Bool.false_ne_true, PhysicalInSubquery.predicate,
      predicateTruth_in]
    refine congrArg _ (funext fun scalar => ?_)
    rw [hvalues, any_literals]
    exact congrArg _ (funext fun value => compareSingle_image scalar value)

/-! ## 4. What the scan returns

`execute_ok`: what each of the three ways to run such a scan returns, when it reports no error. -/

theorem imageMember_of_empty (path : Path) {s : PhysicalInSubquery} (h : s.values = .ok [])
    (row : ρ) : imageMember batch row s path = false := by
  have hempty := extract_ok h
  have hnone : ∀ value ∈ resultValues s.result, value.literal = none :=
    List.filterMap_eq_nil_iff.mp hempty.symm
  refine List.any_eq_false.mpr fun scalar _ => ?_
  rw [Bool.not_eq_true, List.any_eq_false]
  intro value hvalue
  have hvalue := hnone value hvalue
  cases value with
  | other =>
    split
    · exact Bool.false_ne_true
    · cases scalar <;> exact Bool.false_ne_true
  | string | boolean | integer | timestamp => cases hvalue

/-- What is said of every membership: an empty one keeps nothing, and else its predicate decides. -/
def Decides (s : PhysicalInSubquery) (keep : Predicate → Bool) (member : Bool) : Prop :=
  ∀ values, s.values = .ok values →
    (values = [] → member = false) ∧ keep (s.predicate values) = member

/-- **The loop over the memberships**: the predicates made so far and the memberships to come. -/
theorem materialize_all (partition : Bool) (keepP keepL : Predicate → Bool)
    (member : PhysicalInSubquery → Bool) :
    ∀ {subqueries : List PhysicalInSubquery} {pushable localPredicates : List Predicate}
      {made : Option (List Predicate × List Predicate)},
      (∀ s ∈ subqueries, Decides s (if partition && !s.pushable then keepL else keepP)
        (member s)) →
      materializeMembershipPredicates partition subqueries (pushable, localPredicates) =
          .ok made →
        (match made with
          | none => false
          | some (p, l) => p.all keepP && l.all keepL) =
          (pushable.all keepP && localPredicates.all keepL && subqueries.all member)
  | [], pushable, localPredicates, made, _, h => by
    obtain rfl := Except.ok.inj h
    rw [List.all_nil, Bool.and_true]
  | s :: rest, pushable, localPredicates, made, hdecides, h => by
    rw [materializeMembershipPredicates] at h
    cases hv : s.values with
    | error e =>
      rw [hv] at h
      cases h
    | ok values =>
      rw [hv] at h
      obtain ⟨hnil, hkeep⟩ := hdecides s List.mem_cons_self values hv
      have hrest := fun s hs => hdecides s (List.mem_cons_of_mem _ hs)
      rw [List.all_cons]
      cases values with
      | nil =>
        obtain rfl := Except.ok.inj h
        rw [hnil rfl, Bool.false_and, Bool.and_false]
      | cons value values =>
        simp only [bind, Except.bind, List.isEmpty_cons, Bool.false_eq_true, if_false] at h
        split at h
        · rename_i hlocal
          rw [if_pos hlocal] at hkeep
          rw [materialize_all partition keepP keepL member hrest h, List.all_append, List.all_cons,
            List.all_nil, hkeep]
          ac_rfl
        · rename_i hpush
          rw [if_neg hpush] at hkeep
          rw [materialize_all partition keepP keepL member hrest h, List.all_append, List.all_cons,
            List.all_nil, hkeep]
          ac_rfl

theorem resolve_eq (subqueries : List PhysicalInSubquery) (pushable : List Predicate) :
    resolvePushableInSubqueries subqueries pushable =
      (materializeMembershipPredicates false subqueries (pushable, [])).map
        (Option.map Prod.fst) := by
  induction subqueries generalizing pushable with
  | nil => rfl
  | cons s rest ih =>
    rw [resolvePushableInSubqueries, materializeMembershipPredicates]
    cases s.values with
    | error e => rfl
    | ok values =>
      cases values with
      | nil => rfl
      | cons value values => exact ih _

theorem except_map_ok {ε α β : Type} {x : Except ε α} {f : α → β} {b : β} (h : x.map f = .ok b) :
    ∃ a, x = .ok a ∧ f a = b := by
  cases x with
  | error e => cases h
  | ok a => exact ⟨a, rfl, Except.ok.inj h⟩

theorem decides (hserves : ServesExactly serves batch) (path : Path) (row : ρ)
    (s : PhysicalInSubquery) :
    Decides s (fun p => if pushed path s then serves p row
      else predicateTruth batch row p == .trueValue) (imageMember batch row s path) := by
  intro values hv
  refine ⟨?_, keeps_eq hserves path s hv row⟩
  rintro rfl
  exact imageMember_of_empty path hv row

theorem filter_filter_and {α : Type} (p q : α → Bool) (l : List α) :
    (l.filter p).filter q = l.filter fun a => p a && q a := by
  rw [List.filter_filter]
  exact List.filter_congr fun a _ => Bool.and_comm _ _

/-- **What a scan with memberships returns**: the rows that the images of the values reach. -/
theorem execute_ok (hserves : ServesExactly serves batch) (path : Path) {base : List Predicate}
    {subqueries : List PhysicalInSubquery} {kept : List ρ}
    (h : execute serves batch path base subqueries = .ok kept) :
    kept = (baseRows serves batch path base).filter fun row =>
      subqueries.all fun s => imageMember batch row s path := by
  have hdecides (row : ρ) (s : PhysicalInSubquery) := decides hserves path row s
  have hnone (test : ρ → Bool) (htest : ∀ row, false = test row) (rows : List ρ) :
      [] = rows.filter test :=
    (List.filter_eq_nil_iff.mpr fun row _ => by simp [← htest row]).symm
  cases path with
  | stored =>
    obtain ⟨made, hmade, rfl⟩ := except_map_ok h
    have hall (row : ρ) := materialize_all false
      (fun p => predicateTruth batch row p == .trueValue) (fun _ => true)
      (fun s => imageMember batch row s .stored) (fun s _ => hdecides row s) hmade
    cases made with
    | none => exact hnone _ (fun row => by simpa using hall row) _
    | some made =>
      refine (applyFilter_rows batch made.1).trans (List.filter_congr fun row _ => ?_)
      have htrue : (made.2.all fun _ => true) = true := List.all_eq_true.mpr fun _ _ => rfl
      simpa [rowPasses, htrue] using hall row
  | backend =>
    obtain ⟨made, hmade, rfl⟩ := except_map_ok h
    have hall (row : ρ) := materialize_all true (serves · row)
      (fun p => predicateTruth batch row p == .trueValue)
      (fun s => imageMember batch row s .backend)
      (fun s _ => by
        have := hdecides row s
        simp only [pushed] at this
        cases hs : s.pushable <;> simpa [hs] using this) hmade
    rw [baseRows, filter_filter_and]
    cases made with
    | none => exact hnone _ (fun row => by simpa using hall row) _
    | some made =>
      refine (applyFilter_rows _ made.2).trans ?_
      rw [served, filter_filter_and]
      refine List.filter_congr fun row _ => ?_
      have hrow := hall row
      rw [List.all_nil, Bool.and_true] at hrow
      exact hrow
  | streaming =>
    obtain ⟨resolved, hresolved, rfl⟩ := except_map_ok h
    rw [resolve_eq] at hresolved
    obtain ⟨made, hmade, rfl⟩ := except_map_ok hresolved
    have hall (row : ρ) := materialize_all false (serves · row) (fun _ => true)
      (fun s => imageMember batch row s .streaming) (fun s _ => hdecides row s) hmade
    rw [baseRows, filter_filter_and]
    cases made with
    | none => exact hnone _ (fun row => by simpa using hall row) _
    | some made =>
      have htrue : (made.2.all fun _ => true) = true := List.all_eq_true.mpr fun _ _ => rfl
      exact List.filter_congr fun row _ => by simpa [htrue] using hall row

end Keeps

/-! ## 5. When it is what IN says -/

/-- **When a scan keeps what IN (SELECT …) says**: a scan that reports no error returns the rows
whose value equals a value of every subquery exactly when the images of the values reach these rows
and no others.  The image of a value is what a literal keeps of it: whole seconds, or a
`double`. -/
theorem execute_in_iff {ρ : Type} (serves : Predicate → ρ → Bool) (batch : RecordBatch ρ)
    (hserves : ServesExactly serves batch) (path : Path) (base : List Predicate)
    (subqueries : List PhysicalInSubquery) (kept : List ρ)
    (hrun : execute serves batch path base subqueries = .ok kept) :
    (kept = (baseRows serves batch path base).filter fun row =>
        subqueries.all fun s => equalMember batch row s) ↔
      ∀ row ∈ baseRows serves batch path base,
        ((∀ s ∈ subqueries, imageMember batch row s path = true) ↔
          ∀ s ∈ subqueries, equalMember batch row s = true) := by
  rw [execute_ok hserves path hrun]
  constructor
  · intro h row hrow
    have hmem := congrArg (row ∈ ·) h
    simpa only [List.mem_filter, hrow, true_and, List.all_eq_true, eq_iff_iff] using hmem
  · intro h
    refine List.filter_congr fun row hrow => ?_
    rw [Bool.eq_iff_iff, List.all_eq_true, List.all_eq_true]
    exact h row hrow

/-- A table of timestamps, in nanoseconds. -/
def times (rows : List Int) : RecordBatch Int :=
  ⟨[("time", fun t => .scalar (.timestamp t))], rows⟩

/-- A backend that compares exactly. -/
def exactBackend (batch : RecordBatch Int) (p : Predicate) (row : Int) : Bool :=
  (columnScalars batch row p.column).any fun scalar => p.values.any (literalEquals scalar)

/-- `time IN (SELECT …)` with one value. -/
def timeIn (value : Int) : PhysicalInSubquery :=
  ⟨"time", .TIMESTAMP, false, [⟨[[some (.timestamp .nano value)]]⟩]⟩

/-- Whole seconds far enough apart are told apart. -/
theorem execute_in_wholeSeconds :
    [2000000000] = (times [1000000000, 2000000000]).rows.filter fun row =>
      [timeIn 2000000000].all fun s => equalMember (times [1000000000, 2000000000]) row s :=
  (execute_in_iff (exactBackend (times [1000000000, 2000000000])) (times [1000000000, 2000000000])
    (fun _ _ _ => rfl) .stored [] [timeIn 2000000000] [2000000000] (by decide +kernel)).mpr
    (by decide +kernel)

/-- Two rows of one second are kept for one value: the subquery says 1.5 s, and 1.0 s is kept
too. -/
theorem execute_in_sameSecond :
    execute (exactBackend (times [1000000000, 1500000000])) (times [1000000000, 1500000000])
        .stored [] [timeIn 1500000000] = .ok [1000000000, 1500000000] ∧
      ((times [1000000000, 1500000000]).rows.filter fun row =>
        [timeIn 1500000000].all fun s => equalMember (times [1000000000, 1500000000]) row s) =
          [1500000000] := by
  decide +kernel

end MldpDriver.Query.Membership
