/-
# What the query client asks the backend for

`MLDPQueryClient` turns pushed predicates into backend requests.  A request of `mldp.time_series`
names PVs or a pattern (`applyPvSelector`) and a range of whole seconds (`requestedTimeRange`); the
rows that come back are checked against the PATTERN predicates only (`matchesPvNamePredicates`).
Three choices of this module decide what a WHERE clause means:

* the names of all `=` and `IN` predicates are put in one list (`requestedPvs`), and nothing checks
  a row against them afterwards;
* without names the FIRST pattern is pushed;
* of several bounds on `time` the last one of each direction is the range.

The metadata, configuration and status selectors read other columns and are not modelled.
-/
import MldpDriver.Lib.Loop
import MldpDriver.Query.WindowFlat

namespace MldpDriver.Query

open Lib (Binary64)
open Lib.Loop (mapM_eq_pure)
open Lib.Tiling (Piece)
open Lib.Binary64 (toBinary64)

/-! ## 1. Selecting PVs -/

def isPvListPredicate (p : Predicate) : Bool := p.column == "pv" && (p.op == .EQ || p.op == .IN)

def isPvPatternPredicate (p : Predicate) : Bool :=
  p.column == "pv" && (p.op == .PREFIX || p.op == .CONTAINS || p.op == .LIKE)

def predicateStrings (p : Predicate) : Except String (List String) :=
  p.values.mapM fun v =>
    match v.string? with
    | some s => .ok s
    | none => .error ("MLDP query predicate " ++ p.column ++ " requires string values")

/-- The names of the `=` and `IN` predicates, each once. -/
def requestedPvs (predicates : List Predicate) : Except String (List String) := do
  let names ← (predicates.filter isPvListPredicate).mapM predicateStrings
  .ok names.flatten.eraseDups

def withoutPvListPredicates (predicates : List Predicate) : List Predicate :=
  predicates.filter fun p => !isPvListPredicate p

/-- The PVs a request is for.  A pattern is pushed as a regular expression; it stands here as the
operator and the text it is made from, and `none` is the all-PV form `.*`. -/
inductive PvSelector where
  | pvNameList (names : List String)
  | pvNamePattern (pattern : Option (PredicateOp × String))
  deriving DecidableEq

/-- `pvNameRegex`. -/
def pvNamePattern (p : Predicate) : Except String (PredicateOp × String) := do
  match ← predicateStrings p with
  | [text] => .ok (p.op, text)
  | _ => .error "MLDP pv pattern predicate requires one string value"

/-- Only one pattern can be pushed. -/
def pvNamePatternFor (predicates : List Predicate) :
    Except String (Option (PredicateOp × String)) :=
  match predicates.find? isPvPatternPredicate with
  | some p => (pvNamePattern p).map some
  | none => .ok none

def applyPvSelector (predicates : List Predicate) : Except String PvSelector := do
  let pvs ← requestedPvs predicates
  if pvs.isEmpty then do
    let pattern ← pvNamePatternFor predicates
    .ok (.pvNamePattern pattern)
  else .ok (.pvNameList pvs)

/-- The PVs of a selector: a list is the names in it, a pattern what its text matches. -/
def PvSelector.selects (pv : String) : PvSelector → Bool
  | .pvNameList names => names.contains pv
  | .pvNamePattern (some (op, text)) => compareString pv text op
  | .pvNamePattern none => true

/-! ## 2. The time range -/

/-- The last second of `int64_t` nanoseconds. -/
def maxSeconds : Int := int64Max.tdiv nsPerSecond

/-- One turn of the loop of `requestedTimeRange`. -/
def timeBound (range : Int × Int) (p : Predicate) : Except String (Int × Int) :=
  if p.column != "time" then .ok range
  else
    match p.op, p.values with
    | .GTE, [.int64 s] => .ok (s, range.2)
    | .LTE, [.int64 s] => .ok (range.1, s)
    | _, _ =>
      .error "MLDP time predicate must be time >= or time <= with an integer timestamp"

def requestedTimeRange (predicates : List Predicate) : Except String (Int × Int) :=
  predicates.foldlM timeBound (0, maxSeconds)

/-- `setTimestamp`: the seconds as a `uint64_t`. -/
def epochSeconds (seconds : Int) : Nat := (seconds % 2 ^ 64).toNat

structure QuerySpec where
  pvSelector : PvSelector
  beginTime : Nat
  endTime : Nat

def buildQuerySpec (predicates : List Predicate) : Except String QuerySpec := do
  let range ← requestedTimeRange predicates
  let selector ← applyPvSelector predicates
  .ok ⟨selector, epochSeconds range.1, epochSeconds range.2⟩

/-! ## 3. Reading the answers -/

/-- The buckets of an answer, decoded to rows. -/
abbrev Backend := QuerySpec → List (RecordBatch Sample)

def matchesStringPredicate (p : Predicate) (value : String) : Except String Bool :=
  if p.op = .PREFIX ∨ p.op = .CONTAINS ∨ p.op = .LIKE then
    match p.values with
    | [.string text] => .ok (compareString value text p.op)
    | _ => .error ("MLDP metadata predicate '" ++ p.column ++ "' requires one string value")
  else if p.op = .EQ ∨ p.op = .IN then
    p.values.foldlM (fun found v =>
      match v.string? with
      | some s => .ok (found || s == value)
      | none =>
        if found then .ok true
        else .error ("MLDP metadata predicate '" ++ p.column ++ "' requires string values")) false
  else
    .error ("MLDP metadata predicate '" ++ p.column ++
      "' requires =, IN, PREFIX, CONTAINS, or LIKE")

/-- Only the pattern predicates are checked on a row. -/
def matchesPvNamePredicates (pv : String) (predicates : List Predicate) : Except String Bool :=
  (predicates.filter isPvPatternPredicate).foldlM
    (fun holds p => if holds then matchesStringPredicate p pv else .ok false) true

/-- `decodeDataBucketsToBatch`, the PV filter. -/
def decodeBuckets (predicates : List Predicate) (batch : RecordBatch Sample) :
    Except String (RecordBatch Sample) := do
  let kept ← batch.rows.mapM fun x => matchesPvNamePredicates x.pv predicates
  .ok { batch with rows := ((batch.rows.zip kept).filter (·.2)).map (·.1) }

/-- `MldpQueryBucketsPagedStream`, drained. -/
def queryBuckets (backend : Backend) (predicates : List Predicate) :
    Except String (List (RecordBatch Sample)) := do
  let spec ← buildQuerySpec predicates
  (backend spec).mapM (decodeBuckets predicates)

/-- `executeStream` of `mldp.time_series`, drained: one request, or one for each block of
`series_per_shard` names. -/
def executeStream (backend : Backend) (seriesPerShard : Nat) (predicates : List Predicate) :
    Except String (List (RecordBatch Sample)) := do
  let pvs ← requestedPvs predicates
  if seriesPerShard ≠ 0 ∧ seriesPerShard < pvs.length then do
    let shards ← (pvShards seriesPerShard pvs).mapM fun shard =>
      queryBuckets backend (withoutPvListPredicates predicates ++ [⟨"pv", .IN, shard.map .string⟩])
    .ok shards.flatten
  else queryBuckets backend predicates

/-- A row of `mldp.pv_stats`. -/
structure PvStats where
  pvName : String
  firstDataTimestamp : Int
  lastDataTimestamp : Int
  numBuckets : Int

/-- `executeStream` of `mldp.pv_stats`: one request by pattern, or one for each block of names. -/
def executePvStats (backend : PvSelector → List PvStats) (seriesPerShard : Nat)
    (predicates : List Predicate) : Except String (List PvStats) := do
  let pvs ← requestedPvs predicates
  if pvs.isEmpty then do
    let pattern ← pvNamePatternFor predicates
    .ok (backend (.pvNamePattern pattern))
  else
    let shardSize := if seriesPerShard = 0 then pvs.length else min pvs.length seriesPerShard
    .ok ((pvShards shardSize pvs).flatMap fun shard => backend (.pvNameList shard))

/-! ## 4. Conjuncts on `pv` and `time` -/

inductive PatternOp where
  | PREFIX | CONTAINS | LIKE

def PatternOp.toOp : PatternOp → PredicateOp
  | .PREFIX => .PREFIX
  | .CONTAINS => .CONTAINS
  | .LIKE => .LIKE

/-- A conjunct on the two columns, with the literals the type checker admits. -/
inductive ScanConjunct where
  | pvEq (name : String)
  | pvIn (names : List String)
  | pvPattern (op : PatternOp) (text : String)
  | timeFrom (seconds : Int)
  | timeTo (seconds : Int)

def ScanConjunct.toPredicate : ScanConjunct → Predicate
  | .pvEq name => ⟨"pv", .EQ, [.string name]⟩
  | .pvIn names => ⟨"pv", .IN, names.map .string⟩
  | .pvPattern op text => ⟨"pv", op.toOp, [.string text]⟩
  | .timeFrom s => ⟨"time", .GTE, [.int64 s]⟩
  | .timeTo s => ⟨"time", .LTE, [.int64 s]⟩

/-- What SQL says of a conjunct on a row. -/
def ScanConjunct.holds (pv : String) (time : Int) : ScanConjunct → Bool
  | .pvEq name => pv == name
  | .pvIn names => names.contains pv
  | .pvPattern op text => compareString pv text op.toOp
  | .timeFrom s => decide (s * nsPerSecond ≤ time)
  | .timeTo s => decide (time ≤ s * nsPerSecond)

def ScanConjunct.names : ScanConjunct → List String
  | .pvEq name => [name]
  | .pvIn names => names
  | _ => []

def ScanConjunct.isList : ScanConjunct → Bool
  | .pvEq _ | .pvIn _ => true
  | _ => false

def ScanConjunct.isPattern : ScanConjunct → Bool
  | .pvPattern _ _ => true
  | _ => false

def ScanConjunct.isTime : ScanConjunct → Bool
  | .timeFrom _ | .timeTo _ => true
  | _ => false

/-- Every name of a list of conjuncts, in order. -/
def listedNames (cs : List ScanConjunct) : List String := cs.flatMap (·.names)

/-- Every pattern holds of the PV. -/
def patternsHold (cs : List ScanConjunct) (pv : String) : Bool :=
  (cs.filter (·.isPattern)).all (·.holds pv 0)

/-- One turn of the loop over the time bounds. -/
def ScanConjunct.bound (range : Int × Int) : ScanConjunct → Int × Int
  | .timeFrom s => (s, range.2)
  | .timeTo s => (range.1, s)
  | _ => range

/-- The range of the request: the last bound of each direction. -/
def lastRange (cs : List ScanConjunct) : Int × Int :=
  cs.foldl ScanConjunct.bound (0, maxSeconds)

/-- The selector of the request: the names, else the first pattern, else every PV. -/
def selectorOf (cs : List ScanConjunct) : PvSelector :=
  if (listedNames cs).isEmpty then
    .pvNamePattern ((cs.find? (·.isPattern)).bind fun c =>
      match c with
      | .pvPattern op text => some (op.toOp, text)
      | _ => none)
  else .pvNameList (listedNames cs).eraseDups

def specOf (cs : List ScanConjunct) : QuerySpec :=
  ⟨selectorOf cs, epochSeconds (lastRange cs).1, epochSeconds (lastRange cs).2⟩

/-! ## 5. What is asked for a list of conjuncts -/

theorem predicateStrings_strings (column : String) (op : PredicateOp) (texts : List String) :
    predicateStrings ⟨column, op, texts.map .string⟩ = .ok texts := by
  simp only [predicateStrings]
  induction texts with
  | nil => rfl
  | cons s l ih =>
    rw [List.map_cons, List.mapM_cons, ih]
    rfl

/-- The predicates of a list of conjuncts. -/
abbrev predicatesOf (cs : List ScanConjunct) : List Predicate := cs.map (·.toPredicate)

@[simp] theorem isPvListPredicate_toPredicate (c : ScanConjunct) :
    isPvListPredicate c.toPredicate = c.isList := by
  cases c with
  | pvPattern op text => cases op <;> rfl
  | _ => rfl

@[simp] theorem isPvPatternPredicate_toPredicate (c : ScanConjunct) :
    isPvPatternPredicate c.toPredicate = c.isPattern := by
  cases c with
  | pvPattern op text => cases op <;> rfl
  | _ => rfl

theorem names_eq_nil {c : ScanConjunct} (h : c.isList = false) : c.names = [] := by
  cases c <;> first | rfl | cases h

theorem predicateStrings_toPredicate {c : ScanConjunct} (h : c.isList = true) :
    predicateStrings c.toPredicate = .ok c.names := by
  cases c with
  | pvEq name => rfl
  | pvIn names => exact predicateStrings_strings "pv" .IN names
  | _ => cases h

theorem mapM_predicateStrings (cs : List ScanConjunct) :
    ∃ names, ((predicatesOf cs).filter isPvListPredicate).mapM predicateStrings = .ok names ∧
      names.flatten = listedNames cs := by
  induction cs with
  | nil => exact ⟨[], rfl, rfl⟩
  | cons c cs ih =>
    obtain ⟨names, hrun, hnames⟩ := ih
    cases hc : c.isList with
    | false =>
      refine ⟨names, ?_, ?_⟩
      · rw [← hrun]
        simp [hc]
      · rw [hnames]
        simp [listedNames, names_eq_nil hc]
    | true =>
      refine ⟨c.names :: names, ?_, ?_⟩
      · simp only [predicatesOf, List.map_cons, List.filter_cons, isPvListPredicate_toPredicate, hc,
          if_true, List.mapM_cons, predicateStrings_toPredicate hc] at hrun ⊢
        rw [hrun]
        rfl
      · simp [listedNames, hnames]

/-- **The requested names**: those of all list conjuncts, each once. -/
theorem requestedPvs_eq (cs : List ScanConjunct) :
    requestedPvs (predicatesOf cs) = .ok (listedNames cs).eraseDups := by
  obtain ⟨names, hrun, hnames⟩ := mapM_predicateStrings cs
  simp only [requestedPvs, hrun, bind, Except.bind, hnames]

theorem requestedPvValues_eq (cs : List ScanConjunct) :
    requestedPvValues (predicatesOf cs) = listedNames cs := by
  induction cs with
  | nil => rfl
  | cons c cs ih =>
    simp only [requestedPvValues, predicatesOf, List.map_cons, listedNames, List.flatMap_cons] at ih ⊢
    rw [← ih]
    cases c with
    | pvIn names =>
      have hnames := filterMap_string_map names
      rw [List.filterMap_map] at hnames
      simpa [ScanConjunct.toPredicate, ScanConjunct.names] using hnames
    | pvPattern op text =>
      cases op <;> simp [ScanConjunct.toPredicate, ScanConjunct.names, PatternOp.toOp]
    | _ => simp [ScanConjunct.toPredicate, ScanConjunct.names, Literal.string?]

theorem timeBound_toPredicate (range : Int × Int) (c : ScanConjunct) :
    timeBound range c.toPredicate = .ok (c.bound range) := by
  cases c with
  | pvPattern op text => cases op <;> rfl
  | _ => rfl

theorem foldlM_timeBound (cs : List ScanConjunct) (range : Int × Int) :
    (predicatesOf cs).foldlM timeBound range = .ok (cs.foldl ScanConjunct.bound range) := by
  induction cs generalizing range with
  | nil => rfl
  | cons c cs ih =>
    rw [predicatesOf, List.map_cons, List.foldlM_cons, timeBound_toPredicate, List.foldl_cons]
    exact ih _

/-- **The requested range**: the last bound of each direction. -/
theorem requestedTimeRange_eq (cs : List ScanConjunct) :
    requestedTimeRange (predicatesOf cs) = .ok (lastRange cs) := by
  rw [requestedTimeRange, foldlM_timeBound]
  rfl

theorem pvNamePatternFor_eq (cs : List ScanConjunct) :
    pvNamePatternFor (predicatesOf cs) = .ok ((cs.find? (·.isPattern)).bind fun c =>
      match c with
      | .pvPattern op text => some (op.toOp, text)
      | _ => none) := by
  induction cs with
  | nil => rfl
  | cons c cs ih =>
    unfold pvNamePatternFor at ih ⊢
    cases hc : c.isPattern with
    | false =>
      rw [predicatesOf, List.map_cons, List.find?_cons_of_neg (by simp [hc]),
        List.find?_cons_of_neg (by simp [hc])]
      exact ih
    | true =>
      rw [predicatesOf, List.map_cons, List.find?_cons_of_pos (by simp [hc]),
        List.find?_cons_of_pos hc]
      cases c with
      | pvPattern op text => rfl
      | _ => cases hc

theorem eraseDups_isEmpty (l : List String) : l.eraseDups.isEmpty = l.isEmpty := by
  cases l with
  | nil => rfl
  | cons a l => simp [List.eraseDups_cons]

/-- **The request of a list of conjuncts.** -/
theorem buildQuerySpec_eq (cs : List ScanConjunct) :
    buildQuerySpec (predicatesOf cs) = .ok (specOf cs) := by
  have hselector : applyPvSelector (predicatesOf cs) = .ok (selectorOf cs) := by
    simp only [applyPvSelector, requestedPvs_eq, pvNamePatternFor_eq, bind, Except.bind,
      eraseDups_isEmpty, selectorOf]
    split <;> rfl
  simp only [buildQuerySpec, requestedTimeRange_eq, hselector, bind, Except.bind, specOf]

theorem matchesStringPredicate_pattern {c : ScanConjunct} (h : c.isPattern = true) (pv : String) :
    matchesStringPredicate c.toPredicate pv = .ok (c.holds pv 0) := by
  cases c with
  | pvPattern op text => cases op <;> rfl
  | _ => cases h

theorem foldlM_patterns (pv : String) : ∀ (cs : List ScanConjunct) (holds : Bool),
    (∀ c ∈ cs, c.isPattern = true) →
    (predicatesOf cs).foldlM (fun holds p => if holds then matchesStringPredicate p pv else .ok false)
      holds = .ok (holds && cs.all (·.holds pv 0)) := by
  intro cs
  induction cs with
  | nil => simp [predicatesOf, pure, Except.pure]
  | cons c cs ih =>
    intro holds h
    have hc := matchesStringPredicate_pattern (h c List.mem_cons_self) pv
    have hrest := fun b => ih b fun d hd => h d (List.mem_cons_of_mem _ hd)
    rw [predicatesOf, List.map_cons, List.foldlM_cons]
    cases holds with
    | false => simpa [bind, Except.bind] using hrest false
    | true => simpa [hc, bind, Except.bind] using hrest (c.holds pv 0)

/-- **What is checked on a row**: the patterns. -/
theorem matchesPvNamePredicates_eq (cs : List ScanConjunct) (pv : String) :
    matchesPvNamePredicates pv (predicatesOf cs) = .ok (patternsHold cs pv) := by
  have hfilter : (predicatesOf cs).filter isPvPatternPredicate =
      predicatesOf (cs.filter (·.isPattern)) := by
    simp [predicatesOf, List.filter_map, Function.comp_def]
  rw [matchesPvNamePredicates, hfilter, foldlM_patterns pv _ true fun c hc =>
    (List.mem_filter.mp hc).2]
  rfl

/-- A decoded batch keeps the rows whose PV matches every pattern. -/
def keepPatterns (cs : List ScanConjunct) (batch : RecordBatch Sample) : RecordBatch Sample :=
  { batch with rows := batch.rows.filter fun x => patternsHold cs x.pv }

theorem zip_map_filter {α : Type} (l : List α) (p : α → Bool) :
    ((l.zip (l.map p)).filter (·.2)).map (·.1) = l.filter p := by
  induction l with
  | nil => rfl
  | cons a l ih =>
    rw [List.map_cons, List.zip_cons_cons, List.filter_cons, List.filter_cons]
    cases p a <;> simp [ih]

theorem decodeBuckets_eq (cs : List ScanConjunct) (batch : RecordBatch Sample) :
    decodeBuckets (predicatesOf cs) batch = .ok (keepPatterns cs batch) := by
  have hkept : batch.rows.mapM (fun x => matchesPvNamePredicates x.pv (predicatesOf cs)) =
      .ok (batch.rows.map fun x => patternsHold cs x.pv) :=
    mapM_eq_pure fun x _ => matchesPvNamePredicates_eq cs x.pv
  simp only [decodeBuckets, hkept, bind, Except.bind, zip_map_filter, keepPatterns]

/-- **One request**: the answer to the request of the conjuncts, cut to their patterns. -/
theorem queryBuckets_eq (backend : Backend) (cs : List ScanConjunct) :
    queryBuckets backend (predicatesOf cs) =
      .ok ((backend (specOf cs)).map (keepPatterns cs)) := by
  simp only [queryBuckets, buildQuerySpec_eq, bind, Except.bind]
  exact mapM_eq_pure fun batch _ => decodeBuckets_eq cs batch

/-- The conjuncts of one block of names. -/
def shardConjuncts (cs : List ScanConjunct) (shard : List String) : List ScanConjunct :=
  cs.filter (fun c => !c.isList) ++ [.pvIn shard]

theorem predicatesOf_shardConjuncts (cs : List ScanConjunct) (shard : List String) :
    predicatesOf (shardConjuncts cs shard) =
      withoutPvListPredicates (predicatesOf cs) ++ [⟨"pv", .IN, shard.map .string⟩] := by
  simp only [predicatesOf, shardConjuncts, withoutPvListPredicates, List.map_append, List.filter_map,
    Function.comp_def, isPvListPredicate_toPredicate]
  rfl

/-- The conjuncts of the requests of a scan without windows. -/
def requestConjuncts (seriesPerShard : Nat) (cs : List ScanConjunct) : List (List ScanConjunct) :=
  if seriesPerShard ≠ 0 ∧ seriesPerShard < (listedNames cs).eraseDups.length then
    (pvShards seriesPerShard (listedNames cs).eraseDups).map (shardConjuncts cs)
  else [cs]

/-- **A scan without windows**: the answers to its requests. -/
theorem executeStream_eq (backend : Backend) (seriesPerShard : Nat) (cs : List ScanConjunct) :
    executeStream backend seriesPerShard (predicatesOf cs) =
      .ok ((requestConjuncts seriesPerShard cs).flatMap fun request =>
        (backend (specOf request)).map (keepPatterns request)) := by
  simp only [executeStream, requestedPvs_eq, bind, Except.bind, requestConjuncts]
  split
  · have hshards : (pvShards seriesPerShard (listedNames cs).eraseDups).mapM (fun shard =>
        queryBuckets backend
          (withoutPvListPredicates (predicatesOf cs) ++ [⟨"pv", .IN, shard.map .string⟩])) =
        .ok ((pvShards seriesPerShard (listedNames cs).eraseDups).map fun shard =>
          (backend (specOf (shardConjuncts cs shard))).map (keepPatterns (shardConjuncts cs shard))) :=
      mapM_eq_pure fun shard _ => by
        rw [← predicatesOf_shardConjuncts, queryBuckets_eq]
        rfl
    simp only [hshards, List.flatMap_def, List.map_map, Function.comp_def]
  · simp [queryBuckets_eq]

end MldpDriver.Query
