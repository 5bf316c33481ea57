/-
# The time criterion of an activation scan

A scan of `mldp.configuration_activation` sends its bounds on `start_time` to the annotation service
as one time range, and filters the answer again.  The service selects the activations that overlap
the range, so the range may admit more rows than the predicates do; it must not lose any.
-/
import MldpDriver.Query.ExactComparison
import MldpDriver.Query.WindowScan

namespace MldpDriver.Query.Activation

open List
open Lib.Binary64 (toBinary64 toBinary64_mono toBinary64_of_natAbs_lt)

/-! ## 1. The request -/

inductive Failure where
  | invalidArgument (what : String)
  | overflow
  deriving DecidableEq

def add (a b : Int) : Except Failure Int :=
  match checked (a + b) with
  | some n => .ok n
  | none => .error .overflow

def timestampValue (predicate : Predicate) : Except Failure Int :=
  match predicate.values with
  | [.int64 value] => .ok value
  | _ => .error (.invalidArgument "Annotation timestamp predicate requires one integer timestamp")

/-- Seconds, the end excluded. -/
structure TimeRange where
  startTime : Int
  endTime : Int
  deriving DecidableEq

def maximumTimestampSeconds : Int := 253402300799

/-- What the loop over the predicates has gathered. -/
structure RangeState where
  lower : Int
  upper : Int
  hasTimeRange : Bool

def isRangePredicate (predicate : Predicate) : Bool :=
  predicate.column == "start_time" &&
    (predicate.op == .GTE || predicate.op == .GT || predicate.op == .LTE || predicate.op == .LT)

/-- `predicate.op == PredicateOp::LTE ? value + 1 : value` -/
def upperBound (predicate : Predicate) (value : Int) : Except Failure Int :=
  if predicate.op = .LTE then add value 1 else .ok value

/-- The body of the loop. -/
def addBound (s : RangeState) (predicate : Predicate) : Except Failure RangeState :=
  if isRangePredicate predicate then do
    let value ← timestampValue predicate
    if predicate.op = .GTE ∨ predicate.op = .GT then
      .ok { s with lower := max s.lower value, hasTimeRange := true }
    else if 0 < value then do
      let bound ← upperBound predicate value
      .ok { s with upper := min s.upper bound, hasTimeRange := true }
    else .ok { s with hasTimeRange := true }
  else .ok s

/-- The end of the range; it may not be empty. -/
def rangeEnd (s : RangeState) : Except Failure Int :=
  if s.upper ≤ s.lower then
    if s.lower = maximumTimestampSeconds then .ok maximumTimestampSeconds else add s.lower 1
  else .ok s.upper

def addActivationTimeRangeCriterion (predicates : List Predicate) (always : Bool) :
    Except Failure (Option TimeRange) := do
  let s ← predicates.foldlM addBound ⟨1, maximumTimestampSeconds, false⟩
  if !s.hasTimeRange && !always then .ok none
  else do
    let upper ← rangeEnd s
    .ok (some ⟨s.lower, upper⟩)

def isTimePredicate (predicate : Predicate) : Bool :=
  predicate.column == "start_time" || predicate.column == "end_time"

/-- `(void)timestampValue(predicate)` -/
def checkTimePredicate (predicate : Predicate) : Except Failure Unit :=
  if isNullTest predicate.op then .ok ()
  else do
    let _ ← timestampValue predicate
    .ok ()

/-- The time criterion of the request; every predicate on another column is a criterion of its
own. -/
def activationTimeCriterion (predicates : List Predicate) : Except Failure (Option TimeRange) := do
  (predicates.filter isTimePredicate).forM checkTimePredicate
  addActivationTimeRangeCriterion predicates (predicates.all isTimePredicate)

/-! ## 2. Activations -/

/-- A `ConfigurationActivation`, with its instants in nanoseconds; it is open without an end. -/
structure ConfigurationActivation where
  startTime : Int
  endTime : Option Int
  configurationName : String
  clientActivationId : String
  description : String

def endTimeCell (activation : ConfigurationActivation) : Cell :=
  match activation.endTime with
  | some ns => .scalar (.timestamp ns)
  | none => .scalar .null

/-- `buildConfigurationActivationBatch`, up to the metadata columns. -/
def buildConfigurationActivationBatch (records : List ConfigurationActivation) :
    RecordBatch ConfigurationActivation where
  fields := [("start_time", fun a => .scalar (.timestamp a.startTime)), ("end_time", endTimeCell),
    ("config_name", fun a => .scalar (.string a.configurationName)),
    ("activation_id", fun a => .scalar (.string a.clientActivationId)),
    ("description", fun a => .scalar (.string a.description))]
  rows := records

/-- The activation passes the time predicates of the local filter. -/
def Passes (predicates : List Predicate) (activation : ConfigurationActivation) : Prop :=
  rowPasses (buildConfigurationActivationBatch [activation]) (predicates.filter isTimePredicate)
    activation = true

instance (predicates : List Predicate) (activation : ConfigurationActivation) :
    Decidable (Passes predicates activation) := inferInstanceAs (Decidable (_ = true))

def ConfigurationActivation.Active (a : ConfigurationActivation) (ns : Int) : Prop :=
  a.startTime ≤ ns ∧ ∀ stop, a.endTime = some stop → ns < stop

def TimeRange.Has (range : TimeRange) (ns : Int) : Prop :=
  range.startTime * nsPerSecond ≤ ns ∧ ns < range.endTime * nsPerSecond

/-- The activation and the range have an instant in common. -/
def Overlap (a : ConfigurationActivation) (range : TimeRange) : Prop := ∃ ns, a.Active ns ∧ range.Has ns

/-- What the service promises: a range with a start selects what overlaps it. -/
def SelectsOverlap (selects : ConfigurationActivation → TimeRange → Prop) : Prop :=
  ∀ a range, 0 < range.startTime → Overlap a range → selects a range

/-- An activation as the service stores it: some time between the epoch and the last instant of
`int64_t`, for some time. -/
structure Stored (a : ConfigurationActivation) : Prop where
  start : 0 ≤ a.startTime ∧ a.startTime ≤ int64Max
  nonempty : ∀ stop, a.endTime = some stop → a.startTime < stop

/-- It has not ended one second after the epoch. -/
def LastsPastFirstSecond (a : ConfigurationActivation) : Prop :=
  ∀ stop, a.endTime = some stop → nsPerSecond < stop

def ConfigurationActivation.startSecond (a : ConfigurationActivation) : Int :=
  a.startTime.tdiv nsPerSecond

/-! ## 3. The local filter -/

theorem rounded_apart_of_small {a b : Int} (ha : a.natAbs + 1 < 2 ^ 53)
    (h : toBinary64 a = toBinary64 b) : a = b := by
  rcases Int.lt_trichotomy a b with hlt | heq | hlt
  · have hmono := toBinary64_mono (show a + 1 ≤ b by omega)
    rw [← h, toBinary64_of_natAbs_lt (by omega), toBinary64_of_natAbs_lt (by omega)] at hmono
    omega
  · exact heq
  · have hmono := toBinary64_mono (show b ≤ a - 1 by omega)
    rw [← h, toBinary64_of_natAbs_lt (by omega), toBinary64_of_natAbs_lt (by omega)] at hmono
    omega

section Filter

variable {a : ConfigurationActivation} {predicates : List Predicate}

theorem Stored.startSecond_bounds (h : Stored a) :
    0 ≤ a.startSecond ∧ a.startSecond * nsPerSecond ≤ a.startTime ∧
      a.startTime < (a.startSecond + 1) * nsPerSecond ∧
      a.startSecond < maximumTimestampSeconds := by
  obtain ⟨hlo, hhi⟩ := h.start
  unfold int64Max at hhi
  rw [ConfigurationActivation.startSecond, Int.tdiv_eq_ediv_of_nonneg hlo]
  unfold nsPerSecond maximumTimestampSeconds
  omega

/-- **A bound that the activation passes** orders its whole second. -/
theorem Passes.order (h : Passes predicates a) (hs : Stored a) {predicate : Predicate}
    (hmem : predicate ∈ predicates) (hrange : isRangePredicate predicate = true) {value : Int}
    (hvalue : timestampValue predicate = .ok value) :
    orderResult a.startSecond value predicate.op = true := by
  obtain ⟨column, op, values⟩ := predicate
  simp only [isRangePredicate, Bool.and_eq_true, Bool.or_eq_true, beq_iff_eq] at hrange
  obtain ⟨rfl, hop⟩ := hrange
  obtain rfl : values = [.int64 value] := by
    unfold timestampValue at hvalue
    split at hvalue
    · next heq => simp_all
    · cases hvalue
  have hpass := all_eq_true.mp h _
    (mem_filter.mpr ⟨hmem, show isTimePredicate ⟨"start_time", op, [.int64 value]⟩ = true from rfl⟩)
  have horder : IsOrderOp op := by
    unfold IsOrderOp
    tauto
  have hfield : predicateField (buildConfigurationActivationBatch [a]) "start_time" =
      some fun a => .scalar (.timestamp a.startTime) := rfl
  rw [predicateTruth_field (by simp) hfield rfl, truth_ofBool_eq_true,
    scalarMatches_single _ _ _ horder] at hpass
  have hsmall : a.startSecond.natAbs + 1 < 2 ^ 53 := by
    have := hs.startSecond_bounds
    unfold maximumTimestampSeconds at this
    omega
  rw [← (orderResult_rounded_iff _ _).mpr (rounded_apart_of_small hsmall) op horder,
    ← compareNumeric_ofInt]
  exact hpass

end Filter

/-! ## 4. The range

The service takes a range that starts at zero for one without a start, so the widest range starts
one second after the epoch: `activation_lost` is an activation that had ended by then.  Signed
overflow in C++ is undefined, so a sum that leaves `int64_t` makes the request fail. -/

/-- No overflow, and a result with the property unless an argument is invalid. -/
def Safe {σ : Type} (x : Except Failure σ) (good : σ → Prop) : Prop :=
  x ≠ .error .overflow ∧ ∀ s, x = .ok s → good s

theorem Safe.ok {σ : Type} {good : σ → Prop} {s : σ} (h : good s) : Safe (.ok s) good :=
  ⟨nofun, fun _ heq => Except.ok.inj heq ▸ h⟩

theorem Safe.bind {σ τ : Type} {x : Except Failure σ} {f : σ → Except Failure τ}
    {good : σ → Prop} {good' : τ → Prop} (hx : Safe x good)
    (hf : ∀ s, x = .ok s → good s → Safe (f s) good') : Safe (x >>= f) good' := by
  cases x with
  | ok s => exact hf s rfl (hx.2 s rfl)
  | error e =>
    refine ⟨fun h => hx.1 ?_, nofun⟩
    rw [Except.error.inj h]

theorem add_safe {a b : Int} (hlo : int64Min ≤ a + b) (hhi : a + b ≤ int64Max) :
    Safe (add a b) (· = a + b) := by
  rw [add, checked_eq hlo hhi]
  exact .ok rfl

theorem timestampValue_safe (predicate : Predicate) :
    Safe (timestampValue predicate) fun value => predicate.values = [.int64 value] := by
  unfold timestampValue
  split
  · next heq => exact .ok heq
  · exact ⟨nofun, nofun⟩

/-- The range gathered so far does not exclude the second, from the first one after the epoch on. -/
structure Admits (second : Int) (s : RangeState) : Prop where
  lower : 1 ≤ s.lower ∧ s.lower ≤ max 1 second
  upper : second < s.upper

/-- No bound is the largest integer. -/
def BoundsBelowMax (predicates : List Predicate) : Prop :=
  ∀ p ∈ predicates, ∀ value, p.values = [.int64 value] → value < int64Max

section Range

variable {a : ConfigurationActivation} {predicates : List Predicate} (hs : Stored a)
  (hpass : Passes predicates a) (hmax : BoundsBelowMax predicates)

include hs hpass hmax

variable {s : RangeState}

/-- **One bound** keeps what the activation passes. -/
theorem addBound_safe (h : Admits a.startSecond s) {predicate : Predicate}
    (hmem : predicate ∈ predicates) : Safe (addBound s predicate) (Admits a.startSecond) := by
  unfold addBound
  split
  · next hrange =>
    refine (timestampValue_safe predicate).bind fun value hvalue hvalues => ?_
    have horder := hpass.order hs hmem hrange hvalue
    split
    · next hop =>
      have hle : value ≤ a.startSecond := by
        rcases hop with hop | hop <;> rw [hop] at horder <;>
          simp only [orderResult, decide_eq_true_eq] at horder <;> omega
      have := h.lower
      exact .ok ⟨by dsimp only; omega, h.upper⟩
    · next hop =>
      split
      · next hpos =>
        have hbelow := hmax predicate hmem value hvalues
        have hbound : Safe (upperBound predicate value) (a.startSecond < ·) := by
          unfold upperBound
          split
          · next hlte =>
            rw [hlte] at horder
            simp only [orderResult, decide_eq_true_eq] at horder
            have hsafe := add_safe (a := value) (b := 1) (by unfold int64Min; omega) (by omega)
            exact ⟨hsafe.1, fun bound hok => by rw [hsafe.2 bound hok]; omega⟩
          · next hlte =>
            have hlt : predicate.op = .LT := by
              simp only [isRangePredicate, Bool.and_eq_true, Bool.or_eq_true, beq_iff_eq] at hrange
              tauto
            rw [hlt] at horder
            exact .ok (by simpa [orderResult] using horder)
        exact hbound.bind fun bound _ hlt => .ok ⟨h.lower, lt_min h.upper hlt⟩
      · exact .ok ⟨h.lower, h.upper⟩
  · exact .ok h

theorem foldlM_addBound_safe (h : Admits a.startSecond s) :
    Safe (predicates.foldlM addBound s) (Admits a.startSecond) := by
  suffices hall : ∀ ps ⊆ predicates, ∀ s, Admits a.startSecond s →
      Safe (ps.foldlM addBound s) (Admits a.startSecond) from hall _ (List.Subset.refl _) s h
  intro ps
  induction ps with
  | nil => exact fun _ s h => .ok h
  | cons p ps ih =>
    intro hsub s h
    rw [foldlM_cons]
    exact (addBound_safe hs hpass hmax h (hsub mem_cons_self)).bind fun s' _ h' =>
      ih (fun q hq => hsub (mem_cons_of_mem _ hq)) s' h'

omit hpass hmax in
theorem rangeEnd_safe (h : Admits a.startSecond s) :
    Safe (rangeEnd s) fun upper => a.startSecond < upper ∧ s.lower < upper := by
  have hlower := h.lower
  have hupper := h.upper
  have hsecond := hs.startSecond_bounds
  unfold rangeEnd
  split
  · rw [if_neg (by unfold maximumTimestampSeconds at *; omega)]
    have hsafe := add_safe (a := s.lower) (b := 1) (by unfold int64Min; omega)
      (by unfold maximumTimestampSeconds int64Max at *; omega)
    exact ⟨hsafe.1, fun upper hok => by rw [hsafe.2 upper hok]; omega⟩
  · exact .ok ⟨hupper, by omega⟩

omit hpass hmax in
theorem overlap_of_admits (h : Admits a.startSecond s) (hlasts : LastsPastFirstSecond a)
    {upper : Int} (hupper : a.startSecond < upper) (hlt : s.lower < upper) :
    Overlap a ⟨s.lower, upper⟩ := by
  have hlower := h.lower
  have hsecond := hs.startSecond_bounds
  refine ⟨max a.startTime (s.lower * nsPerSecond), ⟨le_max_left _ _, fun stop hstop => ?_⟩,
    le_max_right _ _, ?_⟩
  · have hnonempty := hs.nonempty stop hstop
    have hfirst := hlasts stop hstop
    unfold nsPerSecond at *
    omega
  · unfold nsPerSecond at *
    dsimp only
    omega

end Range

theorem checkTimePredicate_safe (predicate : Predicate) :
    Safe (checkTimePredicate predicate) fun _ => True := by
  unfold checkTimePredicate
  split
  · exact .ok trivial
  · exact (timestampValue_safe predicate).bind fun _ _ _ => .ok trivial

theorem forM_checkTimePredicate_safe (predicates : List Predicate) :
    Safe (predicates.forM checkTimePredicate) fun _ => True := by
  induction predicates with
  | nil => exact .ok trivial
  | cons p ps ih =>
    rw [forM_eq_forM, forM_cons]
    exact (checkTimePredicate_safe p).bind fun _ _ _ => ih

/-- **The time criterion loses no row.**  An activation that passes the time predicates, and has not
ended within the first second after the epoch, is selected by every range that is sent, when the
service selects what overlaps it. -/
theorem activation_selected (selects : ConfigurationActivation → TimeRange → Prop)
    (hselects : SelectsOverlap selects) (predicates : List Predicate) (a : ConfigurationActivation)
    (hs : Stored a) (hlasts : LastsPastFirstSecond a) (hmax : BoundsBelowMax predicates)
    (hpass : Passes predicates a) :
    activationTimeCriterion predicates ≠ .error .overflow ∧
      ∀ range, activationTimeCriterion predicates = .ok (some range) → selects a range := by
  suffices h : Safe (activationTimeCriterion predicates)
      fun criterion => ∀ range, criterion = some range → selects a range from
    ⟨h.1, fun range hok => h.2 _ hok range rfl⟩
  refine (forM_checkTimePredicate_safe _).bind fun _ _ _ => ?_
  have hsecond := hs.startSecond_bounds
  have hinit : Admits a.startSecond ⟨1, maximumTimestampSeconds, false⟩ :=
    ⟨⟨le_refl _, le_max_left _ _⟩, hsecond.2.2.2⟩
  refine (foldlM_addBound_safe hs hpass hmax hinit).bind fun s _ h => ?_
  split
  · exact .ok nofun
  · refine (rangeEnd_safe hs h).bind fun upper _ hupper => .ok ?_
    intro range heq
    obtain rfl := Option.some.inj heq
    exact hselects a _ (by have := h.lower; dsimp only; omega)
      (overlap_of_admits hs h hlasts hupper.1 hupper.2)

/-- From 0.2 s to 0.9 s after the epoch. -/
def early : ConfigurationActivation := ⟨200000000, some 900000000, "setup", "a1", ""⟩

/-- From 2.5 s on. -/
def openEnded : ConfigurationActivation := ⟨2500000000, none, "setup", "a2", ""⟩

theorem activation_selected_open :
    Overlap openEnded ⟨2, 5⟩ :=
  (activation_selected Overlap (fun _ _ _ h => h)
    [⟨"start_time", .GTE, [.int64 2]⟩, ⟨"start_time", .LT, [.int64 5]⟩] openEnded
    ⟨by decide, nofun⟩ nofun (by simp [BoundsBelowMax, int64Max]) (by decide +kernel)).2 _ (by decide)

/-- **An activation of the first second is lost.** -/
theorem activation_lost :
    ¬ ∀ (selects : ConfigurationActivation → TimeRange → Prop), SelectsOverlap selects →
      ∀ predicates a, Stored a → Passes predicates a →
      ∀ range, activationTimeCriterion predicates = .ok (some range) → selects a range := by
  intro h
  obtain ⟨ns, hactive, hrange⟩ := h Overlap (fun _ _ _ h => h)
    [⟨"start_time", .LT, [.int64 5]⟩] early ⟨by decide, by simp [early]⟩ (by decide +kernel) ⟨1, 5⟩
    (by decide)
  have hstop := hactive.2 900000000 rfl
  have hstart := hrange.1
  simp only [nsPerSecond] at hstart
  omega

end MldpDriver.Query.Activation
