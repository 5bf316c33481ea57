/-
# The ingestion connection pool

`MLDPGrpcPoolConfig` holds what is read of the `mldp-pool` block; the pool creates `min-conn`
connections at once, more up to `max-conn` when none is idle, and then lets the caller wait.
-/
import Mathlib.Data.List.Basic

namespace MldpDriver.Pool

/-! ## 1. Configuration -/

/-- What the `mldp-pool` block supplies; `none` is a key that is absent. -/
structure RawPool where
  providerName : Option String := none
  providerDescription : Option String := none
  ingestionUrl : Option String := none
  queryUrl : Option String := none
  annotationUrl : Option String := none
  minConn : Option Int32 := none
  maxConn : Option Int32 := none

/-- `MLDPGrpcPoolConfig`; a limit of 0 has not been given. -/
structure MLDPGrpcPoolConfig where
  providerName : String
  providerDescription : String
  ingestionUrl : String
  queryUrl : String
  annotationUrl : String
  minConnections : Nat := 0
  maxConnections : Nat := 0
  ordered : 0 < minConnections → 0 < maxConnections → minConnections ≤ maxConnections

/-- `makeMissingFieldMessage`. -/
def makeMissingFieldMessage (field : String) : String :=
  "Missing required field '" ++ field ++ "' in configuration"

/-- A text that has to be there and must not be empty. -/
def requireText (key : String) : Option String → Except String String
  | none => .error (makeMissingFieldMessage key)
  | some "" => .error ("mldp-pool." ++ key ++ " must not be empty")
  | some text => .ok text

/-- A connection limit: 0 when absent, and above zero when given. -/
def readLimit (key : String) : Option Int32 → Except String Nat
  | none => .ok 0
  | some v =>
    if v.toInt ≤ 0 then .error ("mldp-pool." ++ key ++ " must be greater than zero")
    else .ok v.toInt.toNat

/-- `MLDPGrpcPoolConfig::parse`, up to the credentials. -/
def MLDPGrpcPoolConfig.parse (raw : RawPool) : Except String MLDPGrpcPoolConfig := do
  let providerName ← requireText "provider-name" raw.providerName
  let ingestionUrl ← requireText "ingestion-url" raw.ingestionUrl
  let queryUrl := raw.queryUrl.getD ""
  if queryUrl ≠ "" ∧ queryUrl = ingestionUrl then
    .error "mldp-pool.query-url must not be equal to ingestion-url"
  let minConn ← readLimit "min-conn" raw.minConn
  let maxConn ← readLimit "max-conn" raw.maxConn
  if h : 0 < maxConn ∧ 0 < minConn ∧ maxConn < minConn then
    .error "mldp-pool.max-conn must be greater than or equal to min-conn"
  else
    .ok
      { providerName, ingestionUrl, queryUrl
        providerDescription := raw.providerDescription.getD providerName
        annotationUrl := raw.annotationUrl.getD ""
        minConnections := minConn
        maxConnections := maxConn
        ordered := fun hmin hmax => by
          by_contra hlt
          exact h ⟨hmax, hmin, Nat.lt_of_not_le hlt⟩ }

/-! ## 2. The pool

A connection is its place in `items_`; of an item only `in_use` matters, since no object is ever
taken out.  `acquire` gives nothing exactly when the caller has to wait (`acquire_eq_none`). -/

/-- The limits a pool can be constructed with. -/
structure PoolLimits where
  minConnections : Nat
  maxConnections : Nat
  minConnections_pos : 0 < minConnections
  minConnections_le : minConnections ≤ maxConnections

/-- The guard of the pool's constructor. -/
def PoolLimits.of (minConnections maxConnections : Nat) : Except String PoolLimits :=
  if h : minConnections = 0 ∨ maxConnections < minConnections then
    .error "MLDPGrpcPool: invalid min/max size"
  else
    .ok
      { minConnections, maxConnections
        minConnections_pos := Nat.pos_of_ne_zero fun h0 => h (Or.inl h0)
        minConnections_le := Nat.le_of_not_lt fun hlt => h (Or.inr hlt) }

/-- `items_` when the constructor has returned. -/
def PoolLimits.items (limits : PoolLimits) : List Bool :=
  List.replicate limits.minConnections false

/-- One pass of the loop in `acquire()`: the connection and the items after it, or nothing when the
caller waits. -/
def acquire (maxConnections : Nat) (items : List Bool) : Option (Nat × List Bool) :=
  match items.idxOf? false with
  | some c => some (c, items.set c true)
  | none =>
    if items.length < maxConnections then some (items.length, items ++ [true]) else none

/-- Whether that pass would create a channel, which may throw. -/
def creates (maxConnections : Nat) (items : List Bool) : Bool :=
  (items.idxOf? false).isNone && decide (items.length < maxConnections)

/-- `release()`. -/
def release (items : List Bool) (c : Nat) : List Bool := items.set c false

/-- **The caller waits exactly when the pool is full and every connection is in use.** -/
theorem acquire_eq_none {maxConnections : Nat} {items : List Bool} :
    acquire maxConnections items = none ↔ maxConnections ≤ items.length ∧ false ∉ items := by
  unfold acquire
  cases h : items.idxOf? false with
  | some c =>
    have hmem : false ∈ items := by
      by_contra hn
      simp [List.idxOf?_eq_none_iff.mpr hn] at h
    simp [hmem]
  | none =>
    have hn : false ∉ items := List.idxOf?_eq_none_iff.mp h
    simp [hn]

theorem idxOf?_idle (l : List Bool) : ∀ i : Nat,
    (List.replicate i true ++ false :: l).idxOf? false = some i
  | 0 => by simp [List.idxOf?_cons]
  | i + 1 => by simp [List.replicate_succ, List.idxOf?_cons, idxOf?_idle l i]

theorem acquire_idle (maxConnections i : Nat) (l : List Bool) :
    acquire maxConnections (List.replicate i true ++ false :: l) =
      some (i, List.replicate i true ++ true :: l) := by
  unfold acquire
  rw [idxOf?_idle]
  simp

theorem acquire_create {maxConnections i : Nat} (hlt : i < maxConnections) :
    acquire maxConnections (List.replicate i true) = some (i, List.replicate i true ++ [true]) := by
  unfold acquire
  have hn : (List.replicate i true).idxOf? false = none :=
    List.idxOf?_eq_none_iff.mpr (fun h => by simp at h)
  rw [hn]
  simp [hlt]

end MldpDriver.Pool
