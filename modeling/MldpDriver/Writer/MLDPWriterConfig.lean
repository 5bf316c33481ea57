/-
# The configuration of the MLDP writer

`MLDPWriterConfig.parse` reads one entry of `writer.mldp`.  The five limits are read as `int` and
have to be above zero, so a `Limit` carries both bounds; the pool limits are filled in from the
thread count when the block gives neither.
-/
import Mathlib.Algebra.Group.Int.Defs
import Mathlib.Algebra.Group.Nat.Defs
import MldpDriver.Pool.MLDPGrpcIngestionPool

namespace MldpDriver.Writer

open Pool

/-- A limit as it comes out of the configuration: an `int` above zero. -/
structure Limit where
  val : Nat
  pos : 0 < val
  lt : val < 2 ^ 31

theorem near_lt (n : Nat) : max 1 (min n (2 ^ 31 - 1)) < 2 ^ 31 := by
  omega

/-- The limit nearest to `n`. -/
def Limit.near (n : Nat) : Limit :=
  ⟨max 1 (min n (2 ^ 31 - 1)), Nat.lt_of_lt_of_le Nat.one_pos (Nat.le_max_left ..), near_lt n⟩

/-- What the block of a writer supplies; `mldpPool` is absent, empty or has a first entry. -/
structure RawWriter where
  name : String
  mldpPool : Option (List RawPool)
  threadPool : Option Int32 := none
  streamMaxBytes : Option Int32 := none
  streamMaxAgeMs : Option Int32 := none
  queueCapacity : Option Int32 := none
  maxFramesPerStream : Option Int32 := none

/-- `MLDPWriterConfig`; `streamMaxAge` in milliseconds. -/
structure MLDPWriterConfig where
  name : String
  poolConfig : MLDPGrpcPoolConfig
  threadPoolSize : Limit
  streamMaxBytes : Limit
  streamMaxAge : Limit
  queueCapacity : Limit
  maxFramesPerStream : Limit

theorem toNat_pos {v : Int32} (h : ¬ v.toInt ≤ 0) : 0 < v.toInt.toNat := by
  omega

theorem toNat_lt (v : Int32) : v.toInt.toNat < 2 ^ 31 := by
  have := v.toInt_lt
  omega

/-- One of the five limits: the default when the key has no value. -/
def readLimit (key : String) (default : Limit) : Option Int32 → Except String Limit
  | none => .ok default
  | some v =>
    if h : v.toInt ≤ 0 then .error (key ++ " must be > 0")
    else
      .ok { val := v.toInt.toNat, pos := toNat_pos h, lt := toNat_lt v }

/-- The pool limits, filled in from the thread count when neither is given. -/
def autoSize (pool : MLDPGrpcPoolConfig) (threads : Limit) : Except String MLDPGrpcPoolConfig :=
  if pool.minConnections = 0 ∧ 0 < pool.maxConnections then
    .error ("mldp-pool.max-conn is set but mldp-pool.min-conn is missing — " ++
      "both must be specified together")
  else if pool.minConnections = 0 then
    .ok
      { pool with
        minConnections := threads.val
        maxConnections := threads.val * 2
        ordered := fun _ _ => Nat.le_mul_of_pos_right _ (by decide) }
  else .ok pool

/-- `MLDPWriterConfig::parse`. -/
def MLDPWriterConfig.parse (raw : RawWriter) : Except String MLDPWriterConfig := do
  if raw.name = "" then
    .error "writer.mldp instance is missing required 'name' field"
  let poolConfig ← match raw.mldpPool with
    | none => .error "writer.mldp is enabled but 'mldp-pool' block is missing"
    | some [] => .error "'mldp-pool' block is empty"
    | some (node :: _) => MLDPGrpcPoolConfig.parse node
  let threadPoolSize ← readLimit "thread-pool" ⟨1, by decide, by decide⟩ raw.threadPool
  let streamMaxBytes ←
    readLimit "stream-max-bytes" ⟨2 * 1024 * 1024, by decide, by decide⟩ raw.streamMaxBytes
  let streamMaxAge ← readLimit "stream-max-age-ms" ⟨200, by decide, by decide⟩ raw.streamMaxAgeMs
  let queueCapacity ← readLimit "queue-capacity" ⟨10000, by decide, by decide⟩ raw.queueCapacity
  let maxFramesPerStream ←
    readLimit "max-frames-per-stream" ⟨100, by decide, by decide⟩ raw.maxFramesPerStream
  let poolConfig ← autoSize poolConfig threadPoolSize
  .ok
    { name := raw.name, poolConfig, threadPoolSize, streamMaxBytes, streamMaxAge, queueCapacity,
      maxFramesPerStream }

end MldpDriver.Writer
