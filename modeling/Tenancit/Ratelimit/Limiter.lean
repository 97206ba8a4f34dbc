import Mathlib.Algebra.Order.Floor.Ring
import Mathlib.Data.Rat.Floor
import Tenancit.Lib.TokenBucket

/-!
`ratelimit/limiter.go`: the token bucket of a client in the memory of one process, and the
one that a script keeps in Valkey. Numbers are exact; readings and durations are counted
in the nanoseconds of `time.Duration`, the script's own in milliseconds.
-/
namespace Tenancit.Ratelimit

open TokenBucket

structure Result where
  allowed : Bool
  limit : Int32
  remaining : Int
  retryAfter : Int
  resetAfter : Int
  deriving DecidableEq

/-- `float64(time.Minute)` -/
def minute : ℚ := 60000000000

/-- `time.Time.Sub`: the difference, or the `time.Duration` nearest to it. -/
def sub (t u : Int) : Int := max (-2 ^ 63) (min (2 ^ 63 - 1) (t - u))

def capacity (rpm : Int32) : ℚ := rpm.toInt

theorem one_le_capacity {rpm : Int32} (h : 1 ≤ rpm) : 1 ≤ capacity rpm := by
  have hint : (1 : Int) ≤ rpm.toInt := Int32.le_iff_toInt_le.mp h
  unfold capacity
  exact_mod_cast hint

section memory

structure MemoryBucket where
  tokens : ℚ
  at_ : Int
  deriving DecidableEq

/-- The buckets of the clients. -/
structure Memory where
  buckets : String → Option MemoryBucket

def newMemory : Memory := ⟨fun _ => none⟩

/-- The tokens that a call finds in a bucket; a client without one starts with a full one. -/
def MemoryBucket.level (bucket : Option MemoryBucket) (now : Int) (rpm : Int32) : ℚ :=
  let bucket := bucket.getD ⟨capacity rpm, now⟩
  refill (capacity rpm) bucket.tokens (sub now bucket.at_ * (capacity rpm / minute))

/-- What a call reports of the tokens it finds. -/
def memoryResult (level : ℚ) (rpm : Int32) : Result :=
  let rate := capacity rpm / minute
  let tokens := spend level
  { allowed := 1 ≤ level
    limit := rpm
    remaining := ⌊tokens⌋
    retryAfter := if 1 ≤ level then 0 else ⌈(1 - tokens) / rate⌉
    resetAfter := ⌈(capacity rpm - tokens) / rate⌉ }

/-- A call on the bucket of one client. -/
def MemoryBucket.allow (bucket : Option MemoryBucket) (now : Int) (rpm : Int32) :
    Result × MemoryBucket :=
  let level := MemoryBucket.level bucket now rpm
  (memoryResult level rpm, ⟨spend level, now⟩)

/-- `Memory.Allow`, at a reading of the clock. -/
def Memory.allow (m : Memory) (now : Int) (clientID : String) (rpm : Int32) : Result × Memory :=
  let (result, bucket) := MemoryBucket.allow (m.buckets clientID) now rpm
  (result, ⟨Function.update m.buckets clientID (some bucket)⟩)

end memory

section valkey

/-- What `TIME` returns: seconds, and microseconds of the second. -/
structure ServerTime where
  seconds : Int
  microseconds : Fin 1000000
  deriving DecidableEq

instance instNeZeroMicroseconds : NeZero 1000000 := ⟨by decide⟩

/-- `now` in the script. -/
def ServerTime.now (t : ServerTime) : Int := t.seconds * 1000 + (t.microseconds.val / 1000 : Nat)

/-- The hash under the key of a client, with the time from which the key is expired. -/
structure StoredBucket where
  tokens : ℚ
  at_ : Int
  expiresAt : Int
  deriving DecidableEq

/-- What the server finds under a key: one whose expiry has passed is gone. -/
def live (now : Int) (key : Option StoredBucket) : Option StoredBucket :=
  key.filter fun b => now ≤ b.expiresAt

theorem live_some (now : Int) (b : StoredBucket) :
    live now (some b) = if now ≤ b.expiresAt then some b else none := by
  simp [live, Option.filter_some]

/-- What the script returns. -/
structure Reply where
  allowed : Int
  remaining : Int
  retry : Int
  reset : Int
  deriving DecidableEq

/-- The milliseconds of a minute, by which the script divides. -/
def scriptMinute : ℚ := 60000

/-- The tokens that the script finds. -/
def StoredBucket.level (key : Option StoredBucket) (now : Int) (rpm : Int32) : ℚ :=
  let tokens := (key.map StoredBucket.tokens).getD (capacity rpm)
  let at_ := (key.map StoredBucket.at_).getD now
  refill (capacity rpm) tokens (max 0 ((now - at_ : Int) : ℚ) * (capacity rpm / scriptMinute))

def scriptReply (level : ℚ) (rpm : Int32) : Reply :=
  let rate := capacity rpm / scriptMinute
  let tokens := spend level
  { allowed := if 1 ≤ level then 1 else 0
    remaining := ⌊tokens⌋
    retry := if 1 ≤ level then 0 else ⌈(1 - tokens) / rate⌉
    reset := ⌈(capacity rpm - tokens) / rate⌉ }

/-- `tokenBucketScript`: its reply, and what it leaves under the key. -/
def tokenBucketScript (key : Option StoredBucket) (now : Int) (rpm : Int32) :
    Reply × StoredBucket :=
  let rate := capacity rpm / scriptMinute
  let level := StoredBucket.level key now rpm
  (scriptReply level rpm, ⟨spend level, now, now + ⌈capacity rpm / rate * 2⌉⟩)

/-- A run of the script on the server. -/
def runScript (key : Option StoredBucket) (time : ServerTime) (rpm : Int32) :
    Reply × StoredBucket :=
  tokenBucketScript (live time.now key) time.now rpm

/-- `math.MaxInt64 / int64(time.Millisecond)` -/
def maxMilliseconds : Int := 9223372036854

/-- What `Valkey.Allow` makes of a reply; without a value it is `ErrUnavailable`. -/
def Reply.parse (reply : Reply) (rpm : Int32) : Option Result :=
  if reply.remaining < 0 ∨ rpm.toInt < reply.remaining ∨ reply.retry < 0 ∨
  maxMilliseconds < reply.retry ∨
      reply.reset < 0 ∨ maxMilliseconds < reply.reset then none
  else some ⟨reply.allowed = 1, rpm, reply.remaining, reply.retry * 1000000, reply.reset * 1000000⟩

/-- `Valkey.Allow` with the server at hand. -/
def valkeyAllow (key : Option StoredBucket) (time : ServerTime) (rpm : Int32) :
    Option Result × StoredBucket :=
  let (reply, bucket) := runScript key time rpm
  (reply.parse rpm, bucket)

end valkey

end Tenancit.Ratelimit
