import Tenancit.Ratelimit.Script

/-!
The limiter in memory and the one in Valkey agree. With readings that do not decrease they
find the same level at every call, also where the limit has changed and where the key has
expired since the last one.
-/
namespace Tenancit.Ratelimit

open TokenBucket

/-- A call of the client: the reading of the clock and the limit then in force. -/
abbrev Request := ServerTime × Int32

/-- The reading as `time.Now` gives it, at the resolution of the script. -/
def ServerTime.nanoseconds (t : ServerTime) : Int := t.now * 1000000

/-- What `Memory.Allow` returns, call by call. -/
def memoryResults (client : String) : Memory → List Request → List Result
  | _, [] => []
  | m, x :: xs =>
    let (result, m') := m.allow x.1.nanoseconds client x.2
    result :: memoryResults client m' xs

/-- What `Valkey.Allow` returns, call by call. -/
def valkeyResults : Option StoredBucket → List Request → List (Option Result)
  | _, [] => []
  | key, x :: xs =>
    let (result, bucket) := valkeyAllow key x.1 x.2
    result :: valkeyResults (some bucket) xs

/-- The same on a server whose keys do not expire. -/
def persistentResults : Option StoredBucket → List Request → List (Option Result)
  | _, [] => []
  | key, x :: xs =>
    let (reply, bucket) := tokenBucketScript key x.1.now x.2
    reply.parse x.2 :: persistentResults (some bucket) xs

/-- A duration rounded up to a millisecond. -/
def roundUp (d : Int) : Int := ⌈(d : ℚ) / 1000000⌉ * 1000000

/-- The two decide alike, and report alike but for the rounding of the delay. -/
def Agree (r : Result) (v : Option Result) : Prop :=
  ∃ r', v = some r' ∧ r'.allowed = r.allowed ∧ r'.limit = r.limit ∧ r'.remaining = r.remaining ∧
    r'.retryAfter = roundUp r.retryAfter

theorem ceil_ceil_div (x : ℚ) : ⌈(⌈x * 1000000⌉ : ℚ) / 1000000⌉ = ⌈x⌉ := by
  refine eq_of_forall_ge_iff fun n => ?_
  rw [Int.ceil_le, Int.ceil_le, div_le_iff₀ (by norm_num)]
  have hcast : (n : ℚ) * 1000000 = ((n * 1000000 : Int) : ℚ) := by push_cast; ring
  rw [hcast, Int.cast_le, Int.ceil_le, ← hcast]
  exact mul_le_mul_iff_left₀ (by norm_num)

section level

variable {rpm : Int32} {b : MemoryBucket} {k : StoredBucket} {now : Int}

/-- A bucket in memory and the one under the key. -/
structure Same (b : MemoryBucket) (k : StoredBucket) : Prop where
  tokens : b.tokens = k.tokens
  at_ : b.at_ = k.at_ * 1000000
  stored : Stored k

/-- Both find the same level, also where the time between two calls is no `time.Duration`. -/
theorem level_same (hrpm : 1 ≤ rpm) (h : Same b k) (hnow : k.at_ ≤ now) :
    MemoryBucket.level (some b) (now * 1000000) rpm = StoredBucket.level (some k) now rpm := by
  have hcapacity := one_le_capacity hrpm
  have hnonneg := h.stored.nonneg
  simp only [MemoryBucket.level, StoredBucket.level, Option.getD_some,
    Option.map_some, h.tokens, h.at_]
  rw [max_eq_right (by exact_mod_cast Int.sub_nonneg_of_le hnow)]
  by_cases hfits : now * 1000000 - k.at_ * 1000000 < 2 ^ 63
  · have hsub : sub (now * 1000000) (k.at_ * 1000000) = (now - k.at_) * 1000000 := by
      unfold sub
      omega
    rw [hsub, minute, scriptMinute]
    push_cast
    congr 1
    ring
  · have hsub : sub (now * 1000000) (k.at_ * 1000000) = 2 ^ 63 - 1 := by
      unfold sub
      omega
    have htime : (60000 : ℚ) ≤ ((now - k.at_ : Int) : ℚ) := by
      exact_mod_cast (by omega : 60000 ≤ now - k.at_)
    have hfull : capacity rpm ≤ k.tokens +
        ((now - k.at_ : Int) : ℚ) * (capacity rpm / scriptMinute) := by
      have hcredit := mul_le_mul_of_nonneg_right htime (rate_pos hrpm).le
      have hminute : 60000 * (capacity rpm / scriptMinute) = capacity rpm := by
        rw [scriptMinute]
        ring
      linarith
    rw [refill_of_le hfull, hsub]
    refine refill_of_le ?_
    rw [minute]
    push_cast
    linarith

/-- The time to earn what fits into a bucket is a minute at most. -/
theorem delay_bounds (hrpm : 1 ≤ rpm) {x : ℚ} (h0 : 0 ≤ x) (h : x ≤ capacity rpm) :
    0 ≤ ⌈x / (capacity rpm / scriptMinute)⌉ ∧ ⌈x / (capacity rpm / scriptMinute)⌉ ≤ 60000 := by
  have hrate := rate_pos hrpm
  refine ⟨Int.ceil_nonneg (div_nonneg h0 hrate.le), Int.ceil_le.mpr ?_⟩
  rw [div_le_iff₀ hrate, scriptMinute]
  push_cast
  linarith

theorem delay_rounded (x : ℚ) : ⌈x / (capacity rpm / scriptMinute)⌉ * 1000000 =
    roundUp ⌈x / (capacity rpm / minute)⌉ := by
  have hscale : x / (capacity rpm / minute) = x / (capacity rpm / scriptMinute) * 1000000 := by
    rw [minute, scriptMinute, div_div_eq_mul_div, div_div_eq_mul_div]
    ring
  rw [roundUp, hscale, ceil_ceil_div]

/-- Both make the same of one level. -/
theorem reports_agree (hrpm : 1 ≤ rpm) {level : ℚ} (hnonneg : 0 ≤ level)
    (hle : level ≤ capacity rpm) :
    Agree (memoryResult level rpm) ((scriptReply level rpm).parse rpm) := by
  have hcapacity := one_le_capacity hrpm
  have hspend : 0 ≤ spend level := spend_nonneg (.inl hnonneg)
  have hspend_le : spend level ≤ capacity rpm := (spend_le level).trans hle
  have hremaining : 0 ≤ ⌊spend level⌋ ∧ ⌊spend level⌋ ≤ rpm.toInt :=
    ⟨Int.floor_nonneg.mpr hspend, Int.floor_le_iff.mpr (by unfold capacity at hspend_le; linarith)⟩
  have hreset := delay_bounds hrpm (sub_nonneg.mpr hspend_le) (sub_le_self _ hspend)
  have hretry : 0 ≤ (scriptReply level rpm).retry ∧ (scriptReply level rpm).retry ≤ 60000 := by
    simp only [scriptReply]
    split
    · exact ⟨le_rfl, by decide⟩
    next hlow =>
      rw [not_le] at hlow
      have hspent := spend_le level
      exact delay_bounds hrpm (by linarith) (by linarith)
  have hparse : ¬((scriptReply level rpm).remaining < 0 ∨ rpm.toInt <
    (scriptReply level rpm).remaining ∨
      (scriptReply level rpm).retry < 0 ∨ maxMilliseconds < (scriptReply level rpm).retry ∨
      (scriptReply level rpm).reset < 0 ∨ maxMilliseconds < (scriptReply level rpm).reset) := by
    simp only [maxMilliseconds]
    simp only [scriptReply] at hretry ⊢
    omega
  refine ⟨_, if_neg hparse, ?_, rfl, rfl, ?_⟩
  · simp only [scriptReply, memoryResult]
    split <;> simp [*]
  · simp only [scriptReply, memoryResult]
    split
    · simp [roundUp]
    · exact delay_rounded _

end level

section runs

/-- The bucket in memory and the key, before any call or after the same calls. -/
inductive Alike : Option MemoryBucket → Option StoredBucket → Prop
  | fresh : Alike none none
  | used {b : MemoryBucket} {k : StoredBucket} (h : Same b k) : Alike (some b) (some k)

variable {rpm : Int32} {b : Option MemoryBucket} {key : Option StoredBucket} {t : ServerTime}

/-- The level that a call finds, in memory, under a key that may have expired and under one
that does not. -/
theorem Alike.levels (hrpm : 1 ≤ rpm) (h : Alike b key) (ht : ∀ k ∈ key, k.at_ ≤ t.now) :
    StoredBucket.level (live t.now key) t.now rpm = StoredBucket.level key t.now rpm ∧
      MemoryBucket.level b t.nanoseconds rpm = StoredBucket.level key t.now rpm ∧
      0 ≤ StoredBucket.level key t.now rpm := by
  have hcapacity := one_le_capacity hrpm
  cases h with
  | fresh =>
    have hfull : StoredBucket.level none t.now rpm = capacity rpm := refill_of_le (by simp)
    refine ⟨rfl, ?_, by linarith⟩
    rw [hfull]
    exact refill_of_le (by simp [sub])
  | used h =>
    refine ⟨level_live hrpm h.stored, level_same hrpm h (ht _ rfl), ?_⟩
    exact refill_nonneg (by linarith)
      (add_nonneg h.stored.nonneg (mul_nonneg (le_max_left _ _) (rate_pos hrpm).le))

/-- One call: the results agree, the expiry of the key changes nothing, and the buckets are alike
again. -/
theorem Alike.call (hrpm : 1 ≤ rpm) (h : Alike b key) (ht : ∀ k ∈ key, k.at_ ≤ t.now) :
    Agree (MemoryBucket.allow b t.nanoseconds rpm).1 (valkeyAllow key t rpm).1 ∧
      runScript key t rpm = tokenBucketScript key t.now rpm ∧
      Alike (some (MemoryBucket.allow b t.nanoseconds rpm).2) (some (valkeyAllow key t rpm).2) := by
  obtain ⟨hlive, hmemory, hnonneg⟩ := h.levels hrpm ht
  have hsame : runScript key t rpm = tokenBucketScript key t.now rpm := by
    simp only [runScript, tokenBucketScript, hlive]
  have hreport : (MemoryBucket.allow b t.nanoseconds rpm).1 =
      memoryResult (StoredBucket.level key t.now rpm) rpm := by
    simp only [MemoryBucket.allow, hmemory]
  have hreply : (valkeyAllow key t rpm).1 =
      (scriptReply (StoredBucket.level key t.now rpm) rpm).parse rpm := by
    simp only [valkeyAllow, hsame, tokenBucketScript]
  refine ⟨?_, hsame, .used ⟨?_, rfl, ?_, ?_⟩⟩
  · rw [hreport, hreply]
    exact reports_agree hrpm hnonneg (script_level_le key)
  · simp only [MemoryBucket.allow, valkeyAllow, hsame, tokenBucketScript, hmemory]
  · simp only [valkeyAllow, hsame, tokenBucketScript]
    exact spend_nonneg (.inl hnonneg)
  · simp only [valkeyAllow, hsame, tokenBucketScript, ttl_eq hrpm]

theorem Alike.calls {client : String} {m : Memory} {calls : List Request}
    (h : Alike (m.buckets client) key) (hrpm : ∀ x ∈ calls, 1 ≤ x.2)
    (horder : calls.Pairwise fun x y => x.1.now ≤ y.1.now)
    (hkey : ∀ x ∈ calls, ∀ k ∈ key, k.at_ ≤ x.1.now) :
    List.Forall₂ Agree (memoryResults client m calls) (valkeyResults key calls) ∧
      valkeyResults key calls = persistentResults key calls := by
  induction calls generalizing m key with
  | nil => exact ⟨.nil, rfl⟩
  | cons x xs ih =>
    obtain ⟨hafter, horder⟩ := List.pairwise_cons.mp horder
    obtain ⟨hagree, hsame, halike⟩ := h.call (hrpm x (.head _)) (hkey x (.head _))
    have hnext : Alike ((m.allow x.1.nanoseconds client x.2).2.buckets client)
        (some (valkeyAllow key x.1 x.2).2) := by
      simpa [Memory.allow] using halike
    obtain ⟨hrest, hpersist⟩ :=
      ih hnext (fun y hy => hrpm y (.tail _ hy)) horder (fun y hy k hk => by
      obtain rfl := Option.some.inj hk
      exact hafter y hy)
    refine ⟨.cons hagree hrest, ?_⟩
    simp only [valkeyResults, persistentResults, valkeyAllow, hsame] at hpersist ⊢
    rw [hpersist]

end runs

/-- For a client whose readings do not decrease and whose limit may change from call to
call, the limiters are interchangeable, and the expiry of the key never shows. -/
theorem limiters_agree (client : String) {calls : List Request} (hrpm : ∀ x ∈ calls, 1 ≤ x.2)
    (horder : calls.Pairwise fun x y => x.1.now ≤ y.1.now) :
    List.Forall₂ Agree (memoryResults client newMemory calls) (valkeyResults none calls) ∧
      valkeyResults none calls = persistentResults none calls :=
  Alike.calls .fresh hrpm horder nofun

section sample

/-- A client at its limit, the limit raised, and a call after the key has expired. -/
def sampleRequests : List Request :=
  [(⟨60, 0⟩, 1), (⟨60, 1500⟩, 1), (⟨61, 0⟩, 7), (⟨65, 0⟩, 7), (⟨400, 999999⟩, 2)]

theorem limiters_agree_sample :
    List.Forall₂ Agree (memoryResults "a" newMemory sampleRequests)
    (valkeyResults none sampleRequests) ∧
      valkeyResults none sampleRequests = persistentResults none sampleRequests :=
  limiters_agree "a" (by decide) (by decide)

end sample

end Tenancit.Ratelimit
