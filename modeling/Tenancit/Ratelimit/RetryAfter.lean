import Tenancit.Ratelimit.Agreement
import Tenancit.Ratelimit.Memory

/-!
The delay that a denied call reports is exact: it is the time after which, and not before which, the
client is admitted again. A level without a token has one again when the credit of the time makes up
for what is missing, and the delay is the quotient of that and the rate, rounded up to the unit in
which the limiter counts time.
-/
namespace Tenancit.Ratelimit

open TokenBucket

/-- The delay of a denied call is the least: called next at a reading, the limiter admits
the client if and only if the reading is at or after that of the call plus the delay. -/
def RetryExact {T : Type} (nanoseconds : T → Int) (admits : T → Prop) (now : T) (result : Result) :
    Prop :=
  ∀ later, admits later ↔ nanoseconds now + result.retryAfter ≤ nanoseconds later

section memory

variable {rpm : Int32} {b : Option MemoryBucket} {now : Int}

/-- What a bucket holds is no debt, and is as of no later than a reading. -/
def Solvent (b : Option MemoryBucket) (now : Int) : Prop :=
  ∀ k ∈ b, 0 ≤ k.tokens ∧ k.at_ ≤ now

theorem memory_rate_pos (hrpm : 1 ≤ rpm) : 0 < capacity rpm / minute :=
  div_pos (by linarith [one_le_capacity hrpm]) minute_pos

theorem Solvent.level_nonneg (hrpm : 1 ≤ rpm) (h : Solvent b now) :
    0 ≤ MemoryBucket.level b now rpm := by
  have hcapacity := one_le_capacity hrpm
  refine refill_nonneg (by linarith) ?_
  cases b with
  | none =>
    simp only [Option.getD_none, sub, Int.sub_self]
    norm_num
    linarith
  | some k =>
    obtain ⟨htokens, hat⟩ := h k rfl
    have hsub : 0 ≤ sub now k.at_ := by
      unfold sub
      omega
    exact add_nonneg htokens (mul_nonneg (by exact_mod_cast hsub) (memory_rate_pos hrpm).le)

theorem Solvent.allow (hrpm : 1 ≤ rpm) (h : Solvent b now) {later : Int} (hlater : now ≤ later) :
    Solvent (some (MemoryBucket.allow b now rpm).2) later := by
  rintro k ⟨⟩
  exact ⟨spend_nonneg (.inl (h.level_nonneg hrpm)), hlater⟩

/-- What a denied call leaves, and its delay. -/
theorem memory_denied (hrpm : 1 ≤ rpm) (h : Solvent b now)
    (hdenied : (MemoryBucket.allow b now rpm).1.allowed = false) :
    let tokens := (MemoryBucket.allow b now rpm).2.tokens
    let delay := (MemoryBucket.allow b now rpm).1.retryAfter
    0 ≤ tokens ∧ tokens < 1 ∧ delay = ⌈(1 - tokens) / (capacity rpm / minute)⌉ ∧ 0 < delay ∧
      delay ≤ 60000000000 := by
  have hcapacity := one_le_capacity hrpm
  have hrate := memory_rate_pos hrpm
  have hnonneg := h.level_nonneg hrpm
  have hlow : ¬1 ≤ MemoryBucket.level b now rpm := of_decide_eq_false hdenied
  have htokens : (MemoryBucket.allow b now rpm).2.tokens = MemoryBucket.level b now rpm :=
    spend_of_lt (not_le.mp hlow)
  have hdelay : (MemoryBucket.allow b now rpm).1.retryAfter =
      ⌈(1 - MemoryBucket.level b now rpm) / (capacity rpm / minute)⌉ := by
    rw [← htokens]
    exact if_neg hlow
  rw [htokens, hdelay]
  refine ⟨hnonneg, not_le.mp hlow, rfl, ceil_missing_pos hrate (not_le.mp hlow), Int.ceil_le.mpr ?_⟩
  rw [div_le_iff₀ hrate, minute]
  push_cast
  linarith

/-- After a denied call the next one is admitted from its delay on, and not before. -/
theorem memory_retry_exact (hrpm : 1 ≤ rpm) (h : Solvent b now)
    (hdenied : (MemoryBucket.allow b now rpm).1.allowed = false) :
    RetryExact id (fun later =>
      (MemoryBucket.allow (some (MemoryBucket.allow b now rpm).2) later rpm).1.allowed = true)
      now (MemoryBucket.allow b now rpm).1 := by
  intro later
  obtain ⟨-, -, hdelay, hpos, hle⟩ := memory_denied hrpm h hdenied
  have hadmits := one_le_refill_iff (MemoryBucket.allow b now rpm).2.tokens (one_le_capacity hrpm)
    (memory_rate_pos hrpm) (sub later now)
  rw [← hdelay] at hadmits
  refine decide_eq_true_iff.trans (hadmits.trans ?_)
  unfold sub id
  omega

end memory

section calls

variable {rpm : String → Int32} {client : String} {m : Memory} {calls : List (String × Int)}
  {now : Int}

/-- The calls of all clients, each at a reading, in the order in which they take the lock. -/
def Memory.afterCalls (rpm : String → Int32) (m : Memory) (calls : List (String × Int)) : Memory :=
  calls.foldl (fun m x => (m.allow x.2 x.1 (rpm x.1)).2) m

/-- The readings at which one client calls. -/
def readingsOf (client : String) (calls : List (String × Int)) : List Int :=
  (calls.filter fun x => x.1 = client).map Prod.snd

theorem allow_buckets_self (m : Memory) (now : Int) (client : String) (rpm : Int32) :
    (m.allow now client rpm).2.buckets client =
      some (MemoryBucket.allow (m.buckets client) now rpm).2 := by
  simp [Memory.allow]

theorem allow_buckets_other (m : Memory) (now : Int) {client other : String} (rpm : Int32)
    (h : other ≠ client) : (m.allow now other rpm).2.buckets client = m.buckets client :=
  Function.update_of_ne h.symm _ _

theorem afterCalls_solvent (hrpm : 1 ≤ rpm client)
    (hm : ∀ t ∈ readingsOf client calls ++ [now], Solvent (m.buckets client) t)
    (horder : (readingsOf client calls ++ [now]).Pairwise (· ≤ ·)) :
    Solvent ((m.afterCalls rpm calls).buckets client) now := by
  induction calls generalizing m with
  | nil => exact hm now (by simp)
  | cons x calls ih =>
    obtain ⟨other, t⟩ := x
    by_cases hx : other = client
    · subst hx
      have hreadings : readingsOf other ((other, t) :: calls) = t :: readingsOf other calls := by
        simp [readingsOf]
      rw [hreadings, List.cons_append] at hm horder
      obtain ⟨hlater, horder⟩ := List.pairwise_cons.mp horder
      refine ih (fun u hu => ?_) horder
      rw [allow_buckets_self]
      exact (hm t (.head _)).allow hrpm (hlater u hu)
    · have hreadings : readingsOf client ((other, t) :: calls) = readingsOf client calls := by
        simp [readingsOf, hx]
      rw [hreadings] at hm horder
      refine ih (fun u hu => ?_) horder
      rw [allow_buckets_other _ _ _ hx]
      exact hm u hu

theorem afterCalls_other (h : ∀ x ∈ calls, x.1 ≠ client) :
    (m.afterCalls rpm calls).buckets client = m.buckets client := by
  induction calls generalizing m with
  | nil => rfl
  | cons x calls ih =>
    refine (ih fun y hy => h y (.tail _ hy)).trans ?_
    exact allow_buckets_other _ _ _ (h x (.head _))

/-- The delay of a denied call is exact whatever the other clients do in the meantime. -/
theorem memory_calls_exact (hrpm : 1 ≤ rpm client)
    (horder : (readingsOf client calls ++ [now]).Pairwise (· ≤ ·)) {result : Result} {m : Memory}
    (hcall : (newMemory.afterCalls rpm calls).allow now client (rpm client) = (result, m))
    (hdenied : result.allowed = false) {between : List (String × Int)}
    (hbetween : ∀ x ∈ between, x.1 ≠ client) :
    RetryExact id (fun later =>
      ((m.afterCalls rpm between).allow later client (rpm client)).1.allowed = true) now result ∧
      0 < result.retryAfter ∧ result.retryAfter ≤ 60000000000 := by
  have hsolvent : Solvent ((newMemory.afterCalls rpm calls).buckets client) now :=
    afterCalls_solvent hrpm (fun _ _ => nofun) horder
  have hresult : (MemoryBucket.allow ((newMemory.afterCalls rpm calls).buckets client) now
      (rpm client)).1 = result :=
    congrArg Prod.fst hcall
  have hbucket : m.buckets client =
      some (MemoryBucket.allow ((newMemory.afterCalls rpm calls).buckets client)
        now (rpm client)).2 := by
    rw [← allow_buckets_self, hcall]
  rw [← hresult] at hdenied ⊢
  obtain ⟨-, -, -, hpos, hle⟩ := memory_denied hrpm hsolvent hdenied
  refine ⟨fun later => ?_, hpos, hle⟩
  rw [← memory_retry_exact hrpm hsolvent hdenied later]
  simp only [Memory.allow, afterCalls_other hbetween, hbucket]

end calls

section valkey

variable {rpm : Int32} {key : Option StoredBucket} {t : ServerTime}

/-- `Valkey.Allow` finds the server's answer in order, and reads off it whether there was a
token and, if there was none, when there will be one. -/
theorem valkeyAllow_spec (hrpm : 1 ≤ rpm) (hkey : ∀ k ∈ key, Stored k) (t : ServerTime) :
    ∃ result k, valkeyAllow key t rpm = (some result, k) ∧ Stored k ∧ k.at_ = t.now ∧
      k.tokens = spend (StoredBucket.level key t.now rpm) ∧
      (result.allowed = true ↔ 1 ≤ StoredBucket.level key t.now rpm) ∧
      (StoredBucket.level key t.now rpm < 1 →
        result.retryAfter = ⌈(1 - k.tokens) / (capacity rpm / scriptMinute)⌉ * 1000000) := by
  have hcapacity := one_le_capacity hrpm
  obtain ⟨hstored, hat, htokens, -⟩ := runScript_spec (t := t) hrpm hkey rfl
  have hlevel := level_kept hrpm hkey t.now
  obtain ⟨result, hparse, hallowed, -, -, hretry⟩ :=
    reports_agree hrpm (level_nonneg hrpm hkey t.now) (script_level_le key)
  refine ⟨result, _, ?_, hstored, hat, htokens, ?_, fun hlow => ?_⟩
  · simp only [valkeyAllow, runScript, tokenBucketScript, hlevel]
    rw [hparse]
  · rw [hallowed]
    exact decide_eq_true_iff
  · rw [hretry, htokens, delay_rounded]
    exact congrArg roundUp (if_neg hlow.not_ge)

/-- The delay of a denied call is exact, however the earlier readings went. -/
theorem valkey_retry_exact (hrpm : 1 ≤ rpm) (hkey : ∀ k ∈ key, Stored k) (t : ServerTime) :
    ∃ result k, valkeyAllow key t rpm = (some result, k) ∧ (result.allowed = false →
      RetryExact ServerTime.nanoseconds (fun later => ∃ r k', valkeyAllow (some k) later rpm =
        (some r, k') ∧ r.allowed = true)
        t result ∧ 0 < result.retryAfter ∧ result.retryAfter ≤ 60000000000) := by
  obtain ⟨result, k, hcall, hstored, hat, htokens, hallowed, hretry⟩ := valkeyAllow_spec hrpm hkey t
  refine ⟨result, k, hcall, fun hdenied => ?_⟩
  have hlow : StoredBucket.level key t.now rpm < 1 := by
    rw [← not_le, ← hallowed, hdenied]
    exact Bool.false_ne_true
  have hspent : k.tokens < 1 := by
    rw [htokens, spend_of_lt hlow]
    exact hlow
  have hpos := ceil_missing_pos (rate_pos hrpm) hspent
  have hle :=
    (delay_bounds hrpm (sub_nonneg.mpr hspent.le) (by
      linarith [one_le_capacity hrpm, hstored.nonneg])).2
  rw [hretry hlow]
  refine ⟨fun later => ?_, by omega, by omega⟩
  have hadmits :=
    one_le_refill_iff k.tokens (one_le_capacity hrpm) (rate_pos hrpm) (max 0 (later.now - t.now))
  have hlevel : StoredBucket.level (some k) later.now rpm =
      refill (capacity rpm) k.tokens (((max 0 (later.now - t.now) : Int) : ℚ) *
        (capacity rpm / scriptMinute)) := by
    simp only [StoredBucket.level, Option.map_some, Option.getD_some, hat]
    push_cast
    rfl
  rw [← hlevel] at hadmits
  obtain ⟨r, k', hnext, -, -, -, hnext_allowed, -⟩ :=
    valkeyAllow_spec hrpm (fun j hj => Option.some.inj hj ▸ hstored) later
  have hnext_iff : (∃ r k', valkeyAllow (some k) later rpm = (some r, k') ∧ r.allowed = true) ↔
      r.allowed = true := by
    simp [hnext]
  refine hnext_iff.trans ?_
  rw [hnext_allowed, hadmits, hretry hlow]
  unfold ServerTime.nanoseconds
  omega

end valkey

end Tenancit.Ratelimit
