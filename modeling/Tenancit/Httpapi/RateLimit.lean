import Tenancit.Httpapi.ApiTokens
import Tenancit.Ratelimit.RetryAfter
import Tenancit.Usage.Collector

/-!
`httpapi/rate_limit.go`: how the answer of a limiter reaches the client, and what a client
may rely on that is told to come back later.
-/
namespace Tenancit.Httpapi

open Encoding Ratelimit

/-- `time.Second` -/
def timeSecond : Int64 := 1000000000

/-- `ceilSeconds` -/
def ceilSeconds (value : Int64) : Int64 :=
  let seconds := (value + timeSecond - 1) / timeSecond
  if seconds < 1 then 1 else seconds

def rateLimitHeaders (result : Result) : List (String × String) :=
  [("RateLimit-Limit", toString result.limit.toInt),
   ("RateLimit-Remaining", toString result.remaining),
    ("RateLimit-Reset", toString (ceilSeconds (.ofInt result.resetAfter)).toInt)]

/-- The answer to a client that is over its limit. -/
def rateLimited (result : Result) : Response :=
  let answer := writeError 429 "rate_limited"
  { answer with
    headers :=
      rateLimitHeaders result ++
        ("Retry-After", toString (ceilSeconds (.ofInt result.retryAfter)).toInt) :: answer.headers }

/-- `EnforceAPIClientRateLimit`: the answer and what is recorded of the request, where `next`
is the answer of the handler and `allow` the limiter, without a result if it is unavailable. -/
def enforceAPIClientRateLimit (operation : String) (now : Int)
    (principal : Option ApiClientPrincipal) (allow : String → Int32 → Option Result)
    (next : Response) : Response × List Usage.Event :=
  match principal with
  | none => (next, [])
  | some p =>
    match allow p.id.text p.rpmLimit with
    | none => (writeError 503 "rate_limiter_unavailable", [])
    | some result =>
      if result.allowed then ({ next with headers := rateLimitHeaders result ++ next.headers }, [])
      else (rateLimited result, [⟨p.id, operation, 429, true, now⟩])

/-- As long as the addition does not overflow, the seconds are the least that are no shorter,
and no less than one. -/
theorem ceilSeconds_ofInt {d : Int} (h0 : 0 ≤ d) (h : d < 2 ^ 63 - 1000000000) :
    (ceilSeconds (.ofInt d)).toInt = max 1 ((d + 999999999) / 1000000000) := by
  have hd : (Int64.ofInt d).toInt = d := Int64.toInt_ofInt_of_le (by omega) (by omega)
  have hsecond : timeSecond.toInt = 1000000000 := rfl
  have hone : (1 : Int64).toInt = 1 := rfl
  have hadd : (d + 1000000000).bmod (2 ^ 64) = d + 1000000000 :=
    Int.bmod_eq_of_le (by omega) (by omega)
  have hsub : (d + 1000000000 - 1).bmod (2 ^ 64) = d + 999999999 := by
    rw [Int.bmod_eq_of_le (by omega) (by omega)]
    omega
  have hsum : (Int64.ofInt d + timeSecond - 1).toInt = d + 999999999 := by
    rw [Int64.toInt_sub, Int64.toInt_add, hd, hsecond, hone, hadd, hsub]
  have hquotient : ((Int64.ofInt d + timeSecond - 1) / timeSecond).toInt =
      (d + 999999999) / 1000000000 := by
    rw [Int64.toInt_div, hsum, hsecond, Int.tdiv_eq_ediv_of_nonneg (by omega),
      Int.bmod_eq_of_le (by omega) (by omega)]
  unfold ceilSeconds
  simp only [Int64.lt_iff_toInt_lt, hquotient, hone]
  split
  · rw [hone]
    omega
  · rw [hquotient]
    omega

/-- What a client is told: to come back after a number of seconds no shorter than the delay. -/
structure ToldToWait (result : Result) (answer : Response) : Prop where
  status : answer.status = 429
  header : ∃ seconds : Int, answer.headers.lookup "Retry-After" = some (toString seconds) ∧
    result.retryAfter ≤ seconds * 1000000000

theorem rateLimited_told {result : Result} (h0 : 0 < result.retryAfter)
    (h : result.retryAfter ≤ 60000000000) : ToldToWait result (rateLimited result) := by
  refine ⟨rfl, _, rfl, ?_⟩
  rw [ceilSeconds_ofInt h0.le (by omega)]
  omega

/-- A client that the limiter refuses is told to wait. -/
def Told (result : Result) : Prop :=
  ∀ operation now (p : ApiClientPrincipal) (allow : String → Int32 → Option Result) next,
    allow p.id.text p.rpmLimit = some result →
      ToldToWait result (enforceAPIClientRateLimit operation now (some p) allow next).1

theorem told_of_denied {result : Result} (hdenied : result.allowed = false)
    (h0 : 0 < result.retryAfter) (h : result.retryAfter ≤ 60000000000) : Told result := by
  intro operation now p allow next hallow
  simp only [enforceAPIClientRateLimit, hallow, hdenied, Bool.false_eq_true, if_false]
  exact rateLimited_told h0 h

/-- In every bucket that calls can leave, with readings of the client that do not decrease, the
delay of a denied call is exact, in memory and in Valkey, and the client is told no shorter one. -/
theorem retry_after_exact {rpm : String → Int32}
    (hrpm : ∀ client, 1 ≤ rpm client) (client : String) :
    (∀ (calls between : List (String × Int)) (now : Int),
      (readingsOf client calls ++ [now]).Pairwise (· ≤ ·) → (∀ x ∈ between, x.1 ≠ client) →
      ∃ result m, (newMemory.afterCalls rpm calls).allow now client (rpm client) = (result, m) ∧
        (result.allowed = false →
        RetryExact id (fun later =>
          ((m.afterCalls rpm between).allow later client (rpm client)).1.allowed =
          true) now result ∧ Told result)) ∧
    (∀ (times : List ServerTime) (t : ServerTime),
      ∃ result k, valkeyAllow (runScripts (rpm client) none times).2 t (rpm client) =
        (some result, k) ∧ (result.allowed = false → RetryExact ServerTime.nanoseconds
          (fun later => ∃ r k', valkeyAllow (some k) later (rpm client) = (some r, k') ∧
            r.allowed = true) t result ∧
          Told result)) := by
  constructor
  · intro calls between now horder hbetween
    refine ⟨_, _, rfl, fun hdenied => ?_⟩
    obtain ⟨hexact, h0, h⟩ := memory_calls_exact (hrpm client) horder rfl hdenied hbetween
    exact ⟨hexact, told_of_denied hdenied h0 h⟩
  · intro times t
    have hunset : ∀ k ∈ (none : Option StoredBucket), Stored k := nofun
    have hkey := runScripts_stored (hrpm client) hunset times
    obtain ⟨result, k, hcall, hretry⟩ := valkey_retry_exact (hrpm client) hkey t
    refine ⟨result, k, hcall, fun hdenied => ?_⟩
    obtain ⟨hexact, h0, h⟩ := hretry hdenied
    exact ⟨hexact, told_of_denied hdenied h0 h⟩

section sample

/-- A second call comes one nanosecond after the first, with one allowed in a minute; before the
third, another client calls. -/
theorem retry_after_sample : ∃ result m,
    (newMemory.afterCalls (fun _ => 1) [("a", 0)]).allow 1 "a" 1 = (result, m) ∧
    result.allowed = false ∧
      result.retryAfter = 59999999999 ∧
      (∀ later, ((m.afterCalls (fun _ => 1) [("b", 5)]).allow later "a" 1).1.allowed = true ↔
        60000000000 ≤ later) ∧
      Told result := by
  have hrpm : ∀ client : String, (1 : Int32) ≤ (fun _ => 1) client := fun _ => Int32.le_refl 1
  obtain ⟨result, m, hcall, hexact⟩ :=
    (retry_after_exact hrpm "a").1 [("a", 0)] [("b", 5)] 1 (by decide) (by decide)
  have hresult : result = ⟨false, 1, 0, 59999999999, 59999999999⟩ := by
    have hcomputed : ((newMemory.afterCalls (fun _ => 1) [("a", 0)]).allow 1 "a" 1).1 =
        ⟨false, 1, 0, 59999999999, 59999999999⟩ := by decide +kernel
    exact (congrArg Prod.fst hcall).symm.trans hcomputed
  have hdenied : result.allowed = false := by rw [hresult]
  obtain ⟨hexact, htold⟩ := hexact hdenied
  refine ⟨result, m, hcall, hdenied, by rw [hresult], fun later => ?_, htold⟩
  refine (hexact later).trans ?_
  rw [hresult]
  exact Iff.rfl

end sample

end Tenancit.Httpapi
