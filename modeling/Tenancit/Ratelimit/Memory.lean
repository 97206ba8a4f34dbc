import Mathlib.Data.List.Induction
import Tenancit.Ratelimit.Limiter

/-!
What the limiter in memory admits. A bucket's level less the credit of the time it was last
used at never rises, and each admission lowers it by one: over any calls of a client the
admissions are paid by the capacity and by the time between the first and the last of them.
-/
namespace Tenancit.Ratelimit

open TokenBucket

/-- A reading of `time.Now`, in nanoseconds from some instant. All readings lie in a window of 2^63
of them, in which `Sub` does not saturate; they may come in any order. -/
structure Reading where
  nanoseconds : Int
  nonneg : 0 ≤ nanoseconds
  bounded : nanoseconds < 2 ^ 63
  deriving DecidableEq

structure Call where
  client : String
  now : Reading
  deriving DecidableEq

/-- The calls of all clients in the order in which they take the lock, with their results. -/
def serve (rpm : String → Int32) : Memory → List Call → List (Call × Result) × Memory
  | m, [] => ([], m)
  | m, c :: cs =>
    let (result, m') := m.allow c.now.nanoseconds c.client (rpm c.client)
    let (rest, last) := serve rpm m' cs
    ((c, result) :: rest, last)

/-- The calls of one client among them. -/
def callsOf (client : String) (xs : List (Call × Result)) : List (Call × Result) :=
  xs.filter fun x => x.1.client = client

/-- How many of the calls were admitted. -/
def admitted (xs : List (Call × Result)) : Nat := xs.countP fun x => x.2.allowed

/-- The time from one reading to another, in minutes. -/
def minutes (since until_ : Reading) : ℚ :=
  ((until_.nanoseconds - since.nanoseconds : Int) : ℚ) / minute

/-- What the limiter keeps to, serving the calls from the start. -/
structure Bounded (rpm : String → Int32) (calls : List Call) : Prop where
  /-- Over any segment of the calls of a client, from the first to the last that was admitted. -/
  admitted : ∀ client xs segment ys, callsOf client (serve rpm newMemory calls).1 =
    xs ++ (segment ++ ys) →
    ∀ first ∈ segment.head?, ∀ last ∈ (segment.filter fun x => x.2.allowed).getLast?,
      (admitted segment : ℚ) ≤ capacity (rpm client) +
        capacity (rpm client) * minutes first.1.now last.1.now
  /-- Where the readings of a client do not decrease, its level stays between nothing and the
  capacity. -/
  level : ∀ client, (calls.filter fun c => c.client = client).Pairwise
      (fun c d => c.now.nanoseconds ≤ d.now.nanoseconds) →
    ∀ bucket ∈ (serve rpm newMemory calls).2.buckets client,
      0 ≤ bucket.tokens ∧ bucket.tokens ≤ capacity (rpm client)
  /-- A client is served as if it were alone. -/
  alone : ∀ client, callsOf client (serve rpm newMemory calls).1 =
    (serve rpm newMemory (calls.filter fun c => c.client = client)).1

theorem sub_reading (t u : Reading) :
    sub t.nanoseconds u.nanoseconds = t.nanoseconds - u.nanoseconds := by
  have ht := t.nonneg
  have ht' := t.bounded
  have hu := u.nonneg
  have hu' := u.bounded
  unfold sub
  omega

theorem minute_pos : 0 < minute := by
  norm_num [minute]

section bucket

variable {rpm : Int32} {b b' : Option MemoryBucket} {x : Call × Result}

/-- A call on the bucket of a client. -/
def ServesOne (rpm : Int32) (b : Option MemoryBucket) (x : Call × Result)
    (b' : Option MemoryBucket) : Prop :=
  ∃ k, MemoryBucket.allow b x.1.now.nanoseconds rpm = (x.2, k) ∧ b' = some k

/-- A call takes a token from the level it finds, if it is admitted. -/
theorem servesOne_spec (h : ServesOne rpm b x b') : ∃ k, b' = some k ∧ k.at_ = x.1.now.nanoseconds ∧
    k.tokens = spend (MemoryBucket.level b k.at_ rpm) ∧
    (x.2.allowed = true ↔ 1 ≤ MemoryBucket.level b k.at_ rpm) := by
  obtain ⟨k, hk, rfl⟩ := h
  obtain ⟨hresult, rfl⟩ := Prod.mk.inj hk
  exact ⟨_, rfl, rfl, rfl, by rw [← hresult]; exact decide_eq_true_iff⟩

theorem level_le_capacity (now : Int) : MemoryBucket.level b now rpm ≤ capacity rpm :=
  refill_le_capacity

/-- The tokens of a bucket, less the credit of its time. -/
def potential (rpm : Int32) : Option MemoryBucket → ℚ
  | none => 0
  | some k => k.tokens - k.at_ * (capacity rpm / minute)

/-- The bucket has been used, at a reading. -/
def Used (b : Option MemoryBucket) : Prop := ∃ k t, b = some k ∧ k.at_ = Reading.nanoseconds t

theorem ServesOne.used (h : ServesOne rpm b x b') : Used b' := by
  obtain ⟨k, rfl, hat, -, -⟩ := servesOne_spec h
  exact ⟨k, x.1.now, rfl, hat⟩

/-- A call never adds to the potential, and pays for its admission. -/
theorem ServesOne.potential_le (h : ServesOne rpm b x b') (hb : Used b) :
    potential rpm b' + (if x.2.allowed then 1 else 0) ≤ potential rpm b := by
  obtain ⟨k, rfl, hat, htokens, hallowed⟩ := servesOne_spec h
  obtain ⟨j, t, rfl, hj⟩ := hb
  have hspend := spend_add_taken (MemoryBucket.level (some j) k.at_ rpm)
  have hlevel : MemoryBucket.level (some j) k.at_ rpm ≤ j.tokens +
      (k.at_ - j.at_) * (capacity rpm / minute) := by
    refine refill_le.trans_eq ?_
    rw [hat, Option.getD_some, hj, sub_reading]
    push_cast
    ring
  have htaken : (if x.2.allowed = true then (1 : ℚ) else 0) =
      taken (MemoryBucket.level (some j) k.at_ rpm) := by
    simp only [taken, hallowed]
  rw [htaken]
  simp only [potential, htokens]
  linarith

/-- The calls after a first one are paid for by the capacity and the time that has passed. -/
theorem admitted_le {xs : List (Call × Result)} (hrun : Runs.Run (ServesOne rpm) b (x :: xs) b') :
    ∃ k, b' = some k ∧ k.tokens + admitted (x :: xs) ≤
      capacity rpm + (k.at_ - x.1.now.nanoseconds) * (capacity rpm / minute) := by
  obtain ⟨u, hu, hrest⟩ := Runs.run_cons_iff.mp hrun
  have hfirst : potential rpm u + (if x.2.allowed then 1 else 0) ≤
      capacity rpm - x.1.now.nanoseconds * (capacity rpm / minute) := by
    obtain ⟨k, rfl, hat, htokens, hallowed⟩ := servesOne_spec hu
    have hspend := spend_add_taken (MemoryBucket.level b k.at_ rpm)
    have hlevel : MemoryBucket.level b k.at_ rpm ≤ capacity rpm := level_le_capacity k.at_
    have htaken : (if x.2.allowed = true then (1 : ℚ) else 0) =
        taken (MemoryBucket.level b k.at_ rpm) := by
      simp only [taken, hallowed]
    rw [htaken]
    simp only [potential, htokens, hat] at *
    linarith
  have hstep : ∀ s l t, Used s → ServesOne rpm s l t →
      potential rpm t + (if l.2.allowed then 1 else 0) ≤ potential rpm s :=
        fun _ _ _ hused h => h.potential_le hused
  have hpays := hrest.countP_le (fun _ _ _ _ h => h.used) hstep hu.used
  obtain ⟨k, t, rfl, -⟩ : Used b' := hrest.invariant (fun _ _ _ _ h => h.used) hu.used
  refine ⟨k, rfl, ?_⟩
  simp only [potential] at hpays hfirst
  rw [admitted, List.countP_cons]
  push_cast
  linarith

/-- With readings in order the level stays between nothing and the capacity. -/
theorem level_bounded (hrpm : 1 ≤ rpm) {xs : List (Call × Result)}
    (hrun : Runs.Run (ServesOne rpm) none xs b)
    (horder : xs.Pairwise fun x y => x.1.now.nanoseconds ≤ y.1.now.nanoseconds) :
    ∀ k ∈ b, 0 ≤ k.tokens ∧ k.tokens ≤ capacity rpm := by
  have hcapacity := one_le_capacity hrpm
  -- the bucket stands at the reading of one of the calls so far
  have hinv : xs.Pairwise (fun x y => x.1.now.nanoseconds ≤ y.1.now.nanoseconds) → ∀ k ∈ b,
      (0 ≤ k.tokens ∧ k.tokens ≤ capacity rpm) ∧ ∃ x ∈ xs, k.at_ = x.1.now.nanoseconds := by
    refine hrun.history (P := fun xs b =>
      xs.Pairwise (fun x y => x.1.now.nanoseconds ≤ y.1.now.nanoseconds) →
      ∀ k ∈ b, (0 ≤ k.tokens ∧ k.tokens ≤ capacity rpm) ∧ ∃ x ∈ xs,
      k.at_ = x.1.now.nanoseconds) nofun ?_
    rintro xs u x v - ih hx horder k rfl
    obtain ⟨hbefore, -, hlast⟩ := List.pairwise_append.mp horder
    obtain ⟨k', hk', hat, htokens, -⟩ := servesOne_spec hx
    obtain rfl := Option.some.inj hk'
    have hlevel : 0 ≤ MemoryBucket.level u k.at_ rpm := by
      refine refill_nonneg (by linarith) ?_
      cases u with
      | none =>
        simp only [Option.getD_none, sub, Int.sub_self]
        norm_num
        linarith
      | some j =>
        obtain ⟨⟨hj, -⟩, y, hy, hyat⟩ := ih hbefore j rfl
        have hle : j.at_ ≤ k.at_ := by
          rw [hyat, hat]
          exact hlast y hy x (List.mem_singleton_self x)
        have hsub : 0 ≤ sub k.at_ j.at_ := by
          rw [hat, hyat, sub_reading, ← hat, ← hyat]
          exact Int.sub_nonneg_of_le hle
        have hcredit : (0 : ℚ) ≤ sub k.at_ j.at_ * (capacity rpm / minute) :=
          mul_nonneg (by exact_mod_cast hsub) (div_nonneg (by linarith) minute_pos.le)
        exact add_nonneg hj hcredit
    refine ⟨⟨?_, ?_⟩, x, by simp, hat⟩
    · rw [htokens]
      exact spend_nonneg (.inl hlevel)
    · rw [htokens]
      exact (spend_le _).trans (level_le_capacity _)
  exact fun k hk => (hinv horder k hk).1

end bucket

section clients

variable {rpm : String → Int32} (client : String)

/-- The calls of a client act on its bucket alone. -/
theorem serve_client (m : Memory) (cs : List Call) :
    Runs.Run (ServesOne (rpm client)) (m.buckets client)
    (callsOf client (serve rpm m cs).1) ((serve rpm m cs).2.buckets client) := by
  induction cs generalizing m with
  | nil => exact .nil _
  | cons c cs ih =>
    by_cases hc : c.client = client
    · subst hc
      have hrest := ih (m.allow c.now.nanoseconds c.client (rpm c.client)).2
      simp only [serve, callsOf, List.filter_cons, decide_true, if_true]
      refine .cons ⟨(MemoryBucket.allow (m.buckets c.client) c.now.nanoseconds (rpm c.client)).2,
        rfl, ?_⟩ hrest
      simp [Memory.allow]
    · have hrest := ih (m.allow c.now.nanoseconds c.client (rpm c.client)).2
      have hsame : (m.allow c.now.nanoseconds c.client (rpm c.client)).2.buckets client =
          m.buckets client :=
        Function.update_of_ne (Ne.symm hc) _ _
      rw [hsame] at hrest
      simpa only [serve, callsOf, List.filter_cons, hc, decide_false,
        Bool.false_eq_true, if_false] using hrest

theorem callsOf_calls (m : Memory) (cs : List Call) :
    (callsOf client (serve rpm m cs).1).map Prod.fst = cs.filter fun c => c.client = client := by
  induction cs generalizing m with
  | nil => rfl
  | cons c cs ih =>
    have hrest := ih (m.allow c.now.nanoseconds c.client (rpm c.client)).2
    by_cases hc : c.client = client
    · simpa [serve, callsOf, List.filter_cons, hc] using hrest
    · simpa [serve, callsOf, List.filter_cons, hc] using hrest

/-- The results of a client are those of its own calls on its own bucket. -/
theorem callsOf_alone {m m' : Memory} (h : m.buckets client = m'.buckets client) (cs : List Call) :
    callsOf client (serve rpm m cs).1 =
      (serve rpm m' (cs.filter fun c => c.client = client)).1 := by
  induction cs generalizing m m' with
  | nil => rfl
  | cons c cs ih =>
    by_cases hc : c.client = client
    · subst hc
      have hnext : (m.allow c.now.nanoseconds c.client (rpm c.client)).2.buckets c.client =
          (m'.allow c.now.nanoseconds c.client (rpm c.client)).2.buckets c.client := by
            simp [Memory.allow, h]
      have hrest := ih hnext
      simp only [serve, callsOf, List.filter_cons, decide_true, if_true] at hrest ⊢
      rw [hrest, Memory.allow, Memory.allow, h]
    · have hnext : (m.allow c.now.nanoseconds c.client (rpm c.client)).2.buckets client =
          m'.buckets client :=
        (Function.update_of_ne (Ne.symm hc) _ _).trans h
      have hrest := ih hnext
      simpa only [serve, callsOf, List.filter_cons, hc, decide_false,
        Bool.false_eq_true, if_false] using hrest

end clients

/-- What comes after the last of the admitted calls is not admitted. -/
theorem exists_last_admitted {xs : List (Call × Result)} {last : Call × Result}
    (h : (xs.filter fun x => x.2.allowed).getLast? = some last) :
    ∃ before after, xs = before ++ last :: after ∧ last.2.allowed = true ∧ admitted after = 0 := by
  induction xs using List.reverseRecOn with
  | nil => cases h
  | append_singleton xs x ih =>
    by_cases hx : x.2.allowed = true
    · obtain rfl : x = last := by simpa [List.filter_append, List.filter_cons, hx] using h
      exact ⟨xs, [], rfl, hx, rfl⟩
    · obtain ⟨before, after, rfl, hlast, hafter⟩ :=
        ih (by simpa [List.filter_append, List.filter_cons, hx] using h)
      refine ⟨before, after ++ [x], by simp, hlast, ?_⟩
      simp [admitted] at hafter ⊢
      exact ⟨hafter, by simpa using hx⟩

/-- The admissions of a segment are paid for by the capacity and the time up to the last of them. -/
theorem segment_bounded {rpm : Int32} {b b' : Option MemoryBucket} {segment : List (Call × Result)}
    (hrun : Runs.Run (ServesOne rpm) b segment b') {first last : Call × Result}
    (hfirst : segment.head? = some first)
    (hlast : (segment.filter fun x => x.2.allowed).getLast? = some last) :
    (admitted segment : ℚ) ≤ capacity rpm + capacity rpm * minutes first.1.now last.1.now := by
  obtain ⟨before, after, rfl, hallowed, hafter⟩ := exists_last_admitted hlast
  have hcount : admitted (before ++ last :: after) = admitted (before ++ [last]) := by
    simp only [admitted, List.countP_append, List.countP_cons, List.countP_nil] at hafter ⊢
    omega
  rw [← List.singleton_append, ← List.append_assoc] at hrun
  obtain ⟨u, hrun, -⟩ := Runs.run_append_iff.mp hrun
  obtain ⟨v, -, hstep⟩ := Runs.run_append_iff.mp hrun
  obtain ⟨w, hstep, hnil⟩ := Runs.run_cons_iff.mp hstep
  obtain rfl := Runs.run_nil_iff.mp hnil
  obtain ⟨k, rfl, hat, htokens, hone⟩ := servesOne_spec hstep
  have hnonneg : 0 ≤ k.tokens := by
    rw [htokens]
    exact spend_nonneg (.inr (hone.mp hallowed))
  have hpaid : (admitted (before ++ [last]) : ℚ) ≤
      capacity rpm + (k.at_ - first.1.now.nanoseconds) * (capacity rpm / minute) := by
    cases before with
    | nil =>
      obtain rfl : last = first := by simpa using hfirst
      obtain ⟨k', hk', hle⟩ := admitted_le hrun
      obtain rfl := Option.some.inj hk'
      exact (le_add_of_nonneg_left hnonneg).trans hle
    | cons x before =>
      obtain rfl : x = first := by simpa using hfirst
      obtain ⟨k', hk', hle⟩ := admitted_le hrun
      obtain rfl := Option.some.inj hk'
      exact (le_add_of_nonneg_left hnonneg).trans hle
  rw [hcount]
  refine hpaid.trans_eq ?_
  rw [minutes, hat]
  push_cast
  ring

/-- However the calls of the clients interleave and whatever the clock shows, the limiter in
memory keeps to its bounds. -/
theorem memory_bounded {rpm : String → Int32}
    (hrpm : ∀ client, 1 ≤ rpm client) (calls : List Call) : Bounded rpm calls := by
  refine ⟨fun client xs segment ys hsplit first hfirst last hlast =>
    ?_, fun client horder bucket hbucket => ?_,
    fun client => callsOf_alone client rfl calls⟩
  · have hrun : Runs.Run (ServesOne (rpm client)) _ _ _ := serve_client client newMemory calls
    rw [hsplit] at hrun
    obtain ⟨u, -, hrun⟩ := Runs.run_append_iff.mp hrun
    obtain ⟨v, hsegment, -⟩ := Runs.run_append_iff.mp hrun
    exact segment_bounded hsegment hfirst hlast
  · have hrun : Runs.Run (ServesOne (rpm client)) _ _ _ := serve_client client newMemory calls
    refine level_bounded (hrpm client) hrun ?_ bucket hbucket
    rw [← callsOf_calls client newMemory calls, List.pairwise_map] at horder
    exact horder

section sample

/-- Two clients in turn; the clock steps back for the third call and forward again. -/
def sampleCalls : List Call :=
  [⟨"a", ⟨60000000000, by decide, by decide⟩⟩, ⟨"b", ⟨60000000000, by decide, by decide⟩⟩,
   ⟨"a", ⟨0, by decide, by decide⟩⟩, ⟨"a", ⟨60000000000, by decide, by decide⟩⟩,
   ⟨"a", ⟨120000000000, by decide, by decide⟩⟩]

theorem memory_bounded_sample : Bounded (fun _ => 1) sampleCalls ∧
    (serve (fun _ => 1) newMemory sampleCalls).1.map (fun x => x.2.allowed) =
      [true, true, false, false, true] :=
  ⟨memory_bounded (fun _ => by decide) sampleCalls, by decide +kernel⟩

end sample

end Tenancit.Ratelimit
