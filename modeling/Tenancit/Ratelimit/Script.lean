import Tenancit.Ratelimit.Limiter

/-!
What the script in Valkey admits. It earns a credit whenever a reading is after the stored
reference time, and it moves that time back with the clock; so time that has earned a credit
before the clock stepped back earns it again when the clock goes forward.
-/
namespace Tenancit.Ratelimit

open TokenBucket

/-- Runs of the script for one client, with their replies. -/
def runScripts (rpm : Int32) :
    Option StoredBucket → List ServerTime → List (ServerTime × Reply) × Option StoredBucket
  | key, [] => ([], key)
  | key, t :: ts =>
    let (reply, bucket) := runScript key t rpm
    let (rest, last) := runScripts rpm (some bucket) ts
    ((t, reply) :: rest, last)

/-- How many of the runs were admitted. -/
def admittedRuns (xs : List (ServerTime × Reply)) : Nat := xs.countP fun x => x.2.allowed = 1

/-- Over any segment of consecutive runs from the first one on a key that does not exist. -/
def ScriptBounded (rpm : Int32) (times : List ServerTime) : Prop :=
  ∀ xs segment ys, (runScripts rpm none times).1 = xs ++ (segment ++ ys) →
    ∀ first ∈ segment.head?, ∀ largest ∈ (segment.map fun x => x.1.now).max?,
      (admittedRuns segment : ℚ) ≤
        capacity rpm + capacity rpm * (((largest - first.1.now : Int) : ℚ) / scriptMinute)

/-- What a run finds earns no time a credit twice: the reading is not after the reference
time, or that is the latest reading so far, or the time since the latest reading fills the
bucket alone. -/
def CreditsOnce (rpm : Int32) (latest : Int) (key : StoredBucket) (now : Int) : Prop :=
  now ≤ key.at_ ∨ key.at_ = latest ∨
    capacity rpm ≤ key.tokens + max 0 ((now - latest : Int) : ℚ) * (capacity rpm / scriptMinute)

instance (rpm : Int32) (latest : Int) (key : StoredBucket) (now : Int) :
    Decidable (CreditsOnce rpm latest key now) :=
  inferInstanceAs (Decidable (_ ∨ _ ∨ _))

theorem rate_pos {rpm : Int32} (h : 1 ≤ rpm) : 0 < capacity rpm / scriptMinute :=
  div_pos (by linarith [one_le_capacity h]) (by norm_num [scriptMinute])

/-- The life of a key does not depend on the limit. -/
theorem ttl_eq {rpm : Int32} (h : 1 ≤ rpm) :
    ⌈capacity rpm / (capacity rpm / scriptMinute) * 2⌉ = 120000 := by
  have hcapacity := one_le_capacity h
  have hne : capacity rpm ≠ 0 := by linarith
  rw [div_div_cancel₀ hne]
  norm_num [scriptMinute]

/-- What runs leave under a key. -/
structure Stored (k : StoredBucket) : Prop where
  nonneg : 0 ≤ k.tokens
  expires : k.expiresAt = k.at_ + 120000

section level

variable {rpm : Int32} {k : StoredBucket} {now : Int}

theorem script_level_le (key : Option StoredBucket) :
    StoredBucket.level key now rpm ≤ capacity rpm := refill_le_capacity

/-- A key that has expired would have been full: its expiry changes nothing. -/
theorem level_live (hrpm : 1 ≤ rpm) (hk : Stored k) :
    StoredBucket.level (live now (some k)) now rpm = StoredBucket.level (some k) now rpm := by
  have hcapacity := one_le_capacity hrpm
  by_cases hlive : now ≤ k.expiresAt
  · rw [live_some, if_pos hlive]
  · have hgone : live now (some k) = none := by rw [live_some, if_neg hlive]
    rw [hk.expires] at hlive
    have htime : (120000 : ℚ) ≤ ((now - k.at_ : Int) : ℚ) := by
      exact_mod_cast (by omega : 120000 ≤ now - k.at_)
    have hfull : capacity rpm ≤ k.tokens + max 0 ((now - k.at_ : Int) : ℚ) *
        (capacity rpm / scriptMinute) := by
      have htwice : 120000 * (capacity rpm / scriptMinute) = 2 * capacity rpm := by
        rw [scriptMinute]
        ring
      have hcredit := mul_le_mul_of_nonneg_right (htime.trans (le_max_right 0 _)) (rate_pos hrpm).le
      have hnonneg := hk.nonneg
      linarith
    rw [hgone, StoredBucket.level, StoredBucket.level, Option.map_some,
      Option.map_some, Option.getD_some,
      Option.getD_some, refill_of_le hfull]
    refine refill_of_le ?_
    simp

/-- A key that has expired counts as the full one that it would be. -/
theorem level_kept (hrpm : 1 ≤ rpm) {key : Option StoredBucket} (hkey : ∀ k ∈ key, Stored k)
    (now : Int) :
    StoredBucket.level (live now key) now rpm = StoredBucket.level key now rpm := by
  cases key with
  | none => rfl
  | some k => exact level_live hrpm (hkey k rfl)

theorem level_nonneg (hrpm : 1 ≤ rpm) {key : Option StoredBucket} (hkey : ∀ k ∈ key, Stored k)
    (now : Int) : 0 ≤ StoredBucket.level key now rpm := by
  have hcapacity := one_le_capacity hrpm
  refine refill_nonneg (by linarith)
    (add_nonneg ?_ (mul_nonneg (le_max_left _ _) (rate_pos hrpm).le))
  cases key with
  | none => exact (by linarith : (0 : ℚ) ≤ capacity rpm)
  | some k => exact (hkey k rfl).nonneg

/-- A run of the script takes a token from the level it finds, if it is admitted. -/
theorem runScript_spec (hrpm : 1 ≤ rpm) {key : Option StoredBucket} {t : ServerTime} {reply : Reply}
    {k : StoredBucket} (hkey : ∀ k ∈ key, Stored k) (h : runScript key t rpm = (reply, k)) :
    Stored k ∧ k.at_ = t.now ∧ k.tokens = spend (StoredBucket.level key t.now rpm) ∧
      (reply.allowed = 1 ↔ 1 ≤ StoredBucket.level key t.now rpm) := by
  have hlevel := level_kept hrpm hkey t.now
  have hnonneg := level_nonneg hrpm hkey t.now
  obtain ⟨hreply, rfl⟩ := Prod.mk.inj h
  refine ⟨⟨?_, ?_⟩, rfl, ?_, ?_⟩
  · simp only [hlevel]
    exact spend_nonneg (.inl hnonneg)
  · simp only [ttl_eq hrpm]
  · simp only [hlevel]
  · rw [← hreply]
    simp only [scriptReply, hlevel]
    split <;> simp [*]

end level

section runs

variable {rpm : Int32}

/-- The key with the latest reading so far. -/
abbrev Traced := StoredBucket × Int

/-- A run of the script on a key that exists, earning no time a credit twice. -/
def Earns (rpm : Int32) (s : Traced) (x : ServerTime × Reply) (s' : Traced) : Prop :=
  runScript (some s.1) x.1 rpm = (x.2, s'.1) ∧ s'.2 = max s.2 x.1.now ∧
  CreditsOnce rpm s.2 s.1 x.1.now

/-- What is known of a key all along. -/
def Known (s : Traced) : Prop := Stored s.1 ∧ s.1.at_ ≤ s.2

variable {s s' : Traced} {x : ServerTime × Reply}

theorem Earns.known (hrpm : 1 ≤ rpm) (hs : Known s) (h : Earns rpm s x s') : Known s' := by
  obtain ⟨hrun, hlatest, -⟩ := h
  obtain ⟨hstored, hat, -, -⟩ := runScript_spec hrpm (fun k hk => Option.some.inj hk ▸ hs.1) hrun
  refine ⟨hstored, ?_⟩
  rw [hat, hlatest]
  exact le_max_right _ _

/-- The credit of a run is no more than that of the time since the latest reading. -/
theorem CreditsOnce.level_le (hrpm : 1 ≤ rpm) {key : StoredBucket} {latest now : Int}
    (h : CreditsOnce rpm latest key now) : StoredBucket.level (some key) now rpm ≤
      key.tokens + ((max latest now - latest : Int) : ℚ) * (capacity rpm / scriptMinute) := by
  have hrate := (rate_pos hrpm).le
  have hmax : ((max latest now - latest : Int) : ℚ) = max 0 ((now - latest : Int) : ℚ) := by
    rcases le_total latest now with hle | hle
    · rw [max_eq_right hle, max_eq_right (by exact_mod_cast Int.sub_nonneg_of_le hle)]
    · rw [max_eq_left hle, max_eq_left (by exact_mod_cast Int.sub_nonpos_of_le hle)]
      simp
  rw [hmax]
  rcases h with hback | rfl | hfull
  · have hzero : max 0 ((now - key.at_ : Int) : ℚ) = 0 :=
      max_eq_left (by exact_mod_cast Int.sub_nonpos_of_le hback)
    refine refill_le.trans ?_
    rw [Option.map_some, Option.map_some, Option.getD_some, Option.getD_some, hzero, zero_mul]
    have hcredit := mul_nonneg (le_max_left 0 ((now - latest : Int) : ℚ)) hrate
    linarith
  · exact refill_le
  · exact (script_level_le _).trans hfull

/-- The tokens of a key, less the credit of the latest reading. -/
def scriptPotential (rpm : Int32) (s : Traced) : ℚ :=
  s.1.tokens - s.2 * (capacity rpm / scriptMinute)

theorem allowed_eq_taken {level : ℚ} {reply : Reply} (h : reply.allowed = 1 ↔ 1 ≤ level) :
    (if (decide (reply.allowed = 1)) = true then (1 : ℚ) else 0) = taken level := by
  simp only [taken, decide_eq_true_eq, h]

theorem Earns.potential_le (hrpm : 1 ≤ rpm) (hs : Known s) (h : Earns rpm s x s') :
    scriptPotential rpm s' + (if decide (x.2.allowed = 1) then 1 else 0) ≤
      scriptPotential rpm s := by
  obtain ⟨hrun, hlatest, honce⟩ := h
  obtain ⟨-, -, htokens, hallowed⟩ :=
    runScript_spec hrpm (fun k hk => Option.some.inj hk ▸ hs.1) hrun
  have hlevel := honce.level_le hrpm
  have hspend := spend_add_taken (StoredBucket.level (some s.1) x.1.now rpm)
  rw [allowed_eq_taken hallowed]
  simp only [scriptPotential, htokens, hlatest]
  push_cast at hlevel ⊢
  linarith

/-- The latest reading is one from before or one of the run. -/
theorem latest_le {xs : List (ServerTime × Reply)} (hrun : Runs.Run (Earns rpm) s xs s')
    {largest : Int} (hlargest : ∀ x ∈ xs, x.1.now ≤ largest) : s'.2 ≤ max s.2 largest := by
  induction hrun with
  | nil s => exact le_max_left _ _
  | @cons s u t l ls hstep _ ih =>
    have hrest := ih fun x hx => hlargest x (.tail _ hx)
    rw [hstep.2.1] at hrest
    have hfirst := hlargest l (.head _)
    omega

/-- After a first run of the script the runs are paid for by the capacity and the time that
has passed up to the largest reading. -/
theorem admittedRuns_le (hrpm : 1 ≤ rpm) {key : Option StoredBucket} (hkey : ∀ k ∈ key, Stored k)
    {xs : List (ServerTime × Reply)} (hfirst : runScript key x.1 rpm = (x.2, s.1))
    (hs : x.1.now ≤ s.2) (hrun : Runs.Run (Earns rpm) s xs s') {largest : Int}
    (hlargest : ∀ y ∈ x :: xs, y.1.now ≤ largest) :
    (admittedRuns (x :: xs) : ℚ) ≤
      capacity rpm + capacity rpm * (((largest - x.1.now : Int) : ℚ) / scriptMinute) := by
  obtain ⟨hstored, hat, htokens, hallowed⟩ := runScript_spec hrpm hkey hfirst
  have hknown : Known s := ⟨hstored, hat ▸ hs⟩
  have hstep : ∀ s l t, Known s → Earns rpm s l t →
      scriptPotential rpm t + (if decide (l.2.allowed = 1) then 1 else 0) ≤ scriptPotential rpm s :=
    fun _ _ _ hs h => h.potential_le hrpm hs
  have hpays := hrun.countP_le (fun _ _ _ hs h => h.known hrpm hs) hstep hknown
  have hend : 0 ≤ s'.1.tokens :=
    (hrun.invariant (fun _ _ _ hs h => h.known hrpm hs) hknown).1.nonneg
  have htime : ((s'.2 - s.2 : Int) : ℚ) ≤ ((largest - x.1.now : Int) : ℚ) := by
    have hlatest := latest_le hrun fun y hy => hlargest y (.tail _ hy)
    have hle := hlargest x (.head _)
    exact_mod_cast (by omega : s'.2 - s.2 ≤ largest - x.1.now)
  have hcredit := mul_le_mul_of_nonneg_right htime (rate_pos hrpm).le
  have hlevel : StoredBucket.level key x.1.now rpm ≤ capacity rpm := script_level_le key
  have hspend := spend_add_taken (StoredBucket.level key x.1.now rpm)
  rw [admittedRuns, List.countP_cons]
  simp only [scriptPotential] at hpays
  push_cast at hcredit ⊢
  rw [allowed_eq_taken hallowed]
  have hshape : capacity rpm * ((largest - x.1.now : ℚ) / scriptMinute) =
      (largest - x.1.now : ℚ) * (capacity rpm / scriptMinute) := by ring
  rw [hshape]
  linarith

theorem runScripts_append (key : Option StoredBucket) (as bs : List ServerTime) :
    runScripts rpm key (as ++ bs) =
    ((runScripts rpm key as).1 ++ (runScripts rpm (runScripts rpm key as).2 bs).1,
      (runScripts rpm (runScripts rpm key as).2 bs).2) := by
  induction as generalizing key with
  | nil => rfl
  | cons a as ih => simp [runScripts, ih]

theorem runScripts_times (key : Option StoredBucket) (ts : List ServerTime) :
    (runScripts rpm key ts).1.map Prod.fst = ts := by
  induction ts generalizing key with
  | nil => rfl
  | cons t ts ih => simp [runScripts, ih]

/-- The replies up to a run and those from it on are those of the readings up to it and from it
on. -/
theorem runScripts_split {key : Option StoredBucket} {ts : List ServerTime}
    {us vs : List (ServerTime × Reply)} (h : (runScripts rpm key ts).1 = us ++ vs) :
    ts = us.map Prod.fst ++ vs.map Prod.fst ∧
      (runScripts rpm key (us.map Prod.fst)).1 = us ∧
      (runScripts rpm (runScripts rpm key (us.map Prod.fst)).2 (vs.map Prod.fst)).1 = vs := by
  have hts : ts = us.map Prod.fst ++ vs.map Prod.fst := by
    rw [← List.map_append, ← h, runScripts_times]
  rw [hts, runScripts_append] at h
  refine ⟨hts, List.append_inj h ?_⟩
  rw [← List.length_map (f := Prod.fst), runScripts_times, List.length_map]

/-- Each run of the script, after the first one, earns no time a credit twice. -/
def CreditsOnceAlong (rpm : Int32) (times : List ServerTime) : Prop :=
  ∀ xs t ys, times = xs ++ t :: ys → ∀ key ∈ (runScripts rpm none xs).2,
  ∀ latest ∈ (xs.map ServerTime.now).max?,
    CreditsOnce rpm latest key t.now

theorem max?_snoc {xs : List ServerTime} {latest : Int}
    (h : (xs.map ServerTime.now).max? = some latest) (t : ServerTime) :
    ((xs ++ [t]).map ServerTime.now).max? = some (max latest t.now) := by
  rw [List.max?_eq_some_iff] at h ⊢
  obtain ⟨hmem, hle⟩ := h
  rw [List.map_append, List.map_singleton]
  refine ⟨?_, fun b hb => ?_⟩
  · rcases max_choice latest t.now with heq | heq <;> rw [heq]
    · exact List.mem_append_left _ hmem
    · exact List.mem_append_right _ (.head _)
  · rcases List.mem_append.mp hb with hb | hb
    · exact (hle b hb).trans (le_max_left _ _)
    · exact (List.mem_singleton.mp hb).trans_le (le_max_right _ _)

/-- Runs after others, traced with the latest reading. -/
theorem earns_run {before after rest : List ServerTime} {k : StoredBucket} {latest : Int}
    (honce : CreditsOnceAlong rpm (before ++ (after ++ rest)))
    (hkey : (runScripts rpm none before).2 = some k)
    (hlatest : (before.map ServerTime.now).max? = some latest) :
    ∃ s', Runs.Run (Earns rpm) (k, latest) (runScripts rpm (some k) after).1 s' := by
  induction after generalizing before k latest with
  | nil => exact ⟨_, .nil _⟩
  | cons t after ih =>
    have hnext : (runScripts rpm none (before ++ [t])).2 = some (runScript (some k) t rpm).2 := by
      rw [runScripts_append, hkey]
      rfl
    obtain ⟨s', hs'⟩ := ih (by simpa using honce) hnext (max?_snoc hlatest t)
    refine ⟨s', .cons ⟨rfl, rfl, ?_⟩ hs'⟩
    exact honce before t (after ++ rest) (by simp) k hkey latest hlatest

end runs

/-- Whatever runs leave is stored for two minutes and holds no less than nothing. -/
theorem runScripts_stored {rpm : Int32} (hrpm : 1 ≤ rpm) {key : Option StoredBucket}
    (hkey : ∀ k ∈ key, Stored k) (ts : List ServerTime) :
    ∀ k ∈ (runScripts rpm key ts).2, Stored k := by
  induction ts generalizing key with
  | nil => exact hkey
  | cons t ts ih =>
    refine ih fun k hk => ?_
    obtain rfl := Option.some.inj hk
    exact (runScript_spec hrpm hkey rfl).1

/-- In every sequence of runs that earns no time a credit twice, the script keeps to its
bound over every segment. -/
theorem script_bounded {rpm : Int32} (hrpm : 1 ≤ rpm) {times : List ServerTime}
    (honce : CreditsOnceAlong rpm times) : ScriptBounded rpm times := by
  intro xs segment ys hsplit first hfirst largest hlargest
  obtain ⟨x, segment, rfl⟩ : ∃ x rest, segment = x :: rest := by
    cases segment with
    | nil => cases hfirst
    | cons x rest => exact ⟨x, rest, rfl⟩
  obtain rfl : x = first := by simpa using hfirst
  obtain ⟨-, hlargest⟩ := List.max?_eq_some_iff.mp hlargest
  obtain ⟨htimes, -, hafter⟩ := runScripts_split hsplit
  obtain ⟨-, hsegment, -⟩ := runScripts_split hafter
  have hunset : ∀ k ∈ (none : Option StoredBucket), Stored k := nofun
  have hkey := runScripts_stored hrpm hunset (xs.map Prod.fst)
  generalize hk : (runScripts rpm none (xs.map Prod.fst)).2 = key at hsegment hkey
  simp only [List.map_cons, runScripts, List.cons.injEq] at hsegment
  obtain ⟨hreply, hrest⟩ := hsegment
  -- the latest reading once the segment has begun is not before its first
  obtain ⟨latest, hlatest, hle⟩ : ∃ latest,
    ((xs.map Prod.fst ++ [x.1]).map ServerTime.now).max? = some latest ∧
      x.1.now ≤ latest := by
    obtain ⟨latest, hlatest⟩ := Option.isSome_iff_exists.mp (List.isSome_max?_of_mem
      (List.mem_map.mpr ⟨x.1, List.mem_append_right _ (.head _), rfl⟩) :
        ((xs.map Prod.fst ++ [x.1]).map ServerTime.now).max?.isSome)
    exact ⟨latest, hlatest, (List.max?_eq_some_iff.mp hlatest).2 _ (by simp)⟩
  have hbegun : (runScripts rpm none (xs.map Prod.fst ++ [x.1])).2 =
      some (runScript key x.1 rpm).2 := by
    rw [runScripts_append, hk]
    rfl
  have honce : CreditsOnceAlong rpm ((xs.map Prod.fst ++ [x.1]) ++
      (segment.map Prod.fst ++ ys.map Prod.fst)) := by
    simpa [htimes] using honce
  obtain ⟨s', hrun⟩ := earns_run honce hbegun hlatest
  rw [hrest] at hrun
  refine admittedRuns_le hrpm hkey (s := (_, latest)) ?_ hle hrun fun y hy =>
    hlargest _ (List.mem_map.mpr ⟨y, hy, rfl⟩)
  exact Prod.ext (congrArg Prod.snd hreply) rfl

section sample

/-- The clock steps back after an admission and then shows the time of the admission again. -/
def sampleTimes : List ServerTime := [⟨60, 0⟩, ⟨0, 0⟩, ⟨60, 0⟩]

/-- The minute before the admission is credited once more: two runs are admitted in no time
at all, with one allowed in a minute. -/
theorem credit_granted_twice : ¬ScriptBounded 1 sampleTimes := by
  intro h
  have hbound :=
    h [] (runScripts 1 none sampleTimes).1 [] (by simp)
      (⟨60, 0⟩, ⟨1, 0, 0, 60000⟩) (by decide +kernel)
    60000 (by decide +kernel)
  revert hbound
  decide +kernel

/-- A step back that is made up for by an idle minute. -/
def sampleIdle : List ServerTime := [⟨60, 0⟩, ⟨59, 0⟩, ⟨120, 0⟩]

theorem script_bounded_sample : ScriptBounded 1 sampleIdle := by
  refine script_bounded (by decide) ?_
  intro xs t ys hsplit key hkey latest hlatest
  rcases xs with _ | ⟨a, _ | ⟨b, _ | ⟨c, xs⟩⟩⟩
  · cases hkey
  all_goals simp only [sampleIdle, List.cons_append, List.nil_append, List.cons.injEq] at hsplit
  · obtain ⟨rfl, rfl, -⟩ := hsplit
    obtain rfl : latest = 60000 := (Option.some.inj hlatest).symm
    obtain rfl := Option.some.inj hkey
    decide +kernel
  · obtain ⟨rfl, rfl, rfl, -⟩ := hsplit
    obtain rfl : latest = 60000 := (Option.some.inj hlatest).symm
    obtain rfl := Option.some.inj hkey
    decide +kernel
  · simp at hsplit

end sample

end Tenancit.Ratelimit
