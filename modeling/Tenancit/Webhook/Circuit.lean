import Tenancit.Webhook.DeadLetters
import Tenancit.Webhook.Worker

/-!
The circuit of a target: when a failure leaves it open, and what closes it. The counter is
incremented where it stands, but whether to open is decided from its value at the claim.
-/
namespace Tenancit.Webhook

open Store Queries Table Transactions Transactions.System

/-- What the circuit rule asks of one entry. -/
def CircuitRule (s : EventTables) (e : Entry Operation Direct) (s' : EventTables) : Prop :=
  match e with
  | .tx (.markFailed d now _ _ _ _ _ _ _) =>
    (∀ t' ∈ s'.targets, t'.id = d.targetId → 5 ≤ t'.consecutiveFailures →
      ∃ u ∈ t'.circuitOpenUntil, now < u) ∧
      ∀ t ∈ s.targets, ∀ u ∈ t.circuitOpenUntil, now < u →
        ∀ t' ∈ s'.targets, t'.id = t.id → ∃ u' ∈ t'.circuitOpenUntil, u ≤ u'
  | .tx (.markDelivered d _ _) =>
    ∀ t ∈ s.targets, t.id ≠ d.targetId → ∀ t' ∈ s'.targets,
      t'.id = t.id → t'.circuitOpenUntil = t.circuitOpenUntil
  | _ => ∀ t ∈ s.targets, ∀ t' ∈ s'.targets, t'.id = t.id → t'.circuitOpenUntil = t.circuitOpenUntil

/-- A failure on a target that is short of its fifth and has its circuit closed, or one that
opens the circuit for no shorter than it is open. -/
def CircuitKept (s : EventTables) (e : Entry Operation Direct) : Prop :=
  match e with
  | .tx (.markFailed d now _ _ _ dead _ _ _) => ∀ t ∈ s.targets, t.id = d.targetId →
    (t.consecutiveFailures + 1 < 5 ∨ OpensCircuit d dead) ∧
      ∀ u ∈ t.circuitOpenUntil, now < u → OpensCircuit d dead ∧ u ≤ now + circuitTime
  | _ => True

variable {s s' : EventTables} {e : Entry Operation Direct}

theorem serial_targetIds (hids : Keyed WebhookTarget.id s.targets)
    (h : deliverySystem.Serial s e s') : Keyed WebhookTarget.id s'.targets := by
  cases e with
  | tx op => cases op with
    | markDelivered d now status =>
      obtain ⟨-, rfl⟩ := serial_markDelivered h
      exact hids.update fun _ => rfl
    | markFailed d now next status code dead openUntil letterId clock =>
      rw [(serial_markFailed_tables h).2.2]
      exact hids.update fun _ => rfl
    | replay deliveryId now =>
      obtain ⟨-, rfl⟩ := serial_replay h
      exact hids
    | setStatus targetId status clock =>
      obtain rfl := serial_setStatus h
      exact hids.update fun _ => rfl
  | direct x =>
    obtain ⟨locked, h⟩ := h
    rcases Direct.exec_cases h with ⟨now, lease, limit, token, rfl, rfl⟩ |
      ⟨events, deliveries, rfl, -, -, -, -, rfl⟩ | ⟨t, rfl, hfresh, -, -, -, -, rfl⟩ | ⟨cutoff,
       eventCutoff, rfl, rfl⟩
    · exact hids
    · exact hids
    · exact hids.append fun u hu => (hfresh u hu).1
    · exact hids

/-- Targets that are not written keep their circuits. -/
theorem circuits_same (hids : Keyed WebhookTarget.id s.targets) {ts : List WebhookTarget}
    (hsub : ∀ t' ∈ ts, ∃ t ∈ s.targets, t.id = t'.id ∧ t.circuitOpenUntil = t'.circuitOpenUntil) :
    ∀ t ∈ s.targets, ∀ t' ∈ ts, t'.id = t.id → t'.circuitOpenUntil = t.circuitOpenUntil := by
  intro t ht t' ht' hid
  obtain ⟨t₀, ht₀, hid₀, hopen⟩ := hsub t' ht'
  rw [← hopen, hids.eq_of_key ht₀ ht (hid₀.trans hid)]

/-- The rule holds of a failure if and only if the failure keeps the circuit. -/
theorem circuitRule_markFailed {d : Delivery} {now next clock : Timestamp}
    {status : Option Int} {code : String}
    {dead : Bool} {openUntil : Option Timestamp} {letterId : UUID}
    (hids : Keyed WebhookTarget.id s.targets)
    (hopen : openUntil = if OpensCircuit d dead then some (now + circuitTime) else none)
    (h : deliverySystem.Serial s
      (.tx (.markFailed d now next status code dead openUntil letterId clock)) s') :
    CircuitRule s (.tx (.markFailed d now next status code dead openUntil letterId clock)) s' ↔
      CircuitKept s (.tx (.markFailed d now next status code dead openUntil letterId clock)) := by
  have htargets := (serial_markFailed_tables h).2.2
  have hcounted : ∀ t ∈ s.targets, t.id =
      d.targetId → setFailureCounted openUntil now t ∈ s'.targets := by
    intro t ht hid
    rw [htargets]
    exact mem_update.mpr ⟨t, ht, if_pos (decide_eq_true hid)⟩
  have hopens : ∀ u ∈ openUntil, OpensCircuit d dead ∧ u = now + circuitTime := by
    intro u hu
    rw [hopen, Option.mem_def, Option.ite_none_right_eq_some] at hu
    exact ⟨hu.1, (Option.some.inj hu.2).symm⟩
  have hpos : now < now + circuitTime := Int.lt_add_of_pos_right now (by decide)
  constructor
  · rintro ⟨hfifth, hlonger⟩ t ht hid
    refine ⟨?_, fun u hu hlater => ?_⟩
    · by_cases hfew : t.consecutiveFailures + 1 < 5
      · exact .inl hfew
      · obtain ⟨u, hu, -⟩ := hfifth _ (hcounted t ht hid) hid (Int.not_lt.mp hfew)
        exact .inr (hopens u hu).1
    · obtain ⟨u', hu', hle⟩ := hlonger t ht u hu hlater _ (hcounted t ht hid) rfl
      obtain ⟨hop, rfl⟩ := hopens u' hu'
      exact ⟨hop, hle⟩
  · intro hkept
    have hset : OpensCircuit d dead → now + circuitTime ∈ openUntil :=
      fun hop => by rw [hopen, if_pos hop]; rfl
    refine ⟨fun t' ht' hid hfive => ?_, fun t ht u hu hlater t' ht' hid => ?_⟩
    · rw [htargets] at ht'
      obtain ⟨t, ht, rfl⟩ := mem_update.mp ht'
      split at hid
      next hset' =>
        rw [if_pos hset'] at hfive ⊢
        have hop : OpensCircuit d dead :=
          (hkept t ht (of_decide_eq_true hset')).1.resolve_left (Int.not_lt.mpr hfive)
        exact ⟨_, hset hop, hpos⟩
      next hnot => simp [hid] at hnot
    · rw [htargets] at ht'
      obtain ⟨t₀, ht₀, rfl⟩ := mem_update.mp ht'
      split at hid
      next hset' =>
        rw [if_pos hset']
        obtain rfl := hids.eq_of_key ht₀ ht hid
        obtain ⟨hop, hle⟩ := (hkept t₀ ht₀ (of_decide_eq_true hset')).2 u hu hlater
        exact ⟨_, hset hop, hle⟩
      next hnot =>
        rw [if_neg hnot]
        obtain rfl := hids.eq_of_key ht₀ ht hid
        exact ⟨u, hu, le_rfl⟩

/-- Every entry of a scheduled transaction follows the rule if and only if it keeps the circuit. -/
theorem circuitRule_iff (hids : Keyed WebhookTarget.id s.targets)
    (hscheduled : ∀ op, e = .tx op → Scheduled op) (h : deliverySystem.Serial s e s') :
    CircuitRule s e s' ↔ CircuitKept s e := by
  cases e with
  | tx op => cases op with
    | markFailed d now next status code dead openUntil letterId clock =>
      exact circuitRule_markFailed hids (hscheduled _ rfl).openUntil h
    | markDelivered d now status =>
      obtain ⟨-, rfl⟩ := serial_markDelivered h
      refine iff_of_true (fun t ht hne t' ht' hid => ?_) trivial
      obtain ⟨t₀, ht₀, rfl⟩ := mem_update.mp ht'
      split at hid
      next hset => exact absurd (hid.symm.trans (of_decide_eq_true hset)) hne
      next hnot => rw [if_neg hnot, hids.eq_of_key ht₀ ht hid]
    | replay deliveryId now =>
      obtain ⟨-, rfl⟩ := serial_replay h
      exact iff_of_true (circuits_same hids fun t ht => ⟨t, ht, rfl, rfl⟩) trivial
    | setStatus targetId status clock =>
      obtain rfl := serial_setStatus h
      refine iff_of_true (circuits_same hids fun t' ht' => ?_) trivial
      obtain ⟨t, ht, rfl⟩ := mem_update.mp ht'
      refine ⟨t, ht, ?_⟩
      split <;> exact ⟨rfl, rfl⟩
  | direct x =>
    obtain ⟨locked, h⟩ := h
    rcases Direct.exec_cases h with ⟨now, lease, limit, token, rfl, rfl⟩ |
      ⟨events, deliveries, rfl, -, -, -, -, rfl⟩ | ⟨t, rfl, hfresh, -, -, -, -, rfl⟩ | ⟨cutoff,
       eventCutoff, rfl, rfl⟩
    · exact iff_of_true (circuits_same hids fun t ht => ⟨t, ht, rfl, rfl⟩) trivial
    · exact iff_of_true (circuits_same hids fun t ht => ⟨t, ht, rfl, rfl⟩) trivial
    · refine iff_of_true (fun u hu t' ht' hid => ?_) trivial
      rcases List.mem_append.mp ht' with ht' | ht'
      · rw [hids.eq_of_key ht' hu hid]
      · obtain rfl := List.mem_singleton.mp ht'
        exact absurd hid.symm (hfresh u hu).1
    · exact iff_of_true (circuits_same hids fun t ht => ⟨t, ht, rfl, rfl⟩) trivial

/-- Along every run of what workers and admins start, the circuit rule holds at every entry
if and only if every failure keeps the circuit. -/
theorem circuit_rule_iff {ls : List (Transactions.Label Operation Direct)}
    (hscheduled : ∀ n op, Transactions.Label.start n op ∈ ls → Scheduled op) :
    (∀ xs l ys u v e, ls = xs ++ l :: ys → Runs.Run Step start xs u → Step u l v →
      v.log = u.log ++ [e] → CircuitRule u.store e v.store) ↔
    ∀ xs l ys u v e, ls = xs ++ l :: ys → Runs.Run Step start xs u → Step u l v →
      v.log = u.log ++ [e] → CircuitKept u.store e := by
  have hstep : ∀ xs l ys u v e, ls = xs ++ l :: ys → Runs.Run Step start xs u → Step u l v →
    v.log = u.log ++ [e] →
      (CircuitRule u.store e v.store ↔ CircuitKept u.store e) := by
    intro xs l ys u v e hls hrun hl hlog
    have hids : Keyed WebhookTarget.id u.store.targets :=
      serial_invariant (P := fun _ s => Keyed WebhookTarget.id s.targets) (by simp)
        (fun _ _ _ _ hs he => serial_targetIds hs he) hrun
    refine circuitRule_iff hids ?_ (serial_of_log hrun hl hlog)
    rintro op rfl
    obtain ⟨m, hm⟩ := (started_run (hrun.snoc hl)).2 op (by rw [hlog]; simp)
    refine hscheduled m op ?_
    rw [hls, ← List.singleton_append, ← List.append_assoc]
    exact List.mem_append_left _ hm
  constructor
  · intro h xs l ys u v e hls hrun hl hlog
    exact (hstep xs l ys u v e hls hrun hl hlog).mp (h xs l ys u v e hls hrun hl hlog)
  · intro h xs l ys u v e hls hrun hl hlog
    exact (hstep xs l ys u v e hls hrun hl hlog).mpr (h xs l ys u v e hls hrun hl hlog)

section sample

instance (s : EventTables) (e : Entry Operation Direct) : Decidable (CircuitKept s e) := by
  unfold CircuitKept
  split <;> infer_instance

/-- A worker tries a delivery and finds no network. -/
def sampleFailure (d : Delivery) (now : Timestamp) : Operation :=
  deliver id d now 40 now .networkError

/-- A delivery as it is claimed after n failures. -/
def spacedAttempt (n : Nat) : Delivery := ⟨3, 2, 1, Fin.ofNat _ (10 + n), n + 1, n⟩

/-- A delivery is claimed and tried, and fails, five times, a thousand seconds apart. -/
def spacedFailures : List (Transactions.Label Operation Direct) :=
  [.direct (.createTarget sampleTarget),
    .direct (.publish [⟨2, "tenancit.tenant.created", 1, "tenant", "t", "r", .obj [], 0⟩]
      [newDelivery 3 2 1 0])] ++
  (List.range 5).flatMap fun (n : Nat) =>
    let now := Timestamp.seconds (1000 * n)
    [.direct (.claim now (Timestamp.seconds 30) 20 (Fin.ofNat _ (10 + n))),
     .start 0 (sampleFailure (spacedAttempt n) now),
      .statement 0, .statement 0, .commit 0]

theorem spacedFailures_scheduled :
    ∀ n op, Transactions.Label.start n op ∈ spacedFailures → Scheduled op := by
  intro n op h
  rcases List.mem_append.mp h with h | h
  · simp at h
  · obtain ⟨k, -, hk⟩ := List.mem_flatMap.mp h
    obtain ⟨-, rfl⟩ : n = 0 ∧ op = sampleFailure (spacedAttempt k)
        (Timestamp.seconds (1000 * k)) := by
      simpa using hk
    exact .deliver id _ _ 40 _ .networkError

/-- What a step commits keeps the circuit. -/
def KeepsCircuit (w : World) (l : Transactions.Label Operation Direct) : Prop :=
  ∀ v ∈ deliverySystem.step w l, ∀ e ∈ v.log.drop w.log.length, CircuitKept w.store e

instance (w : World) (l : Transactions.Label Operation Direct) : Decidable (KeepsCircuit w l) :=
  inferInstanceAs (Decidable (∀ v ∈ deliverySystem.step w l, ∀ e ∈ v.log.drop w.log.length,
    CircuitKept w.store e))

set_option synthInstance.maxSize 512 in
/-- Each failure of the sample keeps the circuit, so that the rule holds at every entry, and the
fifth opens it. -/
theorem circuit_rule_sample :
    (∃ w, Runs.Run Step start spacedFailures w ∧
      w.store.targets.map (fun t => (t.consecutiveFailures, t.circuitOpenUntil)) =
        [(5, some (Timestamp.seconds 4060))]) ∧
    ∀ xs l ys u v e, spacedFailures = xs ++ l :: ys → Runs.Run Step start xs u → Step u l v →
      v.log = u.log ++ [e] → CircuitRule u.store e v.store := by
  have hexec : (Runs.exec (fun w l => if KeepsCircuit w l then deliverySystem.step w l else none)
    start spacedFailures).map
      (fun w => w.store.targets.map fun t => (t.consecutiveFailures, t.circuitOpenUntil)) =
      some [(5, some (Timestamp.seconds 4060))] := by decide +kernel
  obtain ⟨w, hw, htargets⟩ := Option.map_eq_some_iff.mp hexec
  have hrun := Runs.run_guarded_of_exec hw
  refine ⟨⟨w, hrun.of_guarded, htargets⟩, (circuit_rule_iff spacedFailures_scheduled).mpr ?_⟩
  intro xs l ys u v e hls hxs hl hlog
  have hkeeps : KeepsCircuit u l := Runs.Run.guard Runs.steps_functional (hls ▸ hrun) hxs
  refine hkeeps v hl e ?_
  rw [hlog, List.drop_left]
  exact .head _

/-- The five deliveries of one claim, each with the counter read then. -/
def sampleBatch : List Delivery :=
  (List.range 5).map fun i => ⟨Fin.ofNat _ (30 + i), Fin.ofNat _ (20 + i), 1, 10, 1, 0⟩

def samplePublication : Transactions.Label Operation Direct :=
  .direct (.publish (sampleBatch.map fun d =>
    ⟨d.eventId, "tenancit.tenant.created", 1, "tenant", "t", "r", .obj [], 0⟩)
    (sampleBatch.map fun d => newDelivery d.id d.eventId d.targetId 0))

def failBatch (ds : List Delivery) : List (Transactions.Label Operation Direct) :=
  ds.flatMap fun d => [.start 0 (sampleFailure d 1), .statement 0, .statement 0, .commit 0]

/-- One claim takes five deliveries of a target; all fail. -/
def fiveFailures : List (Transactions.Label Operation Direct) :=
  [.direct (.createTarget sampleTarget), samplePublication, .direct (.claim 0 30 20 10)] ++
  failBatch sampleBatch

/-- The failure that was committed last: its target and its time. -/
def lastFailure (log : List (Entry Operation Direct)) : Option (UUID × Timestamp) :=
  match log.getLast? with
  | some (.tx (.markFailed d now _ _ _ _ _ _ _)) => some (d.targetId, now)
  | _ => none

set_option synthInstance.maxSize 512 in
/-- The fifth failure leaves the counter at five and the circuit closed: it was decided from
the counter at the claim, which was zero. -/
theorem five_failures_stay_closed :
    ∃ xs l u v e, fiveFailures = xs ++ [l] ∧ Runs.Run Step start xs u ∧ Step u l v ∧
    v.log = u.log ++ [e] ∧ ¬CircuitRule u.store e v.store := by
  have hexec : (Runs.exec deliverySystem.step start fiveFailures.dropLast).bind (fun u =>
      (deliverySystem.step u (.commit 0)).map fun v =>
        ((u.log.length, v.log.length), lastFailure v.log,
        v.store.targets.map fun t => (t.id, t.consecutiveFailures, t.circuitOpenUntil))) =
      some ((7, 8), some (1, 1), [(1, 5, none)]) := by decide +kernel
  obtain ⟨u, hu, hstep⟩ := Option.bind_eq_some_iff.mp hexec
  obtain ⟨v, hv, hafter⟩ := Option.map_eq_some_iff.mp hstep
  simp only [Prod.mk.injEq] at hafter
  obtain ⟨⟨hlen, hlen'⟩, hlast, htargets⟩ := hafter
  have hrun := Runs.exec_eq_some_iff.mp hu
  refine ⟨fiveFailures.dropLast, .commit 0, u, v, ?_⟩
  rcases (step_spec (inv_run hrun inv_initial) hv).2 with ⟨-, hsame⟩ | ⟨e, hlog, -⟩
  · rw [hsame, hlen] at hlen'
    cases hlen'
  refine ⟨e, rfl, hrun, hv, hlog, fun hrule => ?_⟩
  rw [lastFailure, hlog, List.getLast?_concat] at hlast
  split at hlast
  next d now next status code dead openUntil letterId clock heq =>
    cases heq
    simp only [Option.some.injEq, Prod.mk.injEq] at hlast
    obtain ⟨t, ht, hshown⟩ := List.mem_map.mp (htargets ▸ List.mem_singleton_self _)
    simp only [Prod.mk.injEq] at hshown
    obtain ⟨u', hu', -⟩ := hrule.1 t ht (hshown.1.trans hlast.1.symm) hshown.2.1.ge
    rw [hshown.2.2] at hu'
    cases hu'
  · cases hlast

end sample

end Tenancit.Webhook
