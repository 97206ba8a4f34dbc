import Tenancit.Webhook.Deliveries

/-!
The transactions on deliveries under row locks, as an instance of strict two-phase locking:
a statement changes the row it locks and depends on no other, and a direct step leaves the
locked rows alone. So every interleaving is a serial run of what it committed.
-/
namespace Tenancit.Webhook

open Store Queries Table

variable {s s' u u' : EventTables} {k : RowKey} {id : UUID}

section rows

theorem delivery_row_eq : row s (.delivery id) = row u (.delivery id) ↔
    rowsAt WebhookDelivery.id id s.deliveries = rowsAt WebhookDelivery.id id u.deliveries := by
  simp [row]

theorem target_row_eq : row s (.target id) = row u (.target id) ↔
    rowsAt WebhookTarget.id id s.targets = rowsAt WebhookTarget.id id u.targets := by
  simp [row]

theorem deadLetter_row_eq : row s (.deadLetter id) = row u (.deadLetter id) ↔
    rowsAt WebhookDeadLetter.deliveryId id s.deadLetters =
      rowsAt WebhookDeadLetter.deliveryId id u.deadLetters := by
  simp [row]

/-- The rows of a delivery updated in place. -/
def withDelivery (p : WebhookDelivery → Bool) (f : WebhookDelivery → WebhookDelivery)
    (s : EventTables) : EventTables :=
  { s with deliveries := update p f s.deliveries }

def withTarget (p : WebhookTarget → Bool) (f : WebhookTarget → WebhookTarget) (s : EventTables) :
    EventTables :=
  { s with targets := update p f s.targets }

def withLetter (p : WebhookDeadLetter → Bool) (f : WebhookDeadLetter → WebhookDeadLetter)
    (s : EventTables) : EventTables :=
  { s with deadLetters := update p f s.deadLetters }

theorem row_withDelivery {p : WebhookDelivery → Bool} {f : WebhookDelivery → WebhookDelivery}
    (hp : ∀ r, p r = true → r.id = id) (hf : ∀ r, (f r).id = r.id) (hk : k ≠ .delivery id) :
    row (withDelivery p f s) k = row s k := by
  cases k with
  | delivery id' => exact delivery_row_eq.mpr (rowsAt_update_of_ne hp hf fun h => hk (congrArg _ h))
  | target _ => rfl
  | deadLetter _ => rfl

theorem row_withTarget {p : WebhookTarget → Bool} {f : WebhookTarget → WebhookTarget}
    (hp : ∀ r, p r = true → r.id = id) (hf : ∀ r, (f r).id = r.id) (hk : k ≠ .target id) :
    row (withTarget p f s) k = row s k := by
  cases k with
  | target id' => exact target_row_eq.mpr (rowsAt_update_of_ne hp hf fun h => hk (congrArg _ h))
  | delivery _ => rfl
  | deadLetter _ => rfl

theorem row_withLetter {p : WebhookDeadLetter → Bool} {f : WebhookDeadLetter → WebhookDeadLetter}
    (hp : ∀ r, p r = true → r.deliveryId = id) (hf : ∀ r, (f r).deliveryId = r.deliveryId)
    (hk : k ≠ .deadLetter id) : row (withLetter p f s) k = row s k := by
  cases k with
  | deadLetter id' =>
    exact deadLetter_row_eq.mpr (rowsAt_update_of_ne hp hf fun h => hk (congrArg _ h))
  | delivery _ => rfl
  | target _ => rfl

end rows

namespace Statement

/-- What a statement does when it goes through. -/
theorem exec_cases {x : Statement} (h : x.exec s = some s') :
    (∃ d now status, x = .deliver d now status ∧ s.deliveries.countP (fun r => Leased d r) = 1 ∧
      s' = withDelivery (fun r => Leased d r) (setDelivered now status) s) ∨
    (∃ targetId now, x = .closeCircuit targetId now ∧
      s' = withTarget (fun t => t.id = targetId) (setCircuitClosed now) s) ∨
    (∃ d now next status code dead, x = .fail d now next status code dead ∧
      s.deliveries.countP (fun r => Leased d r) = 1 ∧
      s' = withDelivery (fun r => Leased d r) (setFailed now next status code dead) s) ∨
    (∃ targetId openUntil now, x = .countFailure targetId openUntil now ∧
      s' = withTarget (fun t => t.id = targetId) (setFailureCounted openUntil now) s) ∨
    (∃ deliveryId code id clock, x = .insertDeadLetter deliveryId code id clock ∧
      (rowsAt WebhookDeadLetter.deliveryId deliveryId s.deadLetters ≠ [] ∧ s' = s ∨
        rowsAt WebhookDeadLetter.deliveryId deliveryId s.deadLetters = [] ∧
          s' = { s with deadLetters := s.deadLetters ++ [⟨id, deliveryId, code, clock, none⟩] })) ∨
    (∃ deliveryId now, x = .replay deliveryId now ∧
      s.deliveries.countP (fun r => r.id = deliveryId && r.status = .deadLetter) = 1 ∧
      s' = withDelivery (fun r => r.id = deliveryId && r.status = .deadLetter)
      (setReplayed now) s) ∨
    (∃ deliveryId now, x = .markReplayed deliveryId now ∧
      s' = withLetter (fun l => l.deliveryId = deliveryId) (setLetterReplayed now) s) ∨
    ∃ targetId status clock, x = .setTargetStatus targetId status clock ∧
      s.targets.countP (fun t => t.id = targetId) = 1 ∧
      s' = withTarget (fun t => t.id = targetId) (setStatus status clock) s := by
  cases x with
  | deliver d now status =>
    simp only [exec, Option.ite_none_right_eq_some, Option.map_eq_some_iff] at h
    obtain ⟨-, ds, hds, rfl⟩ := h
    obtain ⟨hone, rfl⟩ := updateOne_eq_some.mp hds
    exact .inl ⟨d, now, status, rfl, hone, rfl⟩
  | closeCircuit targetId now =>
    cases h
    exact .inr (.inl ⟨targetId, now, rfl, rfl⟩)
  | fail d now next status code dead =>
    simp only [exec, Option.ite_none_right_eq_some, Option.map_eq_some_iff] at h
    obtain ⟨-, ds, hds, rfl⟩ := h
    obtain ⟨hone, rfl⟩ := updateOne_eq_some.mp hds
    exact .inr (.inr (.inl ⟨d, now, next, status, code, dead, rfl, hone, rfl⟩))
  | countFailure targetId openUntil now =>
    simp only [exec, Option.ite_none_right_eq_some, Option.some.injEq] at h
    obtain ⟨-, rfl⟩ := h
    exact .inr (.inr (.inr (.inl ⟨targetId, openUntil, now, rfl, rfl⟩)))
  | insertDeadLetter deliveryId code id clock =>
    refine .inr (.inr (.inr (.inr (.inl ⟨deliveryId, code, id, clock, rfl, ?_⟩))))
    simp only [exec] at h
    split at h
    · cases h
    split at h
    next hstands =>
      cases h
      exact .inl ⟨hstands, rfl⟩
    next hnone =>
      cases h
      exact .inr ⟨not_not.mp hnone, rfl⟩
  | replay deliveryId now =>
    simp only [exec, Option.map_eq_some_iff] at h
    obtain ⟨ds, hds, rfl⟩ := h
    obtain ⟨hone, rfl⟩ := updateOne_eq_some.mp hds
    exact .inr (.inr (.inr (.inr (.inr (.inl ⟨deliveryId, now, rfl, hone, rfl⟩)))))
  | markReplayed deliveryId now =>
    cases h
    exact .inr (.inr (.inr (.inr (.inr (.inr (.inl ⟨deliveryId, now, rfl, rfl⟩))))))
  | setTargetStatus targetId status clock =>
    simp only [exec, Option.map_eq_some_iff] at h
    obtain ⟨ts, hts, rfl⟩ := h
    obtain ⟨hone, rfl⟩ := updateOne_eq_some.mp hts
    exact .inr (.inr (.inr (.inr (.inr (.inr (.inr ⟨targetId, status, clock, rfl, hone, rfl⟩))))))

theorem leased_id {d : Delivery} {r : WebhookDelivery} (h : decide (Leased d r) = true) :
    r.id = d.id :=
  (of_decide_eq_true h).1

theorem replayable_id {r : WebhookDelivery}
    (h : (decide (r.id = id) && decide (r.status = .deadLetter)) = true) : r.id = id :=
  of_decide_eq_true (Bool.and_eq_true_iff.mp h).1

theorem exec_frame {x : Statement} (h : x.exec s = some s') (hk : k ∉ x.rows) :
    row s' k = row s k := by
  rcases exec_cases h with ⟨d, now, status, rfl, -, rfl⟩ | ⟨targetId, now, rfl, rfl⟩ |
    ⟨d, now, next, status, code, dead, rfl, -, rfl⟩ | ⟨targetId, openUntil, now, rfl, rfl⟩ |
    ⟨deliveryId, code, id, clock, rfl, hletter⟩ | ⟨deliveryId, now, rfl, -,
     rfl⟩ | ⟨deliveryId, now, rfl, rfl⟩ |
    ⟨targetId, status, clock, rfl, -, rfl⟩
  all_goals have hne := List.mem_singleton.not.mp hk
  · exact row_withDelivery (fun r => leased_id) (fun _ => rfl) hne
  · exact row_withTarget (fun r => of_decide_eq_true) (fun _ => rfl) hne
  · exact row_withDelivery (fun r => leased_id) (fun _ => rfl) hne
  · exact row_withTarget (fun r => of_decide_eq_true) (fun _ => rfl) hne
  · rcases hletter with ⟨-, rfl⟩ | ⟨-, rfl⟩
    · rfl
    cases k with
    | deadLetter id' =>
      have hother : deliveryId ≠ id' := fun h => hne (h ▸ rfl)
      rw [deadLetter_row_eq, rowsAt_append]
      simp [rowsAt, hother]
    | delivery _ => rfl
    | target _ => rfl
  · exact row_withDelivery (fun r => replayable_id) (fun _ => rfl) hne
  · exact row_withLetter (fun r => of_decide_eq_true) (fun _ => rfl) hne
  · exact row_withTarget (fun r => of_decide_eq_true) (fun _ => rfl) hne

theorem exec_local {x : Statement} (hsame : ∀ k ∈ x.rows, row s k = row u k)
    (h : x.exec s = some s') : ∃ u', x.exec u = some u' ∧ ∀ k ∈ x.rows, row s' k = row u' k := by
  cases x with
  | deliver d now status =>
    have hrows := delivery_row_eq.mp (hsame _ (.head _))
    simp only [exec, Option.ite_none_right_eq_some, Option.map_eq_some_iff] at h
    obtain ⟨hok, ds, hds, rfl⟩ := h
    have hu := updateOne_congr hds (fun r => leased_id) hrows
    obtain ⟨-, rfl⟩ := updateOne_eq_some.mp hds
    refine ⟨_, by rw [exec, if_pos hok, hu, Option.map_some], List.forall_mem_singleton.mpr ?_⟩
    exact delivery_row_eq.mpr (rowsAt_update_congr (fun _ => rfl) hrows)
  | closeCircuit targetId now =>
    have hrows := target_row_eq.mp (hsame _ (.head _))
    cases h
    refine ⟨_, rfl, List.forall_mem_singleton.mpr ?_⟩
    exact target_row_eq.mpr (rowsAt_update_congr (fun _ => rfl) hrows)
  | fail d now next status code dead =>
    have hrows := delivery_row_eq.mp (hsame _ (.head _))
    simp only [exec, Option.ite_none_right_eq_some, Option.map_eq_some_iff] at h
    obtain ⟨hok, ds, hds, rfl⟩ := h
    have hu := updateOne_congr hds (fun r => leased_id) hrows
    obtain ⟨-, rfl⟩ := updateOne_eq_some.mp hds
    refine ⟨_, by rw [exec, if_pos hok, hu, Option.map_some], List.forall_mem_singleton.mpr ?_⟩
    exact delivery_row_eq.mpr (rowsAt_update_congr (fun _ => rfl) hrows)
  | countFailure targetId openUntil now =>
    have hrows := target_row_eq.mp (hsame _ (.head _))
    simp only [exec, Option.ite_none_right_eq_some, Option.some.injEq] at h
    obtain ⟨hok, rfl⟩ := h
    refine ⟨_, by rw [exec, ← hrows, if_pos hok], List.forall_mem_singleton.mpr ?_⟩
    exact target_row_eq.mpr (rowsAt_update_congr (fun _ => rfl) hrows)
  | insertDeadLetter deliveryId code id clock =>
    have hrows := deadLetter_row_eq.mp (hsame _ (.head _))
    simp only [exec] at h ⊢
    rw [hrows] at h
    split at h
    · cases h
    next hcode =>
      rw [if_neg hcode]
      split at h
      next hstands =>
        cases h
        exact ⟨u, if_pos hstands, List.forall_mem_singleton.mpr (deadLetter_row_eq.mpr hrows)⟩
      next hnone =>
        cases h
        refine ⟨_, if_neg hnone, List.forall_mem_singleton.mpr ?_⟩
        exact deadLetter_row_eq.mpr (by rw [rowsAt_append, rowsAt_append, hrows])
  | replay deliveryId now =>
    have hrows := delivery_row_eq.mp (hsame _ (.head _))
    simp only [exec, Option.map_eq_some_iff] at h
    obtain ⟨ds, hds, rfl⟩ := h
    have hu := updateOne_congr hds (fun r => replayable_id) hrows
    obtain ⟨-, rfl⟩ := updateOne_eq_some.mp hds
    refine ⟨_, by rw [exec, hu, Option.map_some], List.forall_mem_singleton.mpr ?_⟩
    exact delivery_row_eq.mpr (rowsAt_update_congr (fun _ => rfl) hrows)
  | markReplayed deliveryId now =>
    have hrows := deadLetter_row_eq.mp (hsame _ (.head _))
    cases h
    refine ⟨_, rfl, List.forall_mem_singleton.mpr ?_⟩
    exact deadLetter_row_eq.mpr (rowsAt_update_congr (fun _ => rfl) hrows)
  | setTargetStatus targetId status clock =>
    have hrows := target_row_eq.mp (hsame _ (.head _))
    simp only [exec, Option.map_eq_some_iff] at h
    obtain ⟨ts, hts, rfl⟩ := h
    have hu := updateOne_congr hts (fun r => of_decide_eq_true) hrows
    obtain ⟨-, rfl⟩ := updateOne_eq_some.mp hts
    refine ⟨_, by rw [exec, hu, Option.map_some], List.forall_mem_singleton.mpr ?_⟩
    exact target_row_eq.mpr (rowsAt_update_congr (fun _ => rfl) hrows)

end Statement

theorem mem_candidates {now : Timestamp} {limit : Nat} {locked : RowKey → Bool}
    {d : WebhookDelivery} (h : d ∈ candidates now limit locked s) :
    d ∈ s.deliveries ∧ locked (.delivery d.id) = false ∧ ∃ t ∈ s.targets,
    t.id = d.targetId ∧ Due now t d := by
  have hd := List.mem_of_mem_take h
  rw [List.mem_insertionSort, List.mem_filter, Bool.and_eq_true, Bool.not_eq_true',
    List.any_eq_true] at hd
  obtain ⟨hmem, hlocked, t, ht, hdue⟩ := hd
  rw [Bool.and_eq_true, decide_eq_true_eq, decide_eq_true_eq] at hdue
  exact ⟨hmem, hlocked, t, ht, hdue⟩

/-- What a direct step does when it goes through. -/
theorem Direct.exec_cases {x : Direct} {locked : RowKey → Bool} (h : x.exec locked s = some s') :
    (∃ now lease limit token, x = .claim now lease limit token ∧
      s' = withDelivery (fun d => Claimed now limit locked s d) (setClaimed now lease token) s) ∨
    (∃ events deliveries, x = .publish events deliveries ∧
      ((s.outbox ++ events).map (·.id)).Nodup ∧ ((s.deliveries ++ deliveries).map (·.id)).Nodup ∧
      ((s.deliveries ++ deliveries).map fun d => (d.eventId, d.targetId)).Nodup ∧
      (∀ d ∈ deliveries, locked (.delivery d.id) = false ∧
        d = newDelivery d.id d.eventId d.targetId d.createdAt) ∧
      s' = { s with outbox := s.outbox ++ events, deliveries := s.deliveries ++ deliveries }) ∨
    (∃ t, x = .createTarget t ∧ (∀ u ∈ s.targets, u.id ≠ t.id ∧ u.name ≠ t.name) ∧
      locked (.target t.id) = false ∧
      t.status = .active ∧ t.consecutiveFailures = 0 ∧ t.circuitOpenUntil = none ∧
      s' = { s with targets := s.targets ++ [t] }) ∨
    ∃ deliveryCutoff eventCutoff, x = .retain deliveryCutoff eventCutoff ∧
      s' = runRetentionOnce deliveryCutoff eventCutoff locked s := by
  cases x with
  | claim now lease limit token =>
    simp only [exec, Option.ite_none_right_eq_some, Option.some.injEq] at h
    obtain ⟨-, rfl⟩ := h
    exact .inl ⟨now, lease, limit, token, rfl, rfl⟩
  | publish events deliveries =>
    simp only [exec, Option.ite_none_right_eq_some, Option.some.injEq] at h
    obtain ⟨⟨hevents, hids, hpairs, hnew⟩, rfl⟩ := h
    exact .inr (.inl ⟨events, deliveries, rfl, hevents, hids, hpairs, hnew, rfl⟩)
  | createTarget t =>
    simp only [exec, Option.ite_none_right_eq_some, Option.some.injEq] at h
    obtain ⟨⟨hfresh, hlocked, hactive, hzero, hclosed⟩, rfl⟩ := h
    exact .inr (.inr (.inl ⟨t, rfl, hfresh, hlocked, hactive, hzero, hclosed, rfl⟩))
  | retain deliveryCutoff eventCutoff =>
    cases h
    exact .inr (.inr (.inr ⟨deliveryCutoff, eventCutoff, rfl, rfl⟩))

theorem Direct.exec_frame {x : Direct} {locked : RowKey → Bool} (h : x.exec locked s = some s')
    (hk : locked k = true) : row s' k = row s k := by
  rcases exec_cases h with ⟨now, lease, limit, token, rfl, rfl⟩ | ⟨events, deliveries,
    rfl, -, -, -, hnew, rfl⟩ |
    ⟨t, rfl, -, hlocked, -, -, -, rfl⟩ | ⟨deliveryCutoff, eventCutoff, rfl, rfl⟩
  · cases k with
    | delivery id =>
      refine delivery_row_eq.mpr (rowsAt_update_of_not (fun r _ hr => ?_) fun _ => rfl)
      refine decide_eq_false ?_
      rintro ⟨c, hc, hid⟩
      have hfree := (mem_candidates hc).2.1
      rw [hid, hr, hk] at hfree
      cases hfree
    | target _ => rfl
    | deadLetter _ => rfl
  · cases k with
    | delivery id =>
      refine delivery_row_eq.mpr (rowsAt_append_of_not ?_)
      rintro d hd rfl
      rw [(hnew d hd).1] at hk
      cases hk
    | target _ => rfl
    | deadLetter _ => rfl
  · cases k with
    | target id =>
      refine target_row_eq.mpr (rowsAt_append_of_not ?_)
      rintro u hu rfl
      rw [List.mem_singleton.mp hu, hlocked] at hk
      cases hk
    | delivery _ => rfl
    | deadLetter _ => rfl
  · cases k with
    | delivery id =>
      refine delivery_row_eq.mpr (rowsAt_delete_of_not fun r _ hr => ?_)
      simp [hr, hk]
    | target _ => rfl
    | deadLetter id =>
      refine deadLetter_row_eq.mpr (rowsAt_delete_of_not fun r _ hr => ?_)
      simp [hr, hk]

/-- The tables of the outbox as a system of transactions. -/
def deliverySystem : Transactions.System EventTables RowKey Row Statement Operation Direct where
  row k s := row s k
  exec x s := x.exec s
  rows := Statement.rows
  program := Operation.program
  direct x locked s := x.exec locked s
  exec_frame := Statement.exec_frame
  exec_local := Statement.exec_local
  direct_frame := Direct.exec_frame

section transactions

open Transactions Transactions.System

variable {d : Delivery} {now next clock : Timestamp} {status : Option Int} {code : String}
  {dead : Bool} {openUntil : Option Timestamp} {letterId : UUID}

/-- The dead letter of a failure, unless one stands for the delivery. -/
def withDeadLetter (deliveryId : UUID) (code : String) (id : UUID) (clock : Timestamp)
    (s : EventTables) : EventTables :=
  if rowsAt WebhookDeadLetter.deliveryId deliveryId s.deadLetters ≠ [] then s
  else { s with deadLetters := s.deadLetters ++ [⟨id, deliveryId, code, clock, none⟩] }

theorem serial_markDelivered {status : Int}
    (h : deliverySystem.Serial s (.tx (.markDelivered d now status)) s') :
    s.deliveries.countP (fun r => Leased d r) = 1 ∧
      s' = withTarget (fun t => t.id = d.targetId) (setCircuitClosed now)
        (withDelivery (fun r => Leased d r) (setDelivered now status) s) := by
  obtain ⟨u, hu, h₁⟩ := execAll_cons_eq_some.mp h
  obtain ⟨v, hv, h₂⟩ := execAll_cons_eq_some.mp h₁
  cases h₂
  cases hv
  simp only [deliverySystem, Statement.exec, Option.ite_none_right_eq_some,
    Option.map_eq_some_iff] at hu
  obtain ⟨-, ds, hds, rfl⟩ := hu
  obtain ⟨hone, rfl⟩ := updateOne_eq_some.mp hds
  exact ⟨hone, rfl⟩

theorem serial_markFailed
    (h : deliverySystem.Serial s
      (.tx (.markFailed d now next status code dead openUntil letterId clock)) s') :
    s.deliveries.countP (fun r => Leased d r) = 1 ∧ s' =
      let failed := withTarget (fun t => t.id = d.targetId) (setFailureCounted openUntil now)
        (withDelivery (fun r => Leased d r) (setFailed now next status code dead) s)
      if dead then withDeadLetter d.id code letterId clock failed else failed := by
  obtain ⟨u, hu, h₁⟩ := execAll_cons_eq_some.mp h
  obtain ⟨v, hv, h₂⟩ := execAll_cons_eq_some.mp h₁
  simp only [deliverySystem, Statement.exec, Option.ite_none_right_eq_some,
    Option.map_eq_some_iff] at hu
  obtain ⟨-, ds, hds, rfl⟩ := hu
  obtain ⟨hone, rfl⟩ := updateOne_eq_some.mp hds
  simp only [deliverySystem, Statement.exec, Option.ite_none_right_eq_some, Option.some.injEq] at hv
  obtain ⟨-, rfl⟩ := hv
  refine ⟨hone, ?_⟩
  cases dead with
  | false =>
    cases h₂
    rfl
  | true =>
    obtain ⟨x, hx, h₃⟩ := execAll_cons_eq_some.mp h₂
    cases h₃
    simp only [deliverySystem, Statement.exec] at hx
    split at hx
    · cases hx
    simp only [if_true, withDeadLetter]
    split at hx
    next hstands =>
      cases hx
      exact (if_pos hstands).symm
    next hnone =>
      cases hx
      exact (if_neg hnone).symm

theorem serial_replay {deliveryId : UUID}
    (h : deliverySystem.Serial s (.tx (.replay deliveryId now)) s') :
    s.deliveries.countP (fun r => r.id = deliveryId && r.status = .deadLetter) = 1 ∧
      s' = withLetter (fun l => l.deliveryId = deliveryId) (setLetterReplayed now)
        (withDelivery (fun r => r.id = deliveryId &&
          r.status = .deadLetter) (setReplayed now) s) := by
  obtain ⟨u, hu, h₁⟩ := execAll_cons_eq_some.mp h
  obtain ⟨v, hv, h₂⟩ := execAll_cons_eq_some.mp h₁
  cases h₂
  cases hv
  simp only [deliverySystem, Statement.exec, Option.map_eq_some_iff] at hu
  obtain ⟨ds, hds, rfl⟩ := hu
  obtain ⟨hone, rfl⟩ := updateOne_eq_some.mp hds
  exact ⟨hone, rfl⟩

theorem serial_setStatus {targetId : UUID} {status : TargetStatus}
    (h : deliverySystem.Serial s (.tx (.setStatus targetId status clock)) s') :
    s' = withTarget (fun t => t.id = targetId) (setStatus status clock) s := by
  obtain ⟨u, hu, h₁⟩ := execAll_cons_eq_some.mp h
  cases h₁
  simp only [deliverySystem, Statement.exec, Option.map_eq_some_iff] at hu
  obtain ⟨ts, hts, rfl⟩ := hu
  obtain ⟨-, rfl⟩ := updateOne_eq_some.mp hts
  rfl

end transactions

end Tenancit.Webhook
