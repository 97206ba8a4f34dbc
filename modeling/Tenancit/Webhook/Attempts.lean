import Tenancit.Webhook.Leases
import Tenancit.Webhook.Worker

/-!
The retry budget of `webhook/worker.go`: which attempts of a delivery have failed, beside
the attempts that are counted when a delivery is claimed. Workers claim and process in any
order, may be slow, and may stop with deliveries in their hands.
-/
namespace Tenancit.Webhook

open Store Queries Table Transactions Transactions.System

/-- The delivery whose processing has failed. -/
def failing : Operation → Option Delivery
  | .markFailed d _ _ _ _ _ _ _ _ => some d
  | _ => none

/-- The tables with the workers: what they have claimed and not yet processed, and the
attempts that have failed of each delivery since it was created or last replayed. -/
structure Workers where
  world : World
  handed : List Delivery := []
  failed : List Delivery := []

namespace Workers

/-- A delivery begins anew: it is created, or its replay is committed. -/
def begins (w : World) : Transactions.Label Operation Direct → UUID → Bool
  | .direct (.publish _ deliveries), id => deliveries.any fun r => r.id = id
  | .commit n, id => match w.sessions n with
    | some ⟨.replay deliveryId _, _, _⟩ => deliveryId = id
    | _ => false
  | _, _ => false

/-- A claim hands deliveries out; a delivery that is processed is no longer in hand. -/
def handedAfter (x : Workers) : Transactions.Label Operation Direct → List Delivery
  | .direct (.claim now _ limit token) =>
    x.handed ++ claimed now limit token (locked x.world) x.world.store
  | .start _ op => match completion (.tx op) with
    | some d => x.handed.erase d
    | none => x.handed
  | _ => x.handed

def failedAfter (x : Workers) : Transactions.Label Operation Direct → List Delivery
  | .start _ op => x.failed ++ (failing op).toList
  | l => x.failed.filter fun d => !begins x.world l d.id

/-- A worker completes only what it has in hand. -/
def InHand (x : Workers) : Transactions.Label Operation Direct → Prop
  | .start _ op => ∀ d ∈ completion (.tx op), d ∈ x.handed
  | _ => True

instance (x : Workers) : (l : Transactions.Label Operation Direct) → Decidable (InHand x l)
  | .start _ op => inferInstanceAs (Decidable (∀ d ∈ completion (.tx op), d ∈ x.handed))
  | .statement _ | .commit _ | .abort _ | .direct _ => inferInstanceAs (Decidable True)

def step (x : Workers) (l : Transactions.Label Operation Direct) : Option Workers :=
  if InHand x l then (deliverySystem.step x.world l).map fun w =>
  ⟨w, x.handedAfter l, x.failedAfter l⟩ else none

/-- The failed attempts of a delivery since it was created or last replayed. -/
def failures (x : Workers) (id : UUID) : Nat := x.failed.countP fun d => d.id = id

/-- No delivery is taken over whose attempt has not failed: the claim finds an expired lease
only where its attempt has. -/
def TakesOverFailed (x : Workers) : Transactions.Label Operation Direct → Prop
  | .direct (.claim now _ limit _) =>
    ∀ r ∈ candidates now limit (locked x.world) x.world.store, r.status = .delivering →
    ∃ d ∈ x.failed, r.id = d.id ∧ r.leaseToken = some d.leaseToken
  | _ => True

instance (x : Workers) : (l : Transactions.Label Operation Direct) → Decidable (TakesOverFailed x l)
  | .direct (.claim now _ limit _) =>
    inferInstanceAs (Decidable (∀ r ∈ candidates now limit _ _, r.status = .delivering →
      ∃ d ∈ x.failed, r.id = d.id ∧ r.leaseToken = some d.leaseToken))
  | .direct (.publish _ _) | .direct (.createTarget _) | .direct (.retain _ _) =>
    inferInstanceAs (Decidable True)
  | .start _ _ | .statement _ | .commit _ | .abort _ => inferInstanceAs (Decidable True)

end Workers

/-- The entry moves the delivery to `dead_letter` although the failure may be retried. -/
def RetryableDeath (id : UUID) : Entry Operation Direct → Prop
  | .tx (.markFailed d _ _ status code dead _ _ _) =>
    d.id = id ∧ dead = true ∧ permanentFailure status code = false
  | _ => False

/-- What the budget says of a state and of the steps from it. -/
structure RetryBudget (x : Workers) : Prop where
  /-- Every attempt that is used up has failed, but for one that is under way or delivered. -/
  used : ∀ r ∈ x.world.store.deliveries,
    r.attemptCount ≤ x.failures r.id + if r.status = .delivering ∨
    r.status = .delivered then 1 else 0
  deaths : ∀ l x' e id, Runs.Steps Workers.step x l x' → x'.world.log = x.world.log ++
    [e] → RetryableDeath id e →
    8 ≤ x.failures id

section accounts

variable {known known' failing_ failing_' : Delivery → Prop} {failed : List Delivery}
  {r r' : WebhookDelivery} {d : Delivery}

/-- The lease of the row is that of the delivery. -/
def Holds (d : Delivery) (r : WebhookDelivery) : Prop :=
  r.id = d.id ∧ r.leaseToken = some d.leaseToken

instance (d : Delivery) (r : WebhookDelivery) : Decidable (Holds d r) :=
  inferInstanceAs (Decidable (_ ∧ _))

/-- The last attempt of the delivery has not failed. -/
def Unfailed (failed : List Delivery) (r : WebhookDelivery) : Prop :=
  r.status = .delivered ∨ r.status = .delivering ∧ ∀ d ∈ failed, ¬Holds d r

instance (failed : List Delivery) (r : WebhookDelivery) : Decidable (Unfailed failed r) :=
  inferInstanceAs (Decidable (_ ∨ _ ∧ _))

/-- The counter of a row against what the workers know of it: `known` are the deliveries
that were handed out under its lease, `failing_` those whose failure is being written. -/
structure Accounted (known failing_ : Delivery → Prop) (failed : List Delivery)
    (r : WebhookDelivery) : Prop where
  attempts : ∀ d, known d → Holds d r → r.attemptCount = d.attemptCount
  failing : ∀ d, failing_ d → Holds d r → d ∈ failed
  count : r.attemptCount ≤ failed.countP (fun d => d.id = r.id) + if Unfailed failed r then 1 else 0

theorem Accounted.mono (h : Accounted known failing_ failed r) (hknown : ∀ d, known' d → known d)
    (hfailing : ∀ d, failing_' d → failing_ d) : Accounted known' failing_' failed r :=
  ⟨fun d hd => h.attempts d (hknown d hd), fun d hd => h.failing d (hfailing d hd), h.count⟩

/-- A row without a lease has no attempt under way. -/
theorem Accounted.of_unleased (htoken : r.leaseToken = none)
    (hcount : r.attemptCount ≤ failed.countP (fun d => d.id = r.id) +
      if Unfailed failed r then 1 else 0) :
    Accounted known failing_ failed r := by
  have hnone : ∀ d, ¬Holds d r := fun d hd => by
    rw [Holds, htoken] at hd
    cases hd.2
  exact ⟨fun d _ hd => absurd hd (hnone d), fun d _ hd => absurd hd (hnone d), hcount⟩

/-- Attempts fail. -/
theorem Accounted.fail (h : Accounted known failing_ failed r) {ds : List Delivery}
    (hknown : ∀ d, known' d → known d) (hfailing : ∀ d, failing_' d → failing_ d ∨ d ∈ ds) :
    Accounted known' failing_' (failed ++ ds) r := by
  refine ⟨fun d hd => h.attempts d (hknown d hd), fun d hd hholds => ?_, h.count.trans ?_⟩
  · rcases hfailing d hd with hd | hd
    · exact List.mem_append_left _ (h.failing d hd hholds)
    · exact List.mem_append_right _ hd
  · rw [List.countP_append]
    by_cases hds : ∃ d ∈ ds, d.id = r.id
    · obtain ⟨d, hd, hid⟩ := hds
      have hpos : 0 < ds.countP fun d => d.id = r.id :=
        List.countP_pos_iff.mpr ⟨d, hd, by simp [hid]⟩
      split <;> split <;> omega
    · have hnone : ∀ d ∈ ds, d.id ≠ r.id := fun d hd hid => hds ⟨d, hd, hid⟩
      have hiff : Unfailed (failed ++ ds) r ↔ Unfailed failed r := by
        refine or_congr_right (and_congr_right fun _ => ?_)
        rw [List.forall_mem_append]
        exact and_iff_left fun d hd hholds => hnone d hd hholds.1.symm
      have hzero : ds.countP (fun d => d.id = r.id) = 0 :=
        List.countP_eq_zero.mpr fun d hd => by simp [hnone d hd]
      simp [hiff, hzero]

/-- What is forgotten is not about the row. -/
theorem Accounted.filter (h : Accounted known failing_ failed r) {p : Delivery → Bool}
    (hp : ∀ d ∈ failed, d.id = r.id → p d = true) :
    Accounted known failing_ (failed.filter p) r := by
  refine ⟨h.attempts, fun d hd hholds => ?_, ?_⟩
  · have hmem := h.failing d hd hholds
    exact List.mem_filter.mpr ⟨hmem, hp d hmem hholds.1.symm⟩
  · have hcount : (failed.filter p).countP (fun d => d.id = r.id) = failed.countP
        fun d => d.id = r.id := by
      rw [List.countP_filter]
      refine List.countP_congr fun d hd => ?_
      by_cases hid : d.id = r.id
      · simp [hid, hp d hd hid]
      · simp [hid]
    have hiff : Unfailed (failed.filter p) r ↔ Unfailed failed r := by
      refine or_congr_right (and_congr_right fun _ => ?_)
      constructor
      · intro hnone d hd hholds
        exact hnone d (List.mem_filter.mpr ⟨hd, hp d hd hholds.1.symm⟩) hholds
      · exact fun hnone d hd => hnone d (List.mem_filter.mp hd).1
    rw [hcount]
    simpa only [hiff] using h.count

end accounts

section steps

variable {x x' : Workers} {l : Transactions.Label Operation Direct}

/-- The deliveries that were handed out: in hand, being written, or failed. -/
def Workers.Known (x : Workers) (d : Delivery) : Prop :=
  d ∈ x.handed ∨ d ∈ x.failed ∨ ∃ n t, x.world.sessions n = some t ∧ completion (.tx t.op) = some d

/-- The failures that are being written. -/
def Workers.Failing (x : Workers) (d : Delivery) : Prop :=
  ∃ n t, x.world.sessions n = some t ∧ failing t.op = some d

/-- What holds in every state: the leases of what was handed out were granted, and every row
is accounted for. -/
structure Accounts (x : Workers) : Prop where
  granted : ∀ d, x.Known d → d.leaseToken ∈ x.world.log.filterMap Webhook.granted
  rows : ∀ r ∈ x.world.store.deliveries, Accounted x.Known x.Failing x.failed r

theorem completion_of_failing {op : Operation} {d : Delivery} (h : failing op = some d) :
    completion (.tx op) = some d := by
  cases op with
  | markFailed => exact h
  | markDelivered => cases h
  | replay => cases h
  | setStatus => cases h

theorem Workers.Failing.known {d : Delivery} (h : x.Failing d) : x.Known d := by
  obtain ⟨n, t, hsession, hd⟩ := h
  exact .inr (.inr ⟨n, t, hsession, completion_of_failing hd⟩)

/-- Where nothing is handed out, the rows are accounted for that were so before, and those
that begin anew. -/
theorem Accounts.of_rows (h : Accounts x) {w : World} (hlog : ∃ es, w.log = x.world.log ++ es)
    (hops : ∀ m t', w.sessions m = some t' → ∃ t, x.world.sessions m = some t ∧ t.op = t'.op)
    {p : Delivery → Bool}
    (hrows : ∀ r ∈ w.store.deliveries,
      ((∀ d, d.id = r.id → p d = true) ∧ Accounted x.Known x.Failing x.failed r) ∨
      r.leaseToken = none ∧ r.attemptCount = 0) :
    Accounts ⟨w, x.handed, x.failed.filter p⟩ := by
  have hknown : ∀ d, Workers.Known ⟨w, x.handed, x.failed.filter p⟩ d → x.Known d := by
    rintro d (hd | hd | ⟨n, t', ht', hd⟩)
    · exact .inl hd
    · exact .inr (.inl (List.mem_filter.mp hd).1)
    · obtain ⟨t, ht, hop⟩ := hops n t' ht'
      exact .inr (.inr ⟨n, t, ht, hop ▸ hd⟩)
  have hfailing : ∀ d, Workers.Failing ⟨w, x.handed, x.failed.filter p⟩ d → x.Failing d := by
    rintro d ⟨n, t', ht', hd⟩
    obtain ⟨t, ht, hop⟩ := hops n t' ht'
    exact ⟨n, t, ht, hop ▸ hd⟩
  obtain ⟨es, hes⟩ := hlog
  refine ⟨fun d hd => ?_, fun r hr => ?_⟩
  · rw [hes, List.filterMap_append]
    exact List.mem_append_left _ (h.granted d (hknown d hd))
  · rcases hrows r hr with ⟨hp, hr⟩ | ⟨htoken, hzero⟩
    · exact (hr.filter fun d _ => hp d).mono hknown hfailing
    · refine .of_unleased htoken ?_
      rw [hzero]
      split <;> omega

/-- A transaction on what a worker has in hand. -/
theorem Accounts.start (h : Accounts x) {n : Nat} {op : Operation}
    (hhand : ∀ d ∈ completion (.tx op), d ∈ x.handed) {todo : List Statement} : Accounts
      ⟨{ x.world with sessions := Function.update x.world.sessions n (some ⟨op, [], todo⟩) },
        x.handedAfter (.start n op), x.failedAfter (.start n op)⟩ := by
  generalize hw : ({ x.world with
    sessions := Function.update x.world.sessions n (some ⟨op, [], todo⟩) } : World) = w
  have hsession : ∀ m t, w.sessions m = some t → t.op = op ∨ x.world.sessions m = some t := by
    intro m t ht
    rw [← hw] at ht
    simp only [Function.update_apply] at ht
    split at ht
    · cases ht
      exact .inl rfl
    · exact .inr ht
  have hknown : ∀ d, Workers.Known ⟨w, x.handedAfter (.start n op), x.failedAfter (.start n op)⟩ d →
      x.Known d := by
    rintro d (hd | hd | ⟨m, t, ht, hd⟩)
    · simp only [Workers.handedAfter] at hd
      split at hd
      · exact .inl (List.mem_of_mem_erase hd)
      · exact .inl hd
    · rcases List.mem_append.mp hd with hd | hd
      · exact .inr (.inl hd)
      · exact .inl (hhand d (completion_of_failing (Option.mem_toList.mp hd)))
    · rcases hsession m t ht with rfl | ht
      · exact .inl (hhand d hd)
      · exact .inr (.inr ⟨m, t, ht, hd⟩)
  have hfailing : ∀ d, Workers.Failing ⟨w, x.handedAfter (.start n op),
    x.failedAfter (.start n op)⟩ d →
      x.Failing d ∨ failing op = some d := by
    rintro d ⟨m, t, ht, hd⟩
    rcases hsession m t ht with rfl | ht
    · exact .inr hd
    · exact .inl ⟨m, t, ht, hd⟩
  refine ⟨fun d hd => ?_, fun r hr => ?_⟩
  · rw [← hw]
    exact h.granted d (hknown d hd)
  rw [← hw] at hr
  refine (h.rows r hr).fail hknown fun d hd => ?_
  rw [Option.mem_toList]
  exact hfailing d hd

/-- A row whose lease is given up after an attempt that has not failed, or has failed. -/
theorem Accounted.ended {known failing_ : Delivery → Prop} {failed : List Delivery}
    {r r' : WebhookDelivery} {d : Delivery} (h : Accounted known failing_ failed r)
    (hleased : Leased d r) (hid : r'.id = r.id) (hattempts : r'.attemptCount = r.attemptCount)
    (htoken : r'.leaseToken = none) (hended : r'.status = .delivered ∨ failing_ d) :
    Accounted known failing_ failed r' := by
  refine .of_unleased htoken ?_
  rw [hid, hattempts]
  have hcount := h.count
  rcases hended with hstatus | hd
  · rw [if_pos (show Unfailed failed r' from .inl hstatus)]
    split at hcount <;> omega
  · have hholds : Holds d r := ⟨hleased.1, hleased.2.1⟩
    have hfailed : ¬Unfailed failed r := by
      rintro (hstatus | ⟨-, hnone⟩)
      · rw [hleased.2.2] at hstatus
        cases hstatus
      · exact hnone d (h.failing d hd hholds) hholds
    rw [if_neg hfailed] at hcount
    split <;> omega

/-- A transaction is committed. -/
theorem Accounts.commit (h : Accounts x) (hlease : LeaseInv x.world.log x.world.store) {n : Nat}
    {op : Operation} {done : List Statement} {s : EventTables}
    (hsession : x.world.sessions n = some ⟨op, done, []⟩)
    (hserial : deliverySystem.Serial x.world.store (.tx op) s) :
    Accounts ⟨{ close x.world n with store := s, log := x.world.log ++ [.tx op] },
      x.handedAfter (.commit n), x.failedAfter (.commit n)⟩ := by
  refine Accounts.of_rows (w := { close x.world n with
    store := s, log := x.world.log ++ [.tx op] }) h ⟨[.tx op], rfl⟩
    (fun m t ht => ⟨t, close_sessions ht, rfl⟩) ?_
  cases op with
  | markDelivered d now status =>
    obtain ⟨-, rfl⟩ := serial_markDelivered hserial
    have hbegins : ∀ id, Workers.begins x.world (.commit n) id = false :=
      fun id => by simp [Workers.begins, hsession]
    refine forall_mem_update (fun r hr => .inl ⟨by simp [hbegins], h.rows r hr⟩)
      fun r hr hleased => ?_
    exact .inl ⟨by simp [hbegins],
      (h.rows r hr).ended (of_decide_eq_true hleased) rfl rfl rfl (.inl rfl)⟩
  | markFailed d now next status code dead openUntil letterId clock =>
    have hbegins : ∀ id, Workers.begins x.world (.commit n) id = false :=
      fun id => by simp [Workers.begins, hsession]
    have hrows := (serial_markFailed_tables hserial).2.1
    rw [show ({ close x.world n with store := s, log := _ } : World).store = s from rfl, hrows]
    refine forall_mem_update (fun r hr => .inl ⟨by simp [hbegins], h.rows r hr⟩)
      fun r hr hleased => ?_
    have hd : x.Failing d := ⟨n, _, hsession, rfl⟩
    exact .inl ⟨by simp [hbegins],
      (h.rows r hr).ended (of_decide_eq_true hleased) rfl rfl rfl (.inr hd)⟩
  | replay deliveryId now =>
    have hbegins : ∀ id, Workers.begins x.world (.commit n) id = decide (deliveryId = id) :=
      fun id => by
      simp [Workers.begins, hsession]
    obtain ⟨hone, rfl⟩ := serial_replay hserial
    intro r' hr'
    obtain ⟨r, hr, rfl⟩ := mem_update.mp hr'
    split
    next hp =>
      refine .inr ⟨?_, rfl⟩
      -- a dead row holds no lease
      by_contra htoken
      have hheld := hlease.held r hr (Option.isSome_iff_ne_none.mpr htoken)
      simp [hheld] at hp
    next hp =>
      refine .inl ⟨fun d hd => ?_, h.rows r hr⟩
      -- there is one row with the identifier, and it is replayed
      have hne : deliveryId ≠ r.id := by
        rintro rfl
        obtain ⟨r₀, hr₀, hp₀⟩ := List.countP_pos_iff.mp (Nat.lt_of_lt_of_eq Nat.one_pos hone.symm)
        have hid₀ : r₀.id = r.id := of_decide_eq_true (Bool.and_eq_true_iff.mp hp₀).1
        rw [hlease.ids.eq_of_key hr₀ hr hid₀] at hp₀
        exact hp hp₀
      simp [hbegins, hd, hne]
  | setStatus targetId status clock =>
    have hbegins : ∀ id, Workers.begins x.world (.commit n) id = false :=
      fun id => by simp [Workers.begins, hsession]
    obtain rfl := serial_setStatus hserial
    exact fun r hr => .inl ⟨by simp [hbegins], h.rows r hr⟩

/-- What a claim hands out is a row it has taken, under the new lease. -/
theorem mem_claimed {now : Timestamp} {limit : Nat} {token : UUID} {locked : RowKey → Bool}
    {s : EventTables} {d : Delivery} (h : d ∈ claimed now limit token locked s) :
    d.leaseToken = token ∧
      ∃ r ∈ candidates now limit locked s, r.id = d.id ∧ d.attemptCount = r.attemptCount + 1 := by
  obtain ⟨r, hr, hd⟩ := List.mem_flatMap.mp h
  obtain ⟨t, -, rfl⟩ := List.mem_map.mp hd
  exact ⟨rfl, r, (List.mem_insertionSort _).mp hr, rfl, rfl⟩

/-- A row that is taken over after a failed attempt, or is not under way, has used up only
failed attempts. -/
theorem Accounted.used {known failing_ : Delivery → Prop} {failed : List Delivery}
    {r : WebhookDelivery} (h : Accounted known failing_ failed r) (hunder : r.status ≠ .delivered)
    (hfailed : r.status = .delivering → ∃ d ∈ failed, Holds d r) :
    r.attemptCount ≤ failed.countP fun d => d.id = r.id := by
  have hnot : ¬Unfailed failed r := by
    rintro (hstatus | ⟨hstatus, hnone⟩)
    · exact hunder hstatus
    · obtain ⟨d, hd, hholds⟩ := hfailed hstatus
      exact hnone d hd hholds
  have hcount := h.count
  rw [if_neg hnot] at hcount
  simpa using hcount

/-- A claim that takes over failed attempts only. -/
theorem Accounts.claim (h : Accounts x) (hlease : LeaseInv x.world.log x.world.store)
    {now : Timestamp} {lease : Duration} {limit : Nat} {token : UUID}
    (hnew : token ∉ x.world.log.filterMap Webhook.granted)
    (htakes : x.TakesOverFailed (.direct (.claim now lease limit token))) :
    Accounts ⟨{ x.world with
        store := withDelivery (fun d => Claimed now limit (locked x.world) x.world.store d)
          (setClaimed now lease token) x.world.store
        log := x.world.log ++ [.direct (.claim now lease limit token)] },
      x.handed ++ claimed now limit token (locked x.world) x.world.store, x.failed⟩ := by
  have hgranted : ∀ d, x.Known d → d.leaseToken ≠ token := by
    rintro d hd rfl
    exact hnew (h.granted d hd)
  refine ⟨fun d hd => ?_, fun r' hr' => ?_⟩
  · rw [List.filterMap_append, List.mem_append]
    rcases hd with hd | hd
    · rcases List.mem_append.mp hd with hd | hd
      · exact .inl (h.granted d (.inl hd))
      · exact .inr (by simp [Webhook.granted, (mem_claimed hd).1])
    · exact .inl (h.granted d (.inr hd))
  obtain ⟨r, hr, rfl⟩ := mem_update.mp hr'
  have hrow := h.rows r hr
  split
  next hclaimed =>
    have hcandidate := (of_decide_eq_true hclaimed).mem hlease.ids hr
    obtain ⟨-, -, t, -, -, hdue⟩ := mem_candidates hcandidate
    refine ⟨fun d hd hholds => ?_, fun d hd hholds => ?_, ?_⟩
    · have htoken : d.leaseToken = token := (Option.some.inj hholds.2).symm
      rcases hd with hd | hd
      · rcases List.mem_append.mp hd with hd | hd
        · exact absurd htoken (hgranted d (.inl hd))
        · obtain ⟨-, c, hc, hid, hcount⟩ := mem_claimed hd
          obtain rfl := hlease.ids.eq_of_key (mem_candidates hc).1 hr (hid.trans hholds.1.symm)
          exact hcount.symm
      · exact absurd htoken (hgranted d (.inr hd))
    · exact absurd (Option.some.inj hholds.2).symm (hgranted d (Workers.Failing.known hd))
    · have hused : r.attemptCount ≤ x.failed.countP fun d => d.id = r.id := by
        refine hrow.used ?_ (htakes r hcandidate)
        rcases hdue.2.2 with ⟨hstatus | hstatus, -⟩ | ⟨hstatus, -⟩ <;> rw [hstatus] <;> decide
      have hunfailed : Unfailed x.failed (setClaimed now lease token r) := by
        refine .inr ⟨rfl, fun d hd hholds => ?_⟩
        exact hgranted d (.inr (.inl hd)) (Option.some.inj hholds.2).symm
      rw [if_pos hunfailed]
      exact add_le_add_left hused 1
  · refine ⟨fun d hd hholds => ?_, fun d hd => hrow.failing d hd, hrow.count⟩
    rcases hd with hd | hd
    · rcases List.mem_append.mp hd with hd | hd
      · exact hrow.attempts d (.inl hd) hholds
      · -- the lease of a row that is not claimed was granted before
        rw [Holds, (mem_claimed hd).1] at hholds
        exact absurd (hlease.standing r hr token hholds.2).1 hnew
    · exact hrow.attempts d (.inr hd) hholds

/-- A step of the workers that takes over failed attempts only. -/
theorem Accounts.step (h : Accounts x) (hinv : Inv deliverySystem x.world)
    (hlease : LeaseInv x.world.log x.world.store) (hstep : x.step l = some x')
    (htakes : x.TakesOverFailed l) (hfresh : (x'.world.log.filterMap Webhook.granted).Nodup) :
    Accounts x' := by
  simp only [Workers.step, Option.ite_none_right_eq_some, Option.map_eq_some_iff] at hstep
  obtain ⟨hhand, w, hw, rfl⟩ := hstep
  cases step_effect hinv hw with
  | start => exact h.start hhand
  | @statement n _ hstore hlog hops =>
    refine h.of_rows ⟨[], by rw [hlog, List.append_nil]⟩ hops fun r hr =>
      .inl ⟨fun d _ => rfl, h.rows r (hstore ▸ hr)⟩
  | commit hsession hserial => exact h.commit hlease hsession hserial
  | @abort n =>
    refine Accounts.of_rows (w := close x.world n) h ⟨[], (List.append_nil _).symm⟩
      (fun m t ht => ⟨t, close_sessions ht, rfl⟩) fun r hr => .inl ⟨fun d _ => rfl, h.rows r hr⟩
  | @direct dx s hdirect =>
    rcases Direct.exec_cases hdirect with ⟨now, lease, limit, token, rfl, rfl⟩ |
      ⟨events, deliveries, rfl, -, hnodup, -, hnew, rfl⟩ | ⟨t, rfl, -, -, -, -, -, rfl⟩ | ⟨cutoff,
       eventCutoff, rfl, rfl⟩
    · have hnew : token ∉ x.world.log.filterMap Webhook.granted := by
        rw [List.filterMap_append] at hfresh
        exact fun hmem => (List.nodup_append.mp hfresh).2.2 token hmem token (.head _) rfl
      have hfailed : x.failedAfter (.direct (.claim now lease limit token)) = x.failed := by
        simp [Workers.failedAfter, Workers.begins]
      exact hfailed ▸ h.claim hlease hnew htakes
    · refine h.of_rows (w := { x.world with
        store := _, log := _ }) ⟨[_], rfl⟩ (fun m t ht => ⟨t, ht, rfl⟩) ?_
      rw [List.forall_mem_append]
      refine ⟨fun r hr => .inl ⟨fun d hd => ?_, h.rows r hr⟩, fun r hr => .inr ?_⟩
      · have hne : ∀ r' ∈ deliveries, r'.id ≠ d.id := by
          intro r' hr' hid
          rw [List.map_append, List.nodup_append] at hnodup
          exact hnodup.2.2 r.id (List.mem_map_of_mem hr) r'.id (List.mem_map_of_mem hr')
            (hid.trans hd).symm
        simpa [Workers.begins] using hne
      · rw [(hnew r hr).2]
        exact ⟨rfl, rfl⟩
    · exact h.of_rows (w := { x.world with
        store := _, log := _ }) ⟨[_], rfl⟩ (fun m t ht => ⟨t, ht, rfl⟩)
        fun r hr => .inl ⟨fun d _ => rfl, h.rows r hr⟩
    · exact h.of_rows (w := { x.world with
        store := _, log := _ }) ⟨[_], rfl⟩ (fun m t ht => ⟨t, ht, rfl⟩)
        fun r hr => .inl ⟨fun d _ => rfl, h.rows r (mem_delete.mp hr).1⟩

end steps

section runs

variable {x x' : Workers} {ls : List (Transactions.Label Operation Direct)}

theorem Workers.step_world {l : Transactions.Label Operation Direct} (h : x.step l = some x') :
    Step x.world l x'.world := by
  simp only [Workers.step, Option.ite_none_right_eq_some, Option.map_eq_some_iff] at h
  obtain ⟨-, w, hw, rfl⟩ := h
  exact hw

/-- Nothing is stored and nothing handed out. -/
def Workers.start : Workers := ⟨Webhook.start, [], []⟩

theorem Workers.run_world (hrun : Runs.Run (Runs.Steps Workers.step) .start ls x) :
    Runs.Run Step Webhook.start ls x.world :=
  hrun.map Workers.world fun _ _ _ => Workers.step_world

theorem accounts_run (hrun :
      Runs.Run (Runs.Guarded Workers.TakesOverFailed (Runs.Steps Workers.step)) .start ls x)
    (hfresh : (x.world.log.filterMap granted).Nodup) : Accounts x := by
  refine hrun.history (P := fun _ x => (x.world.log.filterMap granted).Nodup → Accounts x)
    (fun _ => ?_) ?_ hfresh
  · exact ⟨by simp [Workers.Known, Workers.start, Webhook.start, initial], by
      simp [Workers.start, Webhook.start, initial]⟩
  · rintro ls u l v hls ih ⟨htakes, hstep⟩ hfresh
    have hworld := Workers.run_world hls.of_guarded
    have hinv := inv_run hworld inv_initial
    have hfresh' : (u.world.log.filterMap granted).Nodup := by
      rcases (step_spec hinv (Workers.step_world hstep)).2 with ⟨-, hlog⟩ | ⟨e, hlog, -⟩
      · rwa [hlog] at hfresh
      · rw [hlog, List.filterMap_append] at hfresh
        exact (List.nodup_append.mp hfresh).1
    exact (ih hfresh').step hinv (leaseInv_run (serial_run hworld) hfresh') hstep htakes hfresh

/-- A death is committed by the transaction of a failure. -/
theorem failure_of_death {w w' : World} {l : Transactions.Label Operation Direct}
    {e : Entry Operation Direct} {id : UUID} (hinv : Inv deliverySystem w) (hstep : Step w l w')
    (hlog : w'.log = w.log ++ [e]) (hdeath : RetryableDeath id e) :
    ∃ n op done d, w.sessions n = some ⟨op, done, []⟩ ∧ e = .tx op ∧ failing op =
      some d ∧ d.id = id := by
  have hentry : ∀ e', w.log ++ [e'] = w.log ++ [e] → e' = e := fun e' h => by simpa using h
  unfold RetryableDeath at hdeath
  split at hdeath
  next d now next status code dead openUntil letterId clock =>
    cases step_effect hinv hstep with
    | start => simp at hlog
    | statement _ hsame _ => simp [hsame] at hlog
    | commit hsession _ =>
      obtain rfl := Entry.tx.inj (hentry _ hlog)
      exact ⟨_, _, _, d, hsession, rfl, rfl, hdeath.1⟩
    | abort => simp [close] at hlog
    | direct _ => cases hentry _ hlog
  · cases hdeath

/-- In every run in which no claim takes over an attempt that has not failed, only failed
attempts are used up, and a failure that may be retried is the eighth at least when it moves
a delivery to `dead_letter`. -/
theorem retry_budget (hrun :
      Runs.Run (Runs.Guarded Workers.TakesOverFailed (Runs.Steps Workers.step)) .start ls x)
    (hscheduled : ∀ n op, Transactions.Label.start n op ∈ ls → Scheduled op)
    (hfresh : (x.world.log.filterMap granted).Nodup) : RetryBudget x := by
  have haccounts := accounts_run hrun hfresh
  have hworld := Workers.run_world hrun.of_guarded
  refine ⟨fun r hr => ?_, fun l x' e id hstep hlog hdeath => ?_⟩
  · have hcount := (haccounts.rows r hr).count
    have himp : Unfailed x.failed r → r.status = .delivering ∨ r.status = .delivered := by
      rintro (hstatus | ⟨hstatus, -⟩)
      · exact .inr hstatus
      · exact .inl hstatus
    by_cases hunfailed : Unfailed x.failed r
    · rw [if_pos hunfailed] at hcount
      rwa [if_pos (himp hunfailed)]
    · rw [if_neg hunfailed] at hcount
      rw [Workers.failures]
      split <;> omega
  · obtain ⟨n, op, done, d, hsession, rfl, hfailing, rfl⟩ :=
      failure_of_death (inv_run hworld inv_initial) (Workers.step_world hstep) hlog hdeath
    have hserial := serial_of_log hworld (Workers.step_world hstep) hlog
    cases op with
    | markFailed d' now next status code dead openUntil letterId clock =>
      cases hfailing
      obtain ⟨hone, -, -⟩ := serial_markFailed_tables hserial
      obtain ⟨r, hr, hleased⟩ := exists_leased hone
      have hrow := haccounts.rows r hr
      have hwriting : x.Failing d := ⟨n, _, hsession, rfl⟩
      have hholds : Holds d r := ⟨hleased.1, hleased.2.1⟩
      -- the attempt itself is among the failed ones
      have hused : r.attemptCount ≤ x.failures r.id := by
        refine hrow.used ?_ fun _ => ⟨d, hrow.failing d hwriting hholds, hholds⟩
        rw [hleased.2.2]
        decide
      have hcount : r.attemptCount = d.attemptCount := hrow.attempts d hwriting.known hholds
      obtain ⟨m, hm⟩ := (started_run hworld).1 n _ hsession
      have hdead := (hscheduled m _ hm).dead
      rw [hdeath.2.1, hdeath.2.2, Bool.false_or] at hdead
      have height : maxAttempts ≤ d.attemptCount := of_decide_eq_true hdead.symm
      rw [hleased.1, hcount] at hused
      exact Int.ofNat_le.mp (height.trans hused)
    | markDelivered => cases hfailing
    | replay => cases hfailing
    | setStatus => cases hfailing

end runs

section sample

instance (id : UUID) : (e : Entry Operation Direct) → Decidable (RetryableDeath id e)
  | .tx (.markFailed _ _ _ _ _ _ _ _ _) => inferInstanceAs (Decidable (_ ∧ _ ∧ _))
  | .tx (.markDelivered _ _ _) | .tx (.replay _ _) | .tx (.setStatus _ _ _) | .direct _ =>
    inferInstanceAs (Decidable False)

/-- A target and one delivery. -/
def sampleDelivery : List (Transactions.Label Operation Direct) :=
  [.direct (.createTarget sampleTarget), .direct (.publish [sampleEvent] [newDelivery 3 2 1 0])]

/-- The `k`-th claim of the sample, long after the one before it. -/
def sampleClaim (k : Nat) : Transactions.Label Operation Direct :=
  .direct (.claim (Timestamp.seconds (1000 * k)) (Timestamp.seconds 30) 20 (Fin.ofNat _ (10 + k)))

/-- A worker finds no network for the `k`-th claim, `failures` failures after the first. -/
def sampleAttempt (k failures : Nat) : Operation :=
  deliver id ⟨3, 2, 1, Fin.ofNat _ (10 + k), k + 1, failures⟩ (Timestamp.seconds (1000 * k)) 40
    (Timestamp.seconds (1000 * k)) .networkError

/-- Seven workers claim the delivery and stop; the eighth finds no network. -/
def abandoned : List (Transactions.Label Operation Direct) :=
  sampleDelivery ++ (List.range 8).map sampleClaim ++
    [.start 0 (sampleAttempt 7 0), .statement 0, .statement 0, .statement 0]

/-- Seven attempts fail, and the eighth is about to. -/
def eightFailures : List (Transactions.Label Operation Direct) :=
  sampleDelivery ++ (List.range 7).flatMap (fun k =>
    [sampleClaim k, .start 0 (sampleAttempt k k), .statement 0, .statement 0, .commit 0]) ++
    [sampleClaim 7, .start 0 (sampleAttempt 7 7), .statement 0, .statement 0, .statement 0]

theorem scheduled_sampleAttempt (k failures : Nat) : Scheduled (sampleAttempt k failures) :=
  .deliver _ _ _ _ _ _

theorem retry_budget_sample : ∃ x : Workers, x.failures 3 = 8 ∧ RetryBudget x := by
  have hexec : (Runs.exec (fun x l => if Workers.TakesOverFailed x l
    then Workers.step x l else none) .start
      eightFailures).map (fun x =>
        (x.failures 3, decide (x.world.log.filterMap granted).Nodup)) = some (8, true) := by
    decide +kernel
  obtain ⟨x, hx, hafter⟩ := Option.map_eq_some_iff.mp hexec
  simp only [Prod.mk.injEq] at hafter
  refine ⟨x, hafter.1, retry_budget (Runs.run_guarded_of_exec hx) ?_ (of_decide_eq_true hafter.2)⟩
  intro n op hop
  have hattempt : ∃ k, op = sampleAttempt k k := by
    simp only [eightFailures, sampleDelivery, sampleClaim, List.mem_append, List.mem_flatMap] at hop
    rcases hop with (hop | ⟨k, -, hop⟩) | hop
    · simp at hop
    · have hstart : n = 0 ∧ op = sampleAttempt k k := by simpa using hop
      exact ⟨k, hstart.2⟩
    · have hstart : n = 0 ∧ op = sampleAttempt 7 7 := by simpa using hop
      exact ⟨7, hstart.2⟩
  obtain ⟨k, rfl⟩ := hattempt
  exact scheduled_sampleAttempt k k

/-- After seven claims without an attempt, the first attempt that fails is the last. -/
theorem unprocessed_claims_use_up_attempts :
    (∀ n op, Transactions.Label.start n op ∈ abandoned → Scheduled op) ∧
    ∃ x x' e, Runs.Run (Runs.Steps Workers.step) .start abandoned x ∧
      (x.world.log.filterMap granted).Nodup ∧
      Runs.Steps Workers.step x (.commit 0) x' ∧ x'.world.log = x.world.log ++
      [e] ∧ RetryableDeath 3 e ∧ x.failures 3 = 1 ∧ ¬RetryBudget x := by
  have hexec : (Runs.exec Workers.step .start abandoned).bind (fun x =>
    (x.step (.commit 0)).map fun x' =>
      ((x.failures 3, decide (x.world.log.filterMap granted).Nodup),
        (x.world.log.length, x'.world.log.length),
        x'.world.log.getLast?.map fun e => decide (RetryableDeath 3 e))) = some ((1, true),
        (10, 11), some true) := by
    decide +kernel
  obtain ⟨x, hx, hstep⟩ := Option.bind_eq_some_iff.mp hexec
  obtain ⟨x', hx', hafter⟩ := Option.map_eq_some_iff.mp hstep
  simp only [Prod.mk.injEq] at hafter
  obtain ⟨⟨hfailures, hfresh⟩, ⟨hlen, hlen'⟩, hlast⟩ := hafter
  have hrun := Runs.exec_eq_some_iff.mp hx
  refine ⟨fun n op hop => ?_, x, x', ?_⟩
  · obtain ⟨-, rfl⟩ : n = 0 ∧ op = sampleAttempt 7 0 := by
      simp only [abandoned, sampleDelivery, sampleClaim, List.mem_append, List.mem_map] at hop
      simpa using hop
    exact scheduled_sampleAttempt 7 0
  rcases (step_spec (inv_run (Workers.run_world hrun) inv_initial) (Workers.step_world hx')).2
    with ⟨-, hsame⟩ | ⟨e, hlog, -⟩
  · rw [hsame, hlen] at hlen'
    cases hlen'
  rw [hlog, List.getLast?_concat, Option.map_some, Option.some.injEq, decide_eq_true_eq] at hlast
  refine ⟨e, hrun, of_decide_eq_true hfresh, hx', hlog, hlast, hfailures, fun hbudget => ?_⟩
  have height := hbudget.deaths _ _ e 3 hx' hlog hlast
  rw [hfailures] at height
  exact absurd height (by decide)

end sample

end Tenancit.Webhook
