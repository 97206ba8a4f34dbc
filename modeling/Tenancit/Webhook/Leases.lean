import Tenancit.Webhook.Interleaving

/-!
Lease fencing: what each committed step may do to a delivery, and that a granted lease is
used up by one completion.
-/
namespace Tenancit.Webhook

open Store Queries Table Transactions Transactions.System

/-- The state of the tables with the open transactions and the committed entries. -/
abbrev World := Transactions.State EventTables RowKey Statement Operation Direct

abbrev Step (w : World) (l : Transactions.Label Operation Direct) (w' : World) : Prop :=
  Runs.Steps deliverySystem.step w l w'

/-- Empty tables and no transaction open. -/
def start : World := Transactions.System.initial {}

/-- The delivery that an entry completes, with the lease it presents. -/
def completion : Entry Operation Direct → Option Delivery
  | .tx (.markDelivered d _ _) => some d
  | .tx (.markFailed d _ _ _ _ _ _ _ _) => some d
  | _ => none

/-- The lease token that an entry grants. -/
def granted : Entry Operation Direct → Option UUID
  | .direct (.claim _ _ _ token) => some token
  | _ => none

/-- The entry completes a delivery under a lease. -/
def Completes (id token : UUID) (e : Entry Operation Direct) : Prop :=
  ∃ d ∈ completion e, d.id = id ∧ d.leaseToken = token

instance (id token : UUID) (e : Entry Operation Direct) : Decidable (Completes id token e) := by
  unfold Completes
  infer_instance

/-- What one entry may do to the deliveries and to the counters of the targets. -/
structure Fenced (s : EventTables) (e : Entry Operation Direct) (s' : EventTables) : Prop where
  delivering : ∀ r ∈ s.deliveries, r.status = .delivering → r ∈ s'.deliveries ∨
    (∃ d ∈ completion e, d.id = r.id ∧ r.leaseToken = some d.leaseToken) ∨
    ∃ now lease limit token, e = .direct (.claim now lease limit token) ∧ ∃ expires ∈
      r.leaseExpiresAt, expires ≤ now
  delivered : ∀ r ∈ s.deliveries, r.status = .delivered → r ∈ s'.deliveries ∨
    ∃ cutoff eventCutoff, e = .direct (.retain cutoff eventCutoff) ∧ Retired cutoff r
  deadLetter : ∀ r ∈ s.deliveries, r.status = .deadLetter → r ∈ s'.deliveries ∨
    (∃ now, e = .tx (.replay r.id now)) ∨
    ∃ cutoff eventCutoff, e = .direct (.retain cutoff eventCutoff) ∧ Retired cutoff r
  /-- A completion whose lease is lost is not committed. -/
  lease : ∀ d ∈ completion e, ∃ r ∈ s.deliveries, Leased d r
  counters : ∀ t ∈ s.targets, ∃ t' ∈ s'.targets, t'.id = t.id ∧
    (t'.consecutiveFailures = t.consecutiveFailures ∨ ∃ d ∈ completion e, d.targetId = t.id)

variable {s s' : EventTables} {e : Entry Operation Direct}

theorem exists_leased {d : Delivery} (h : s.deliveries.countP (fun r => Leased d r) = 1) :
    ∃ r ∈ s.deliveries, Leased d r := by
  obtain ⟨r, hr, hleased⟩ := List.countP_pos_iff.mp (Nat.lt_of_lt_of_eq Nat.one_pos h.symm)
  exact ⟨r, hr, of_decide_eq_true hleased⟩

@[simp] theorem withDeadLetter_deliveries {id letterId : UUID} {code : String} {clock : Timestamp} :
    (withDeadLetter id code letterId clock s).deliveries = s.deliveries := by
  unfold withDeadLetter
  split <;> rfl

@[simp] theorem withDeadLetter_targets {id letterId : UUID} {code : String} {clock : Timestamp} :
    (withDeadLetter id code letterId clock s).targets = s.targets := by
  unfold withDeadLetter
  split <;> rfl

/-- A failure on the deliveries and on the targets. -/
theorem serial_markFailed_tables {d : Delivery} {now next clock : Timestamp}
    {status : Option Int} {code : String}
    {dead : Bool} {openUntil : Option Timestamp} {letterId : UUID}
    (h : deliverySystem.Serial s
      (.tx (.markFailed d now next status code dead openUntil letterId clock)) s') :
    s.deliveries.countP (fun r => Leased d r) = 1 ∧
      s'.deliveries = update (fun r => Leased d r)
      (setFailed now next status code dead) s.deliveries ∧
      s'.targets = update (fun t => t.id = d.targetId)
      (setFailureCounted openUntil now) s.targets := by
  obtain ⟨hone, rfl⟩ := serial_markFailed h
  refine ⟨hone, ?_, ?_⟩ <;> cases dead <;> simp [withTarget, withDelivery]

theorem exists_target_update {p : WebhookTarget → Bool} {f : WebhookTarget → WebhookTarget}
    {t : WebhookTarget} {P : WebhookTarget → Prop} (ht : t ∈ s.targets) (hid : ∀ t, (f t).id = t.id)
    (hkept : P t) (hset : p t = true → P (f t)) :
    ∃ t' ∈ update p f s.targets, t'.id = t.id ∧ P t' := by
  by_cases hp : p t = true
  · exact ⟨f t, mem_update.mpr ⟨t, ht, if_pos hp⟩, hid t, hset hp⟩
  · exact ⟨t, mem_update_of_not ht hp, rfl, hkept⟩

theorem Claimed.mem {now : Timestamp} {limit : Nat} {locked : RowKey → Bool} {r : WebhookDelivery}
    (h : Claimed now limit locked s r) (hids : Keyed WebhookDelivery.id s.deliveries)
    (hr : r ∈ s.deliveries) : r ∈ candidates now limit locked s := by
  obtain ⟨c, hc, hid⟩ := h
  obtain rfl := hids.eq_of_key (mem_candidates hc).1 hr hid
  exact hc

/-- Every entry respects the leases. -/
theorem serial_fenced (hids : Keyed WebhookDelivery.id s.deliveries)
    (h : deliverySystem.Serial s e s') : Fenced s e s' := by
  cases e with
  | tx op => cases op with
    | markDelivered d now status =>
      obtain ⟨hone, rfl⟩ := serial_markDelivered h
      have hother : ∀ r ∈ s.deliveries, ¬Leased d r →
          r ∈ update (fun r => Leased d r) (setDelivered now status) s.deliveries :=
        fun r hr hnot => mem_update_of_not hr (by simpa using hnot)
      refine ⟨fun r hr hs => ?_, fun r hr hs => .inl (hother r hr ?_), fun r hr hs =>
        .inl (hother r hr ?_),
        fun d' hd' => ?_, fun t ht => ?_⟩
      · by_cases hleased : Leased d r
        · exact .inr (.inl ⟨d, rfl, hleased.1.symm, hleased.2.1⟩)
        · exact .inl (hother r hr hleased)
      · simp [Leased, hs]
      · simp [Leased, hs]
      · cases hd'
        exact exists_leased hone
      · exact exists_target_update ht (fun _ => rfl) (.inl rfl) fun hp =>
          .inr ⟨d, rfl, (of_decide_eq_true hp).symm⟩
    | markFailed d now next status code dead openUntil letterId clock =>
      obtain ⟨hone, hdeliveries, htargets⟩ := serial_markFailed_tables h
      have hother : ∀ r ∈ s.deliveries, ¬Leased d r → r ∈ s'.deliveries := fun r hr hnot => by
        rw [hdeliveries]
        exact mem_update_of_not hr (by simpa using hnot)
      refine ⟨fun r hr hs => ?_, fun r hr hs => .inl (hother r hr ?_), fun r hr hs =>
        .inl (hother r hr ?_),
        fun d' hd' => ?_, fun t ht => ?_⟩
      · by_cases hleased : Leased d r
        · exact .inr (.inl ⟨d, rfl, hleased.1.symm, hleased.2.1⟩)
        · exact .inl (hother r hr hleased)
      · simp [Leased, hs]
      · simp [Leased, hs]
      · cases hd'
        exact exists_leased hone
      · rw [htargets]
        exact exists_target_update ht (fun _ => rfl) (.inl rfl) fun hp =>
          .inr ⟨d, rfl, (of_decide_eq_true hp).symm⟩
    | replay deliveryId now =>
      obtain ⟨-, rfl⟩ := serial_replay h
      have hother : ∀ r ∈ s.deliveries, ¬(r.id = deliveryId ∧ r.status = .deadLetter) →
          r ∈ update (fun r => r.id = deliveryId && r.status = .deadLetter)
          (setReplayed now) s.deliveries :=
        fun r hr hnot => mem_update_of_not hr (by simpa using hnot)
      refine ⟨fun r hr hs => .inl (hother r hr (by simp [hs])), fun r hr hs =>
        .inl (hother r hr (by simp [hs])),
        fun r hr hs => ?_, nofun, fun t ht => ⟨t, ht, rfl, .inl rfl⟩⟩
      by_cases hid : r.id = deliveryId
      · exact .inr (.inl ⟨now, by rw [hid]⟩)
      · exact .inl (hother r hr (by simp [hid]))
    | setStatus targetId status clock =>
      obtain rfl := serial_setStatus h
      refine ⟨fun r hr _ => .inl hr, fun r hr _ => .inl hr, fun r hr _ =>
        .inl hr, nofun, fun t ht => ?_⟩
      exact exists_target_update ht (fun _ => rfl) (.inl rfl) fun _ => .inl rfl
  | direct x =>
    obtain ⟨locked, h⟩ := h
    rcases Direct.exec_cases h with ⟨now, lease, limit, token, rfl, rfl⟩ |
      ⟨events, deliveries, rfl, -, -, -, -, rfl⟩ | ⟨t, rfl, -, -, -, -, -, rfl⟩ | ⟨cutoff,
       eventCutoff, rfl, rfl⟩
    · have hother : ∀ r ∈ s.deliveries, ¬Claimed now limit locked s r →
          r ∈ update (fun r => Claimed now limit locked s r)
          (setClaimed now lease token) s.deliveries :=
        fun r hr hnot => mem_update_of_not hr (by simpa using hnot)
      have hdue : ∀ r ∈ s.deliveries, Claimed now limit locked s r → ∃ t, Due now t r :=
        fun r hr hclaimed => by
        obtain ⟨-, -, t, -, -, hdue⟩ := mem_candidates (hclaimed.mem hids hr)
        exact ⟨t, hdue⟩
      refine ⟨fun r hr hs => ?_, fun r hr hs => .inl (hother r hr fun hclaimed => ?_),
        fun r hr hs => .inl (hother r hr fun hclaimed => ?_), nofun, fun t ht =>
        ⟨t, ht, rfl, .inl rfl⟩⟩
      · by_cases hclaimed : Claimed now limit locked s r
        · obtain ⟨t, -, -, ⟨hnot, -⟩ | ⟨-, hexpired⟩⟩ := hdue r hr hclaimed
          · simp [hs] at hnot
          · exact .inr (.inr ⟨now, lease, limit, token, rfl, hexpired⟩)
        · exact .inl (hother r hr hclaimed)
      all_goals
        obtain ⟨t, -, -, ⟨hnot, -⟩ | ⟨hnot, -⟩⟩ := hdue r hr hclaimed
        all_goals simp [hs] at hnot
    · have hkept : ∀ r ∈ s.deliveries, r ∈ s.deliveries ++ deliveries :=
        fun r => List.mem_append_left _
      exact ⟨fun r hr _ => .inl (hkept r hr), fun r hr _ => .inl (hkept r hr), fun r hr _ =>
        .inl (hkept r hr), nofun,
        fun t ht => ⟨t, ht, rfl, .inl rfl⟩⟩
    · exact ⟨fun r hr _ => .inl hr, fun r hr _ => .inl hr, fun r hr _ => .inl hr, nofun,
        fun u hu => ⟨u, List.mem_append_left _ hu, rfl, .inl rfl⟩⟩
    · have hkept : ∀ r ∈ s.deliveries, Retired cutoff r ∨
          r ∈ (runRetentionOnce cutoff eventCutoff locked s).deliveries := by
        intro r hr
        by_cases hretired : Retired cutoff r
        · exact .inl hretired
        · exact .inr (mem_delete.mpr ⟨hr, by simp [hretired]⟩)
      refine ⟨fun r hr hs => ?_, fun r hr hs => ?_, fun r hr hs => ?_, nofun, fun t ht =>
        ⟨t, ht, rfl, .inl rfl⟩⟩
      all_goals rcases hkept r hr with hretired | hr'
      · simp [Retired, hs] at hretired
      · exact .inl hr'
      · exact .inr ⟨cutoff, eventCutoff, rfl, hretired⟩
      · exact .inl hr'
      · exact .inr (.inr ⟨cutoff, eventCutoff, rfl, hretired⟩)
      · exact .inl hr'

theorem serial_ids (hids : Keyed WebhookDelivery.id s.deliveries)
    (h : deliverySystem.Serial s e s') : Keyed WebhookDelivery.id s'.deliveries := by
  cases e with
  | tx op => cases op with
    | markDelivered d now status =>
      obtain ⟨-, rfl⟩ := serial_markDelivered h
      exact hids.update fun _ => rfl
    | markFailed d now next status code dead openUntil letterId clock =>
      rw [(serial_markFailed_tables h).2.1]
      exact hids.update fun _ => rfl
    | replay deliveryId now =>
      obtain ⟨-, rfl⟩ := serial_replay h
      exact hids.update fun _ => rfl
    | setStatus targetId status clock =>
      obtain rfl := serial_setStatus h
      exact hids
  | direct x =>
    obtain ⟨locked, h⟩ := h
    rcases Direct.exec_cases h with ⟨now, lease, limit, token, rfl, rfl⟩ |
      ⟨events, deliveries, rfl, -, hnodup, -, -, rfl⟩ | ⟨t, rfl, -, -, -, -, -, rfl⟩ | ⟨cutoff,
       eventCutoff, rfl, rfl⟩
    · exact hids.update fun _ => rfl
    · exact hnodup
    · exact hids
    · exact hids.delete

/-- A lease after an entry was granted by it, or stood before and is not used up by it. -/
theorem serial_tokens (hheld : ∀ r ∈ s.deliveries, r.leaseToken.isSome → r.status = .delivering)
    (h : deliverySystem.Serial s e s') :
    ∀ r' ∈ s'.deliveries, ∀ token ∈ r'.leaseToken, r'.status = .delivering ∧
      (granted e = some token ∨
        (∃ r ∈ s.deliveries, r.id = r'.id ∧ r.leaseToken = some token) ∧
        ¬Completes r'.id token e) := by
  -- a row that stays as it was keeps its lease, unless the entry completes it
  have hkept : ∀ r ∈ s.deliveries, ∀ token ∈ r.leaseToken,
    ¬Completes r.id token e → r.status = .delivering ∧
      (granted e = some token ∨ (∃ r₀ ∈ s.deliveries, r₀.id = r.id ∧ r₀.leaseToken = some token) ∧
        ¬Completes r.id token e) := fun r hr token htoken hnot =>
    ⟨hheld r hr (by rw [htoken]; rfl), .inr ⟨⟨r, hr, rfl, htoken⟩, hnot⟩⟩
  have hcompleted : ∀ d ∈ completion e, ∀ r ∈ s.deliveries, ∀ token ∈ r.leaseToken, ¬Leased d r →
      ¬Completes r.id token e := by
    rintro d hd r hr token htoken hnot ⟨d', hd', hid, rfl⟩
    obtain rfl : d = d' := Option.some.inj (hd.symm.trans hd')
    exact hnot ⟨hid.symm, htoken, hheld r hr (by rw [htoken]; rfl)⟩
  intro r' hr' token htoken
  cases e with
  | tx op => cases op with
    | markDelivered d now status =>
      obtain ⟨-, rfl⟩ := serial_markDelivered h
      obtain ⟨r, hr, rfl⟩ := mem_update.mp hr'
      split at htoken
      · cases htoken
      next hnot =>
        rw [if_neg hnot]
        exact hkept r hr token htoken (hcompleted d rfl r hr token htoken (by simpa using hnot))
    | markFailed d now next status code dead openUntil letterId clock =>
      rw [(serial_markFailed_tables h).2.1] at hr'
      obtain ⟨r, hr, rfl⟩ := mem_update.mp hr'
      split at htoken
      · cases htoken
      next hnot =>
        rw [if_neg hnot]
        exact hkept r hr token htoken (hcompleted d rfl r hr token htoken (by simpa using hnot))
    | replay deliveryId now =>
      obtain ⟨-, rfl⟩ := serial_replay h
      obtain ⟨r, hr, rfl⟩ := mem_update.mp hr'
      split at htoken
      next hp =>
        have hheld := hheld r hr (Option.isSome_iff_exists.mpr ⟨token, htoken⟩)
        simp [hheld] at hp
      next hnot =>
        rw [if_neg hnot]
        exact hkept r hr token htoken (by simp [Completes, completion])
    | setStatus targetId status clock =>
      obtain rfl := serial_setStatus h
      exact hkept r' hr' token htoken (by simp [Completes, completion])
  | direct x =>
    obtain ⟨locked, h⟩ := h
    rcases Direct.exec_cases h with ⟨now, lease, limit, newToken, rfl, rfl⟩ |
      ⟨events, deliveries, rfl, -, -, -, hnew, rfl⟩ | ⟨t, rfl, -, -, -, -, -, rfl⟩ | ⟨cutoff,
       eventCutoff, rfl, rfl⟩
    · obtain ⟨r, hr, rfl⟩ := mem_update.mp hr'
      split at htoken
      next hclaimed =>
        rw [if_pos hclaimed]
        exact ⟨rfl, .inl htoken⟩
      next hnot =>
        rw [if_neg hnot]
        exact hkept r hr token htoken (by simp [Completes, completion])
    · rcases List.mem_append.mp hr' with hr' | hr'
      · exact hkept r' hr' token htoken (by simp [Completes, completion])
      · rw [(hnew r' hr').2] at htoken
        cases htoken
    · exact hkept r' hr' token htoken (by simp [Completes, completion])
    · exact hkept r' (mem_delete.mp hr').1 token htoken (by simp [Completes, completion])

/-- What holds of the tables after a log of entries: a lease that stands was granted and
none of the entries has used it up, and no lease was used up twice. -/
structure LeaseInv (log : List (Entry Operation Direct)) (s : EventTables) : Prop where
  ids : Keyed WebhookDelivery.id s.deliveries
  held : ∀ r ∈ s.deliveries, r.leaseToken.isSome → r.status = .delivering
  standing : ∀ r ∈ s.deliveries, ∀ token ∈ r.leaseToken, token ∈ log.filterMap granted ∧
    ∀ e ∈ log, ¬Completes r.id token e
  granted : ∀ e ∈ log, ∀ d ∈ completion e, d.leaseToken ∈ log.filterMap granted
  once : ∀ id token, log.countP (fun e => Completes id token e) ≤ 1

theorem LeaseInv.entry {log : List (Entry Operation Direct)} (h : LeaseInv log s)
    (hfresh : ((log ++ [e]).filterMap Webhook.granted).Nodup)
    (hserial : deliverySystem.Serial s e s') : LeaseInv (log ++ [e]) s' := by
  have htokens := serial_tokens h.held hserial
  have hlease := (serial_fenced h.ids hserial).lease
  have hgranted : ∀ token ∈ log.filterMap Webhook.granted,
      token ∈ (log ++ [e]).filterMap Webhook.granted :=
    fun token ht => by rw [List.filterMap_append]; exact List.mem_append_left _ ht
  refine ⟨serial_ids h.ids hserial, fun r' hr' hsome => ?_, fun r' hr' token htoken =>
    ?_, fun e' he' d hd => ?_,
    fun id token => ?_⟩
  · obtain ⟨token, htoken⟩ := Option.isSome_iff_exists.mp hsome
    exact (htokens r' hr' token htoken).1
  · rcases (htokens r' hr' token htoken).2 with hnew | ⟨⟨r, hr, hid, hold⟩, hnot⟩
    · refine ⟨by simp [List.filterMap_append, hnew], fun e' he' hcompletes => ?_⟩
      -- the token is new, so no earlier entry presents it, and the entry that grants it completes
      -- nothing
      rcases List.mem_append.mp he' with he' | he'
      · obtain ⟨d, hd, -, rfl⟩ := hcompletes
        rw [List.filterMap_append, List.filterMap_cons_some hnew, List.nodup_append] at hfresh
        exact hfresh.2.2 _ (h.granted e' he' d hd) _ (by simp) rfl
      · obtain rfl := List.mem_singleton.mp he'
        obtain ⟨d, hd, -⟩ := hcompletes
        cases e' with
        | tx op => cases hnew
        | direct x => cases hd
    · obtain ⟨hgrant, hnone⟩ := h.standing r hr token hold
      refine ⟨hgranted _ hgrant, fun e' he' => ?_⟩
      rcases List.mem_append.mp he' with he' | he'
      · rw [← hid]
        exact hnone e' he'
      · obtain rfl := List.mem_singleton.mp he'
        exact hnot
  · rcases List.mem_append.mp he' with he' | he'
    · exact hgranted _ (h.granted e' he' d hd)
    · obtain rfl := List.mem_singleton.mp he'
      obtain ⟨r, hr, -, htoken, -⟩ := hlease d hd
      exact hgranted _ (h.standing r hr _ htoken).1
  · rw [List.countP_append]
    by_cases hcompletes : Completes id token e
    · obtain ⟨d, hd, rfl, rfl⟩ := hcompletes
      obtain ⟨r, hr, hid, htoken, -⟩ := hlease d hd
      have hzero : log.countP (fun e => Completes d.id d.leaseToken e) = 0 := by
        rw [List.countP_eq_zero]
        intro e' he'
        rw [decide_eq_true_eq, ← hid]
        exact (h.standing r hr _ htoken).2 e' he'
      rw [hzero, Nat.zero_add]
      exact List.countP_le_length
    · have hzero : [e].countP (fun e => Completes id token e) = 0 := by simp [hcompletes]
      rw [hzero]
      exact h.once id token

theorem leaseInv_run {log : List (Entry Operation Direct)}
    (hrun : Runs.Run deliverySystem.Serial {} log s) (hfresh : (log.filterMap granted).Nodup) :
    LeaseInv log s := by
  refine hrun.history (P := fun log s => (log.filterMap granted).Nodup → LeaseInv log s)
    (fun _ => ?_) ?_ hfresh
  · constructor <;> simp
  · intro log u e s' _ ih hserial hfresh
    refine (ih ?_).entry hfresh hserial
    rw [List.filterMap_append] at hfresh
    exact (List.nodup_append.mp hfresh).1

/-- What lease fencing says of a reachable state and of every step from it. -/
structure LeaseFencing (w : World) : Prop where
  /-- A step leaves the tables alone or commits one entry, which respects the leases. -/
  steps : ∀ l w', Step w l w' → w'.store = w.store ∧ w'.log = w.log ∨
    ∃ e, w'.log = w.log ++ [e] ∧ Fenced w.store e w'.store
  /-- A lease is used up at most once. -/
  once : ∀ id token, w.log.countP (fun e => Completes id token e) ≤ 1
  /-- A completion that finds its lease lost is given up at its first statement. -/
  lost : ∀ n op d todo, w.sessions n = some ⟨op, [], todo⟩ → completion (.tx op) = some d →
    (∀ r ∈ w.store.deliveries, ¬Leased d r) → ∀ w', Step w (.statement n) w' → w' = close w n

/-- However workers, replays, status changes, publications and retention interleave, the
leases fence the deliveries, where each claim draws a new token. -/
theorem lease_fencing {ls : List (Transactions.Label Operation Direct)} {w : World}
    (hrun : Runs.Run Step start ls w) (hfresh : (w.log.filterMap granted).Nodup) :
    LeaseFencing w := by
  have hinv := leaseInv_run (serial_run hrun) hfresh
  refine ⟨fun l w' hstep => ?_, hinv.once, ?_⟩
  · rcases (step_spec (inv_run hrun inv_initial) hstep).2 with hsame | ⟨e, hlog, hserial⟩
    · exact .inl hsame
    · exact .inr ⟨e, hlog, serial_fenced hinv.ids hserial⟩
  · intro n op d todo hsession hd hlost w' hstep
    have hprogram : todo = op.program := (inv_run hrun inv_initial).program n _ hsession
    have hnone : w.store.deliveries.countP (fun r => Leased d r) = 0 := by
      rw [List.countP_eq_zero]
      exact fun r hr => by simpa using hlost r hr
    -- the first statement of both completions finds no row
    have hfirst : ∃ s rest, todo = s :: rest ∧ s.exec w.store = none := by
      cases op with
      | markDelivered d' now status =>
        cases hd
        refine ⟨_, _, hprogram, ?_⟩
        simp [Statement.exec, updateOne, hnone]
      | markFailed d' now next status code dead openUntil letterId clock =>
        cases hd
        refine ⟨_, _, hprogram, ?_⟩
        simp [Statement.exec, updateOne, hnone]
      | replay deliveryId now => cases hd
      | setStatus targetId status clock => cases hd
    obtain ⟨s, rest, rfl, hexec⟩ := hfirst
    have hall : deliverySystem.execAll ([] ++ [s]) w.store = none := by
      simp [execAll, deliverySystem, hexec]
    simp only [Step, Runs.Steps, System.step, hsession, hall] at hstep
    split at hstep
    · exact (Option.some.inj hstep).symm
    · cases hstep

section sample

def sampleTarget : WebhookTarget :=
  ⟨1, "ops", "generic", .active, [], [], 1, [], [], 1, false, 0, none, 0, 0⟩

def sampleEvent : OutboxEvent := ⟨2, "tenancit.tenant.created", 1, "tenant", "t", "r", .obj [], 0⟩

def sampleLease (token : UUID) : Delivery := ⟨3, 2, 1, token, 1, 0⟩

/-- A slow worker loses its lease to a second claim; the second worker's failure is final,
and after a replay a third claim delivers. -/
def sampleRun : List (Transactions.Label Operation Direct) :=
  [.direct (.createTarget sampleTarget), .direct (.publish [sampleEvent] [newDelivery 3 2 1 0]),
   .direct (.claim 0 30 20 10), .direct (.claim 40 30 20 11),
   .start 0 (.markDelivered (sampleLease 10) 41 200),
   .start 1 (.markFailed (sampleLease 11) 42 50 none "http_400" true none 20 42),
   .statement 0, .statement 1, .statement 1, .statement 1, .commit 1,
   .start 2 (.replay 3 43), .statement 2, .statement 2, .commit 2,
   .direct (.claim 44 30 20 12), .start 3 (.markDelivered (sampleLease 12) 45 200), .statement 3,
   .statement 3, .commit 3]

theorem lease_fencing_sample : ∃ w, Runs.Run Step start sampleRun w ∧ LeaseFencing w := by
  have hexec : (Runs.exec deliverySystem.step start sampleRun).map (fun w =>
    w.log.filterMap granted) =
      some [10, 11, 12] := by decide +kernel
  obtain ⟨w, hw, htokens⟩ := Option.map_eq_some_iff.mp hexec
  have hrun := Runs.exec_eq_some_iff.mp hw
  exact ⟨w, hrun, lease_fencing hrun (by rw [htokens]; decide)⟩

end sample

end Tenancit.Webhook
