import Tenancit.Webhook.Leases

/-!
The bookkeeping of dead letters: which deliveries are dead, and which failure a dead letter
is about. A second death finds the row of the first one in its way.
-/
namespace Tenancit.Webhook

open Store Queries Table Transactions Transactions.System

/-- The delivery that an entry moves to `dead_letter`, with the reason and the time. -/
def death : Entry Operation Direct → Option (UUID × String × Timestamp)
  | .tx (.markFailed d _ _ _ code true _ _ clock) => some (d.id, code, clock)
  | _ => none

/-- The failure that last moved a delivery to `dead_letter`. -/
def lastDeath (log : List (Entry Operation Direct)) (id : UUID) : Option (String × Timestamp) :=
  (((log.filterMap death).filter fun x => x.1 = id).getLast?).map Prod.snd

/-- A delivery is dead if and only if it has a dead letter that was not replayed, and such a
letter is about its last death. -/
def BookedRow (log : List (Entry Operation Direct)) (letters : List WebhookDeadLetter)
    (r : WebhookDelivery) : Prop :=
  (r.status = .deadLetter ↔ ∃ l ∈ letters, l.deliveryId = r.id ∧ l.replayedAt = none) ∧
    ∀ l ∈ letters, l.deliveryId = r.id → l.replayedAt = none → lastDeath log r.id =
      some (l.reasonCode, l.failedAt)

def Booked (log : List (Entry Operation Direct)) (s : EventTables) : Prop :=
  ∀ r ∈ s.deliveries, BookedRow log s.deadLetters r

instance (log : List (Entry Operation Direct)) (letters : List WebhookDeadLetter)
    (r : WebhookDelivery) : Decidable (BookedRow log letters r) := by
  unfold BookedRow
  infer_instance

instance (log : List (Entry Operation Direct)) (s : EventTables) : Decidable (Booked log s) := by
  unfold Booked
  infer_instance

/-- The entry is the death of a delivery for which a dead letter stands already. -/
def DiesAgain (s : EventTables) (e : Entry Operation Direct) : Prop :=
  ∃ x ∈ death e, ∃ l ∈ s.deadLetters, l.deliveryId = x.1

variable {log : List (Entry Operation Direct)} {s s' : EventTables} {e : Entry Operation Direct}
  {id : UUID}

theorem lastDeath_of_other (h : ∀ x ∈ death e, x.1 ≠ id) :
    lastDeath (log ++ [e]) id = lastDeath log id := by
  have hnone : ([e].filterMap death).filter (fun x => x.1 = id) = [] := by
    cases he : death e with
    | none => simp [he]
    | some x => simp [he, h x he]
  rw [lastDeath, List.filterMap_append, List.filter_append, hnone, List.append_nil, lastDeath]

theorem lastDeath_of_death {code : String} {clock : Timestamp}
    (h : death e = some (id, code, clock)) : lastDeath (log ++ [e]) id = some (code, clock) := by
  simp [lastDeath, List.filterMap_append, h]

/-- Every dead letter is one of a delivery. -/
def LettersOwned (s : EventTables) : Prop :=
  ∀ l ∈ s.deadLetters, ∃ r ∈ s.deliveries, r.id = l.deliveryId

theorem mem_withDeadLetter {code : String} {letterId : UUID} {clock : Timestamp}
    {l : WebhookDeadLetter} :
    l ∈ (withDeadLetter id code letterId clock s).deadLetters ↔ l ∈ s.deadLetters ∨
      (∀ l ∈ s.deadLetters, l.deliveryId ≠ id) ∧ l = ⟨letterId, id, code, clock, none⟩ := by
  unfold withDeadLetter
  by_cases h : rowsAt WebhookDeadLetter.deliveryId id s.deadLetters = []
  · rw [if_neg (not_not.mpr h), and_iff_right (rowsAt_eq_nil.mp h)]
    simp
  · rw [if_pos h]
    rw [rowsAt_eq_nil] at h
    simp [h]

/-- The dead letters after a failure. -/
theorem mem_letters_markFailed {d : Delivery} {now next clock : Timestamp}
    {status : Option Int} {code : String}
    {dead : Bool} {openUntil : Option Timestamp} {letterId : UUID}
    (h : deliverySystem.Serial s
      (.tx (.markFailed d now next status code dead openUntil letterId clock)) s')
    {l : WebhookDeadLetter} : l ∈ s'.deadLetters ↔ l ∈ s.deadLetters ∨
      dead = true ∧ (∀ l ∈ s.deadLetters, l.deliveryId ≠ d.id) ∧
      l = ⟨letterId, d.id, code, clock, none⟩ := by
  obtain ⟨-, rfl⟩ := serial_markFailed h
  cases dead with
  | false => simp [withTarget, withDelivery]
  | true => simp [mem_withDeadLetter, withTarget, withDelivery]

theorem serial_lettersOwned (howned : LettersOwned s)
    (h : deliverySystem.Serial s e s') : LettersOwned s' := by
  cases e with
  | tx op => cases op with
    | markDelivered d now status =>
      obtain ⟨-, rfl⟩ := serial_markDelivered h
      exact fun l hl => exists_mem_update (fun _ => rfl) (howned l hl)
    | markFailed d now next status code dead openUntil letterId clock =>
      obtain ⟨hone, hdeliveries, -⟩ := serial_markFailed_tables h
      intro l hl
      rw [hdeliveries]
      refine exists_mem_update (fun _ => rfl) ?_
      rcases (mem_letters_markFailed h).mp hl with hl | ⟨-, -, rfl⟩
      · exact howned l hl
      · obtain ⟨r, hr, hleased⟩ := exists_leased hone
        exact ⟨r, hr, hleased.1⟩
    | replay deliveryId now =>
      obtain ⟨-, rfl⟩ := serial_replay h
      intro l hl
      obtain ⟨l₀, hl₀, rfl⟩ := mem_update.mp hl
      have hid : (if decide (l₀.deliveryId = deliveryId) = true
        then setLetterReplayed now l₀ else l₀).deliveryId =
          l₀.deliveryId := by split <;> rfl
      rw [hid]
      exact exists_mem_update (fun _ => rfl) (howned l₀ hl₀)
    | setStatus targetId status clock =>
      obtain rfl := serial_setStatus h
      exact howned
  | direct x =>
    obtain ⟨locked, h⟩ := h
    rcases Direct.exec_cases h with ⟨now, lease, limit, token, rfl, rfl⟩ |
      ⟨events, deliveries, rfl, -, -, -, -, rfl⟩ | ⟨t, rfl, -, -, -, -, -, rfl⟩ | ⟨cutoff,
       eventCutoff, rfl, rfl⟩
    · exact fun l hl => exists_mem_update (fun _ => rfl) (howned l hl)
    · intro l hl
      obtain ⟨r, hr, hid⟩ := howned l hl
      exact ⟨r, List.mem_append_left _ hr, hid⟩
    · exact howned
    · intro l hl
      obtain ⟨hl, hkept⟩ := mem_delete.mp hl
      obtain ⟨r, hr, hid⟩ := howned l hl
      refine ⟨r, mem_delete.mpr ⟨hr, ?_⟩, hid⟩
      -- the delivery goes only together with its letter
      by_contra hgoes
      rw [Bool.not_eq_false] at hgoes
      have hlocked := (Bool.and_eq_true_iff.mp hgoes).2
      rw [hid] at hlocked
      have hany : (s.deliveries.any fun d => decide (d.id = l.deliveryId) &&
          (decide (Retired cutoff d) && !locked (.delivery d.id) &&
            !locked (.deadLetter d.id))) = true :=
        List.any_eq_true.mpr ⟨r, hr, by rw [hgoes, hid]; simp⟩
      rw [hlocked, hany] at hkept
      cases hkept

/-- A row is booked by the letters of its delivery, its death and its last failure. -/
theorem BookedRow.congr {log' : List (Entry Operation Direct)}
    {letters letters' : List WebhookDeadLetter} {r r' : WebhookDelivery}
    (h : BookedRow log letters r) (hid : r'.id = r.id)
    (hstatus : r'.status = .deadLetter ↔ r.status = .deadLetter)
    (hlast : lastDeath log' r.id = lastDeath log r.id)
    (hletters : ∀ l, l.deliveryId = r.id → (l ∈ letters' ↔ l ∈ letters)) :
    BookedRow log' letters' r' := by
  unfold BookedRow
  rw [hid, hlast]
  refine ⟨(hstatus.trans h.1).trans ?_, fun l hl hlid => h.2 l ((hletters l hlid).mp hl) hlid⟩
  constructor
  · rintro ⟨l, hl, hlid, hnull⟩
    exact ⟨l, (hletters l hlid).mpr hl, hlid, hnull⟩
  · rintro ⟨l, hl, hlid, hnull⟩
    exact ⟨l, (hletters l hlid).mp hl, hlid, hnull⟩

/-- An entry that leaves the letters alone, and no delivery's death undone or new. -/
theorem Booked.of_same (hb : Booked log s) (hdeath : death e = none)
    (hletters : s'.deadLetters = s.deadLetters)
    (hrows : ∀ r' ∈ s'.deliveries, ∃ r ∈ s.deliveries, r.id = r'.id ∧
      (r.status = .deadLetter ↔ r'.status = .deadLetter)) :
    Booked (log ++ [e]) s' := by
  intro r' hr'
  obtain ⟨r, hr, hid, hstatus⟩ := hrows r' hr'
  exact (hb r hr).congr hid.symm hstatus.symm (lastDeath_of_other (by simp [hdeath])) fun l _ => by
    rw [hletters]

theorem update_same_death {p : WebhookDelivery → Bool} {f : WebhookDelivery → WebhookDelivery}
    {rows : List WebhookDelivery}
    (hid : ∀ r, (f r).id = r.id) (hp : ∀ r ∈ rows, p r = true → r.status ≠ .deadLetter ∧
      (f r).status ≠ .deadLetter) :
    ∀ r' ∈ update p f rows, ∃ r ∈ rows, r.id = r'.id ∧ (r.status = .deadLetter ↔
      r'.status = .deadLetter) := by
  intro r' hr'
  obtain ⟨r, hr, rfl⟩ := mem_update.mp hr'
  refine ⟨r, hr, ?_⟩
  split
  next hset => exact ⟨(hid r).symm, by simp [hp r hr hset]⟩
  · exact ⟨rfl, Iff.rfl⟩

theorem leased_alive {d : Delivery} {r : WebhookDelivery} (h : decide (Leased d r) = true) :
    r.status ≠ .deadLetter := by
  rw [(of_decide_eq_true h).2.2]
  decide

/-- A first death is booked. -/
theorem Booked.markFailed {d : Delivery} {now next clock : Timestamp}
    {status : Option Int} {code : String}
    {openUntil : Option Timestamp} {letterId : UUID} (hids : Keyed WebhookDelivery.id s.deliveries)
    (hb : Booked log s)
    (h : deliverySystem.Serial s
      (.tx (.markFailed d now next status code true openUntil letterId clock)) s')
    (hfirst : ∀ l ∈ s.deadLetters, l.deliveryId ≠ d.id) :
    Booked (log ++ [.tx (.markFailed d now next status code true openUntil letterId clock)])
      s' := by
  obtain ⟨hone, hdeliveries, -⟩ := serial_markFailed_tables h
  intro r' hr'
  rw [hdeliveries] at hr'
  obtain ⟨r, hr, rfl⟩ := mem_update.mp hr'
  by_cases hleased : Leased d r
  · rw [if_pos (decide_eq_true hleased)]
    have hlast : lastDeath (log ++
      [.tx (.markFailed d now next status code true openUntil letterId clock)]) d.id =
        some (code, clock) := lastDeath_of_death rfl
    refine ⟨iff_of_true rfl ⟨_, (mem_letters_markFailed h).mpr (.inr ⟨rfl, hfirst, rfl⟩),
      hleased.1.symm, rfl⟩,
      fun l hl hid _ => ?_⟩
    rcases (mem_letters_markFailed h).mp hl with hl | ⟨-, -, rfl⟩
    · exact absurd (hid.trans hleased.1) (hfirst l hl)
    · exact hid ▸ hlast
  · rw [if_neg (by simpa using hleased)]
    -- another row has another identifier
    have hother : r.id ≠ d.id := by
      intro hid
      obtain ⟨r₀, hr₀, hleased₀⟩ := exists_leased hone
      exact hleased (hids.eq_of_key hr hr₀ (hid.trans hleased₀.1.symm) ▸ hleased₀)
    have hletters : ∀ l, l.deliveryId = r.id → (l ∈ s'.deadLetters ↔ l ∈ s.deadLetters) := by
      intro l hid
      rw [mem_letters_markFailed h, or_iff_left]
      rintro ⟨-, -, rfl⟩
      exact hother hid.symm
    exact (hb r hr).congr rfl Iff.rfl
      (lastDeath_of_other (by rintro x ⟨⟩; exact hother.symm)) hletters

theorem Booked.replay {deliveryId : UUID} {now : Timestamp} (hb : Booked log s)
    (h : deliverySystem.Serial s (.tx (.replay deliveryId now)) s') :
    Booked (log ++ [.tx (.replay deliveryId now)]) s' := by
  obtain ⟨-, rfl⟩ := serial_replay h
  intro r' hr'
  obtain ⟨r, hr, rfl⟩ := mem_update.mp hr'
  by_cases hid : r.id = deliveryId
  · -- its letters are all replayed now
    have hnone : ∀ l ∈ update (fun l => l.deliveryId = deliveryId)
      (setLetterReplayed now) s.deadLetters,
        l.deliveryId = r.id → l.replayedAt ≠ none := by
      intro l hl hlid
      obtain ⟨l₀, -, rfl⟩ := mem_update.mp hl
      split
      · simp [setLetterReplayed]
      next hnot =>
        rw [if_neg hnot, hid] at hlid
        simp [hlid] at hnot
    have hstatus : (if (decide (r.id = deliveryId) && decide (r.status = .deadLetter)) = true
      then setReplayed now r else r).status
        ≠ .deadLetter := by
      split
      · simp [setReplayed]
      next hnot => simpa [hid] using hnot
    have hsame : (if (decide (r.id = deliveryId) && decide (r.status = .deadLetter)) = true
      then setReplayed now r else r).id =
        r.id := by split <;> rfl
    unfold BookedRow
    rw [hsame]
    exact ⟨iff_of_false hstatus fun ⟨l, hl, hlid, hnull⟩ => hnone l hl hlid hnull,
      fun l hl hlid hnull =>
      absurd hnull (hnone l hl hlid)⟩
  · rw [if_neg (by simp [hid])]
    have hletters : ∀ l, l.deliveryId = r.id →
        (l ∈ update (fun l => l.deliveryId = deliveryId) (setLetterReplayed now) s.deadLetters ↔
          l ∈ s.deadLetters) := by
      intro l hlid
      constructor
      · intro hl
        obtain ⟨l₀, hl₀, rfl⟩ := mem_update.mp hl
        split at hlid
        next hset => exact absurd (hlid.symm.trans (of_decide_eq_true hset)) hid
        next hnot => rwa [if_neg hnot]
      · exact fun hl => mem_update_of_not hl (by simpa [hlid] using hid)
    exact (hb r hr).congr rfl Iff.rfl (lastDeath_of_other (by rintro x ⟨⟩)) hletters

/-- A second death is not booked: the letter of the first one stays, and it was replayed. -/
theorem DiesAgain.not_booked (hb : Booked log s) (h : deliverySystem.Serial s e s')
    (hdies : DiesAgain s e) : ¬Booked (log ++ [e]) s' := by
  obtain ⟨x, hx, l, hl, hlid⟩ := hdies
  cases e with
  | direct y => cases hx
  | tx op => cases op with
    | markDelivered d now status => cases hx
    | replay deliveryId now => cases hx
    | setStatus targetId status clock => cases hx
    | markFailed d now next status code dead openUntil letterId clock =>
      cases dead with
      | false => cases hx
      | true =>
        cases hx
        obtain ⟨hone, hdeliveries, -⟩ := serial_markFailed_tables h
        obtain ⟨r, hr, hleased⟩ := exists_leased hone
        intro hb'
        have hr' : setFailed now next status code true r ∈ s'.deliveries := by
          rw [hdeliveries]
          exact mem_update.mpr ⟨r, hr, if_pos (decide_eq_true hleased)⟩
        obtain ⟨l', hl', hid, hnull⟩ := (hb' _ hr').1.mp rfl
        have hold : l' ∈ s.deadLetters := by
          rcases (mem_letters_markFailed h).mp hl' with hl' | ⟨-, hnone, -⟩
          · exact hl'
          · exact absurd hlid (hnone l hl)
        exact leased_alive (decide_eq_true hleased) ((hb r hr).1.mpr ⟨l', hold, hid, hnull⟩)

/-- An entry keeps the books if and only if it is not a second death. -/
theorem booked_step (hids : Keyed WebhookDelivery.id s.deliveries) (howned : LettersOwned s)
    (hb : Booked log s) (h : deliverySystem.Serial s e s') :
    Booked (log ++ [e]) s' ↔ ¬DiesAgain s e := by
  refine ⟨fun hb' hdies => hdies.not_booked hb h hb', fun hfirst => ?_⟩
  cases e with
  | tx op => cases op with
    | markDelivered d now status =>
      obtain ⟨-, rfl⟩ := serial_markDelivered h
      refine hb.of_same rfl rfl (update_same_death (fun _ => rfl) fun r _ hp =>
        ⟨leased_alive hp, ?_⟩)
      simp [setDelivered]
    | markFailed d now next status code dead openUntil letterId clock =>
      cases dead with
      | true => exact hb.markFailed hids h fun l hl hid => hfirst ⟨_, rfl, l, hl, hid⟩
      | false =>
        obtain ⟨-, rfl⟩ := serial_markFailed h
        refine hb.of_same rfl rfl (update_same_death (fun _ => rfl) fun r _ hp =>
          ⟨leased_alive hp, ?_⟩)
        simp [setFailed]
    | replay deliveryId now => exact hb.replay h
    | setStatus targetId status clock =>
      obtain rfl := serial_setStatus h
      exact hb.of_same rfl rfl fun r hr => ⟨r, hr, rfl, Iff.rfl⟩
  | direct x =>
    obtain ⟨locked, h⟩ := h
    rcases Direct.exec_cases h with ⟨now, lease, limit, token, rfl, rfl⟩ |
      ⟨events, deliveries, rfl, -, hnodup, -, hnew, rfl⟩ | ⟨t, rfl, -, -, -, -, -, rfl⟩ | ⟨cutoff,
       eventCutoff, rfl, rfl⟩
    · refine hb.of_same rfl rfl (update_same_death (fun _ => rfl) fun r hr hp =>
        ⟨fun hdead => ?_, ?_⟩)
      · obtain ⟨-, -, t, -, -, -, -, ⟨hnot, -⟩ | ⟨hnot, -⟩⟩ :=
          mem_candidates (Claimed.mem (of_decide_eq_true hp) hids hr)
        all_goals simp [hdead] at hnot
      · simp [setClaimed]
    · intro r hr
      rcases List.mem_append.mp hr with hr | hr
      · exact (hb r hr).congr rfl Iff.rfl (lastDeath_of_other (by rintro x ⟨⟩)) fun _ _ => Iff.rfl
      · -- a new delivery has no letter
        have hnone : ∀ l ∈ s.deadLetters, l.deliveryId ≠ r.id := by
          intro l hl hlid
          obtain ⟨r₀, hr₀, hid⟩ := howned l hl
          rw [List.map_append, List.nodup_append] at hnodup
          exact hnodup.2.2 _ (List.mem_map_of_mem hr₀) _ (List.mem_map_of_mem hr) (hid.trans hlid)
        have hpending : r.status ≠ .deadLetter := by
          rw [(hnew r hr).2]
          simp [newDelivery]
        exact ⟨iff_of_false hpending fun ⟨l, hl, hlid, _⟩ => hnone l hl hlid,
          fun l hl hlid => absurd hlid (hnone l hl)⟩
    · exact hb.of_same rfl rfl fun r hr => ⟨r, hr, rfl, Iff.rfl⟩
    · intro r hr
      obtain ⟨hr, hstays⟩ := mem_delete.mp hr
      refine (hb r hr).congr rfl Iff.rfl (lastDeath_of_other (by rintro x ⟨⟩)) fun l hlid => ?_
      refine ⟨fun hl => (mem_delete.mp hl).1, fun hl => mem_delete.mpr ⟨hl, ?_⟩⟩
      -- the delivery of the letter stays, so its letter does
      by_contra hgoes
      rw [Bool.not_eq_false, Bool.and_eq_true, List.any_eq_true] at hgoes
      obtain ⟨-, r₀, hr₀, hgoes⟩ := hgoes
      obtain ⟨hid, hgoes⟩ := Bool.and_eq_true_iff.mp hgoes
      obtain rfl := hids.eq_of_key hr₀ hr ((of_decide_eq_true hid).trans hlid)
      exact Bool.noConfusion (hstays.symm.trans hgoes)

theorem ids_reachable {xs : List (Transactions.Label Operation Direct)} {u : World}
    (h : Runs.Run Step start xs u) : Keyed WebhookDelivery.id u.store.deliveries :=
  serial_invariant (P := fun _ s => Keyed WebhookDelivery.id s.deliveries) (by simp)
    (fun _ _ _ _ hs he => serial_ids hs he) h

theorem lettersOwned_reachable {xs : List (Transactions.Label Operation Direct)} {u : World}
    (h : Runs.Run Step start xs u) : LettersOwned u.store :=
  serial_invariant (P := fun _ s => LettersOwned s) (by simp [LettersOwned])
    (fun _ _ _ _ hs he => serial_lettersOwned hs he) h

theorem Booked.step {xs : List (Transactions.Label Operation Direct)}
    {l : Transactions.Label Operation Direct} {u v : World} (h : Runs.Run Step start xs u)
    (hstep : Step u l v) (hb : Booked u.log u.store)
    (hfirst : ∀ e, v.log = u.log ++ [e] → ¬DiesAgain u.store e) : Booked v.log v.store := by
  rcases (step_spec (inv_run h inv_initial) hstep).2 with ⟨hstore, hlog⟩ | ⟨e, hlog, hserial⟩
  · rwa [hstore, hlog]
  · rw [hlog]
    exact (booked_step (ids_reachable h) (lettersOwned_reachable h) hb hserial).mpr (hfirst e hlog)

/-- Along every run, the dead letters are booked in all states reached if and only if no
delivery dies while a dead letter of an earlier death stands. -/
theorem dead_letters_booked_iff (ls : List (Transactions.Label Operation Direct)) :
    (∀ xs ys u, ls = xs ++ ys → Runs.Run Step start xs u → Booked u.log u.store) ↔
      ∀ xs l ys u v e, ls = xs ++ l :: ys → Runs.Run Step start xs u → Step u l v →
        v.log = u.log ++ [e] → ¬DiesAgain u.store e := by
  constructor
  · intro hbooked xs l ys u v e hls hrun hstep hlog
    have hu := hbooked xs (l :: ys) u hls hrun
    have hv := hbooked (xs ++ [l]) ys v (by simp [hls]) (hrun.snoc hstep)
    rw [hlog] at hv
    exact (booked_step (ids_reachable hrun) (lettersOwned_reachable hrun) hu
      (serial_of_log hrun hstep hlog)).mp hv
  · intro hfirst xs ys u hls hrun
    refine hrun.history (P := fun xs u => ∀ ys, ls = xs ++ ys → Booked u.log u.store) ?_ ?_ ys hls
    · intro _ _ r hr
      cases hr
    · intro xs u l v hxs ih hstep ys hls
      have hls' : ls = xs ++ l :: ys := by simp [hls]
      exact (ih (l :: ys) hls').step hxs hstep fun e => hfirst xs l ys u v e hls' hxs hstep

/-- The failure of a delivery that a first worker claimed is final, it is replayed, and a
second failure is final again. -/
def twoDeaths : List (Transactions.Label Operation Direct) :=
  [.direct (.createTarget sampleTarget), .direct (.publish [sampleEvent] [newDelivery 3 2 1 0]),
   .direct (.claim 0 30 20 10),
   .start 0 (.markFailed (sampleLease 10) 1 2 none "http_400" true none 20 1),
   .statement 0, .statement 0, .statement 0, .commit 0, .start 1 (.replay 3 3), .statement 1,
   .statement 1, .commit 1,
   .direct (.claim 4 30 20 11),
   .start 2 (.markFailed (sampleLease 11) 5 6 none "http_404" true none 21 5),
   .statement 2, .statement 2, .statement 2, .commit 2]

/-- After the second death the delivery is dead, and its only dead letter was replayed. -/
theorem second_death_unbooked : ∃ w, Runs.Run Step start twoDeaths w ∧ ¬Booked w.log w.store := by
  have hexec : (Runs.exec deliverySystem.step start twoDeaths).map (fun w =>
    decide (Booked w.log w.store)) =
      some false := by decide +kernel
  obtain ⟨w, hw, hbooked⟩ := Option.map_eq_some_iff.mp hexec
  exact ⟨w, Runs.exec_eq_some_iff.mp hw, of_decide_eq_false hbooked⟩

end Tenancit.Webhook
