import Tenancit.Webhook.Retention

/-!
What goes on beside a run of retention: completions, replays and claims that read the clock
after its cutoff. None of them makes a delivery one that is to be removed, and only a replay
takes one back.
-/
namespace Tenancit.Webhook

open Store Table Transactions Transactions.System RetentionWorld

/-- The reading of the clock that an entry writes to the deliveries it changes. -/
def moment : Entry Operation Direct → Option Timestamp
  | .tx (.markDelivered _ now _) => some now
  | .tx (.markFailed _ now _ _ _ _ _ _ _) => some now
  | .tx (.replay _ now) => some now
  | .direct (.claim now _ _ _) => some now
  | _ => none

/-- The operation replays one of the deliveries. -/
def Operation.Replays (ids : List UUID) : Operation → Prop
  | .replay deliveryId _ => deliveryId ∈ ids
  | _ => False

instance (ids : List UUID) (op : Operation) : Decidable (op.Replays ids) := by
  unfold Operation.Replays
  split <;> infer_instance

namespace Phase

/-- The deliveries whose letters the first statement has still to visit. -/
@[simp] def letterIds : Phase → List UUID
  | .deadLetters todo => todo.map fun x => x.1.deliveryId
  | _ => []

@[simp] def deliveryIds : Phase → List UUID
  | .deliveries todo => todo.map (·.id)
  | _ => []

@[simp] def eventIds : Phase → List UUID
  | .outbox todo => todo.map (·.id)
  | _ => []

@[simp] def stage : Phase → Nat
  | .begun => 0
  | .deadLetters _ => 1
  | .deadLettersDone => 2
  | .deliveries _ => 3
  | .deliveriesDone => 4
  | .outbox _ => 5
  | .outboxDone => 6

end Phase

namespace RetentionWorld

/-- While retention is open, the others read the clock after its cutoff. -/
def After (w : RetentionWorld) : Label → Prop
  | .other (.commit n) =>
    ∀ r ∈ w.run, ∀ t ∈ w.world.sessions n, ∀ now ∈ moment (.tx t.op), r.deliveryCutoff ≤ now
  | .other (.direct x) => ∀ r ∈ w.run, ∀ now ∈ moment (.direct x), r.deliveryCutoff ≤ now
  | _ => True

instance (w : RetentionWorld) (l : Label) : Decidable (After w l) := by
  unfold After
  split <;> infer_instance

/-- The step commits the replay of a delivery whose letter is selected and not yet visited. -/
def ReplaysSelected (w : RetentionWorld) : Label → Prop
  | .other (.commit n) => ∃ r ∈ w.run, ∃ t ∈ w.world.sessions n, t.op.Replays r.phase.letterIds
  | _ => False

instance (w : RetentionWorld) (l : Label) : Decidable (ReplaysSelected w l) := by
  unfold ReplaysSelected
  split <;> infer_instance

end RetentionWorld

variable {cutoff : Timestamp} {s s' : EventTables} {e : Entry Operation Direct} {id : UUID}

/-- A delivery that retention is to remove. -/
def RetiredAt (cutoff : Timestamp) (s : EventTables) (id : UUID) : Prop :=
  ∃ d ∈ s.deliveries, d.id = id ∧ Retired cutoff d

/-- What the entries of the others leave as it is for retention. -/
structure Leaves (cutoff : Timestamp) (s : EventTables) (s' : EventTables) : Prop where
  outbox : s'.outbox = s.outbox
  keys : s'.deliveries.map (fun d => (d.id, d.eventId)) = s.deliveries.map
    fun d => (d.id, d.eventId)
  /-- Nothing is over before the cutoff that was not. -/
  retired : ∀ d ∈ s'.deliveries, Retired cutoff d → d ∈ s.deliveries
  letters : ∀ l ∈ s'.deadLetters, (∃ l₀ ∈ s.deadLetters, l₀.deliveryId = l.deliveryId) ∨
    ∃ d ∈ s'.deliveries, d.id = l.deliveryId ∧ ¬Retired cutoff d
  lettersKept : ∀ l ∈ s.deadLetters, ∃ l' ∈ s'.deadLetters, l'.deliveryId = l.deliveryId
  letterIds : Keyed WebhookDeadLetter.deliveryId s.deadLetters →
    Keyed WebhookDeadLetter.deliveryId s'.deadLetters

/-- An entry that updates deliveries at a time after the cutoff, and leaves the letters. -/
theorem Leaves.of_update {p : WebhookDelivery → Bool} {f : WebhookDelivery → WebhookDelivery}
    (hdeliveries : s'.deliveries = update p f s.deliveries)
    (hkeys : ∀ d, ((f d).id, (f d).eventId) = (d.id, d.eventId))
    (hf : ∀ d, cutoff ≤ (f d).updatedAt) (houtbox : s'.outbox = s.outbox)
    (hletters : ∀ l ∈ s'.deadLetters, (∃ l₀ ∈ s.deadLetters, l₀.deliveryId = l.deliveryId) ∨
      ∃ d ∈ s'.deliveries, d.id = l.deliveryId ∧ ¬Retired cutoff d)
    (hkept : ∀ l ∈ s.deadLetters, ∃ l' ∈ s'.deadLetters, l'.deliveryId = l.deliveryId)
    (hletterIds : Keyed WebhookDeadLetter.deliveryId s.deadLetters →
      Keyed WebhookDeadLetter.deliveryId s'.deadLetters) :
    Leaves cutoff s s' where
  outbox := houtbox
  keys := by
    rw [hdeliveries]
    exact map_key_update fun d => hkeys d
  retired d' hd' hretired := by
    rw [hdeliveries] at hd'
    obtain ⟨d, hd, rfl⟩ := mem_update.mp hd'
    split at hretired
    next hp => exact absurd hretired.2 (Int.not_lt.mpr (hf d))
    next hp => rwa [if_neg hp]
  letters := hletters
  lettersKept := hkept
  letterIds := hletterIds

theorem serial_leaves {l : Transactions.Label Operation Direct} (hothers : Others l)
    (he : ∀ x, e = .direct x → l = .direct x) (hclock : ∀ now ∈ moment e, cutoff ≤ now)
    (h : deliverySystem.Serial s e s') : Leaves cutoff s s' := by
  have hsame : ∀ {s₁ : EventTables}, s₁.deadLetters = s.deadLetters → ∀ l ∈ s₁.deadLetters,
      (∃ l₀ ∈ s.deadLetters, l₀.deliveryId = l.deliveryId) ∨ ∃ d ∈ s₁.deliveries,
      d.id = l.deliveryId ∧ ¬Retired cutoff d :=
    fun hs l hl => .inl ⟨l, hs ▸ hl, rfl⟩
  cases e with
  | tx op => cases op with
    | markDelivered d now status =>
      obtain ⟨-, rfl⟩ := serial_markDelivered h
      exact .of_update rfl (fun _ => rfl) (fun _ => hclock now rfl) rfl (hsame rfl)
        (fun l hl => ⟨l, hl, rfl⟩) id
    | markFailed d now next status code dead openUntil letterId clock =>
      obtain ⟨hone, hdeliveries, -⟩ := serial_markFailed_tables h
      refine .of_update hdeliveries (fun _ => rfl) (fun _ => hclock now rfl) ?_ (fun l hl => ?_)
        (fun l hl => ⟨l, (mem_letters_markFailed h).mpr (.inl hl), rfl⟩) fun hkeyed => ?_
      · obtain ⟨-, rfl⟩ := serial_markFailed h
        cases dead with
        | false => rfl
        | true =>
          simp only [if_true, withDeadLetter]
          split <;> rfl
      · rcases (mem_letters_markFailed h).mp hl with hl | ⟨-, -, rfl⟩
        · exact .inl ⟨l, hl, rfl⟩
        -- the letter of the delivery that has just failed
        obtain ⟨r, hr, hleased⟩ := exists_leased hone
        refine .inr ⟨setFailed now next status code dead r, ?_, hleased.1, ?_⟩
        · rw [hdeliveries]
          exact mem_update.mpr ⟨r, hr, if_pos (decide_eq_true hleased)⟩
        · rintro ⟨-, hlt⟩
          exact absurd hlt (Int.not_lt.mpr (hclock now rfl))
      · obtain ⟨-, rfl⟩ := serial_markFailed h
        cases dead with
        | false => exact hkeyed
        | true =>
          simp only [if_true, withDeadLetter]
          split
          · exact hkeyed
          next hnone => exact hkeyed.append fun l hl => rowsAt_eq_nil.mp (not_not.mp hnone) l hl
    | replay deliveryId now =>
      obtain ⟨-, rfl⟩ := serial_replay h
      refine .of_update rfl (fun _ => rfl) (fun _ => hclock now rfl) rfl (fun l hl => ?_)
        (fun l hl => exists_mem_update (fun _ => rfl) ⟨l, hl, rfl⟩) fun hkeyed => ?_
      · obtain ⟨l₀, hl₀, rfl⟩ := mem_update.mp hl
        exact .inl ⟨l₀, hl₀, by split <;> rfl⟩
      · exact hkeyed.update fun _ => rfl
    | setStatus targetId status clock =>
      obtain rfl := serial_setStatus h
      exact ⟨rfl, rfl, fun _ hd _ => hd, hsame rfl, fun l hl => ⟨l, hl, rfl⟩, id⟩
  | direct x =>
    cases he x rfl
    obtain ⟨locked, h⟩ := h
    rcases Direct.exec_cases h with ⟨now, lease, limit, token, rfl, rfl⟩ | ⟨events, deliveries,
      rfl, -⟩ | ⟨t, rfl, -⟩ |
      ⟨deliveryCutoff, eventCutoff, rfl, -⟩
    · exact .of_update rfl (fun _ => rfl) (fun _ => hclock now rfl) rfl (hsame rfl)
        (fun l hl => ⟨l, hl, rfl⟩) id
    · cases hothers
    · cases hothers
    · cases hothers

namespace Leaves

variable (h : Leaves cutoff s s')
include h

theorem ids : s'.deliveries.map (·.id) = s.deliveries.map (·.id) := by
  simpa [Function.comp_def] using congrArg (List.map Prod.fst) h.keys

/-- The deliveries of an event are the same. -/
theorem mem_keys {d' : WebhookDelivery} (hd' : d' ∈ s'.deliveries) :
    ∃ d ∈ s.deliveries, d.id = d'.id ∧ d.eventId = d'.eventId := by
  have hmem := List.mem_map_of_mem (f := fun d : WebhookDelivery => (d.id, d.eventId)) hd'
  rw [h.keys] at hmem
  obtain ⟨d, hd, heq⟩ := List.mem_map.mp hmem
  exact ⟨d, hd, congrArg Prod.fst heq, congrArg Prod.snd heq⟩

theorem retiredAt (hid : RetiredAt cutoff s' id) : RetiredAt cutoff s id := by
  obtain ⟨d, hd, heq, hretired⟩ := hid
  exact ⟨d, h.retired d hd hretired, heq, hretired⟩

/-- A letter of a delivery that is to be removed is not new. -/
theorem letter (hids : Keyed WebhookDelivery.id s'.deliveries) {l : WebhookDeadLetter}
    (hl : l ∈ s'.deadLetters) (hid : RetiredAt cutoff s' l.deliveryId) :
    ∃ l₀ ∈ s.deadLetters, l₀.deliveryId = l.deliveryId := by
  obtain ⟨d, hd, heq, hretired⟩ := hid
  rcases h.letters l hl with hl | ⟨d', hd', heq', hnot⟩
  · exact hl
  · obtain rfl := hids.eq_of_key hd hd' (heq.trans heq'.symm)
    exact absurd hretired hnot

/-- The events that the deliveries still there refer to are the same. -/
theorem orphaned (r : Retention) (eventCutoff : Timestamp) (event : OutboxEvent) :
    Retention.orphaned eventCutoff (r.view s').deliveries event =
      Retention.orphaned eventCutoff (r.view s).deliveries event := by
  have hkeys : ∀ s : EventTables, ((r.view s).deliveries.any fun d => d.eventId = event.id) =
      (s.deliveries.map fun d => (d.id, d.eventId)).any fun k => !decide (k.1 ∈ r.deliveries) &&
        decide (k.2 = event.id) := by
    intro s
    simp [Retention.view, delete, List.any_filter, List.any_map, Function.comp_def]
  rw [Retention.orphaned, Retention.orphaned, hkeys s', hkeys s, h.keys]

end Leaves

/-- What is to be removed stays so, unless it is replayed. -/
theorem RetiredAt.serial (hid : RetiredAt cutoff s id) {l : Transactions.Label Operation Direct}
    (hothers : Others l) (he : ∀ x, e = .direct x → l = .direct x)
    (hids : Keyed WebhookDelivery.id s.deliveries) (h : deliverySystem.Serial s e s')
    (hreplay : ∀ now, e ≠ .tx (.replay id now)) :
    RetiredAt cutoff s' id := by
  obtain ⟨d, hd, rfl, hretired⟩ := hid
  have hretain : ∀ c c', e ≠ .direct (.retain c c') := by
    intro c c' hretain
    rw [he _ hretain] at hothers
    exact hothers
  refine ⟨d, ?_, rfl, hretired⟩
  rcases hretired.1 with hover | hover
  · rcases (serial_fenced hids h).delivered d hd hover with hd | ⟨c, c', hretain', -⟩
    · exact hd
    · exact absurd hretain' (hretain c c')
  · rcases (serial_fenced hids h).deadLetter d hd hover
      with hd | ⟨now, hreplay'⟩ | ⟨c, c', hretain', -⟩
    · exact hd
    · exact absurd hreplay' (hreplay now)
    · exact absurd hretain' (hretain c c')

theorem Referenced.leaves (h : Referenced s) (hleaves : Leaves cutoff s s')
    (hserial : deliverySystem.Serial s e s') : Referenced s' where
  events := hleaves.outbox ▸ h.events
  deliveries := serial_ids h.deliveries hserial
  letters := hleaves.letterIds h.letters
  lettersOwned := serial_lettersOwned h.lettersOwned hserial
  deliveriesOwned d' hd' := by
    obtain ⟨d, hd, -, hevent⟩ := hleaves.mem_keys hd'
    rw [hleaves.outbox, ← hevent]
    exact h.deliveriesOwned d hd

/-- What a step of the others does: it releases no lock of retention, and changes the store as
one entry does, where a transaction has locked the rows of all its statements. -/
structure OtherStep (w : World) (l : Transactions.Label Operation Direct) (w' : World) : Prop where
  others : Others l
  inv : Inv deliverySystem w'
  locks : ∀ k, (retention, k) ∈ w.locks → (retention, k) ∈ w'.locks
  store : w'.store = w.store ∨ ∃ e, deliverySystem.Serial w.store e w'.store ∧
    (∀ x, e = .direct x → l = .direct x) ∧
    ∀ op, e = .tx op → ∃ n t, l = .commit n ∧ w.sessions n = some t ∧ t.op = op ∧
      ∀ st ∈ op.program, ∀ k ∈ st.rows, (n, k) ∈ w.locks

namespace RetentionWorld

variable {w w' : RetentionWorld} {r r' : Retention}

theorem other_cases {l : Transactions.Label Operation Direct} (hinv : Inv deliverySystem w.world)
    (h : w.step (.other l) = some w') : w'.run = w.run ∧ OtherStep w.world l w'.world := by
  simp only [step, Option.ite_none_right_eq_some, Option.map_eq_some_iff] at h
  obtain ⟨hothers, u, hu, rfl⟩ := h
  have hsession : l.session ≠ some retention := by
    cases l with
    | direct x => simp [Transactions.Label.session]
    | start n op => exact hothers
    | statement n => exact hothers
    | commit n => exact hothers
    | abort n => exact hothers
  refine ⟨rfl, hothers, (step_spec hinv hu).1, fun k => step_locks hu hsession, ?_⟩
  cases step_effect hinv hu with
  | start => exact .inl rfl
  | statement hstore => exact .inl hstore
  | abort => exact .inl rfl
  | @direct x u hdirect => exact .inr ⟨.direct x, ⟨_, hdirect⟩, by simp, by simp⟩
  | @commit n op done x ht hserial =>
    have hprogram : done = op.program := by simpa [deliverySystem] using hinv.program n _ ht
    refine .inr ⟨.tx op, hserial, by simp, fun op' hop => ?_⟩
    cases hop
    refine ⟨n, _, rfl, ht, rfl, fun st hst k hk => hinv.locked n _ ht st ?_ k hk⟩
    exact hprogram.symm ▸ hst

theorem After.moment {l : Transactions.Label Operation Direct}
    (h : After w (.other l)) (hr : w.run = some r) (he : ∀ x, e = .direct x → l = .direct x)
    (htx : ∀ op, e = .tx op → ∃ n t, l = .commit n ∧ w.world.sessions n = some t ∧ t.op = op ∧
      ∀ st ∈ op.program, ∀ k ∈ st.rows, (n, k) ∈ w.world.locks) :
      ∀ now ∈ moment e, r.deliveryCutoff ≤ now := by
  cases e with
  | direct x =>
    cases he x rfl
    exact h r hr
  | tx op =>
    obtain ⟨n, t, rfl, ht, rfl, -⟩ := htx op rfl
    exact h r hr t ht

end RetentionWorld

end Tenancit.Webhook
