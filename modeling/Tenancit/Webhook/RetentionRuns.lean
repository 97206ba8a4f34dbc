import Tenancit.Webhook.RetentionBeside

/-!
An open run of retention: what its statements have deleted and what they have still to visit
make up what is to be removed, whatever the others do in the meantime.
-/
namespace Tenancit.Webhook

open Store Table Transactions Transactions.System RetentionWorld

variable {cutoff : Timestamp} {s s' : EventTables} {e : Entry Operation Direct} {id : UUID}

/-- What holds while a run of retention is open. The rows that it has deleted are locked by it;
what the statements begun are to delete is deleted or still to be visited. -/
structure RunInv (r : Retention) (w : World) : Prop where
  heldLetters : ∀ id ∈ r.deadLetters, (retention, .deadLetter id) ∈ w.locks
  heldDeliveries : ∀ id ∈ r.deliveries, (retention, .delivery id) ∈ w.locks
  noEvents : r.phase.stage < 5 → r.events = []
  selected : ∀ todo, r.phase = .deadLetters todo → ∀ x ∈ todo,
    Retention.joined r.deliveryCutoff x.1 x.2 = true
  stands : ∀ id ∈ r.phase.letterIds, ∃ l ∈ w.store.deadLetters, l.deliveryId = id
  taken : ∀ id ∈ r.deliveries, RetiredAt r.deliveryCutoff w.store id
  letters : 1 ≤ r.phase.stage → ∀ l ∈ w.store.deadLetters,
    RetiredAt r.deliveryCutoff w.store l.deliveryId →
    l.deliveryId ∈ r.phase.letterIds ∨ l.deliveryId ∈ r.deadLetters
  deliveries : 3 ≤ r.phase.stage → ∀ id, RetiredAt r.deliveryCutoff w.store id →
    id ∈ r.phase.deliveryIds ∨ id ∈ r.deliveries
  events : 5 ≤ r.phase.stage → ∀ e ∈ w.store.outbox,
    Retention.orphaned r.eventCutoff (r.view w.store).deliveries e = true ↔
    e.id ∈ r.phase.eventIds ∨ e.id ∈ r.events

/-- The letters that are deleted or to be visited are those of deliveries that are to be removed. -/
def LettersDue (r : Retention) (s : EventTables) : Prop :=
  ∀ id, id ∈ r.phase.letterIds ∨ id ∈ r.deadLetters → RetiredAt r.deliveryCutoff s id

section others

variable {w w' : World} {r : Retention} {l : Transactions.Label Operation Direct}

/-- A replay that is committed has locked the delivery and its letter. -/
theorem replay_locks {n : Nat} {now : Timestamp}
    (h : ∀ st ∈ (Operation.replay id now).program, ∀ k ∈ st.rows, (n, k) ∈ w.locks) :
    (n, .delivery id) ∈ w.locks ∧ (n, .deadLetter id) ∈ w.locks :=
  ⟨h _ (.head _) _ (.head _), h _ (.tail _ (.head _)) _ (.head _)⟩

theorem OtherStep.ne_retention {n : Nat} (h : OtherStep w (.commit n) w') : retention ≠ n :=
  fun heq => h.others (heq ▸ rfl)

/-- Where the store is left as the others leave it, and no lock of retention is lost. -/
theorem RunInv.of_leaves (h : RunInv r w) (hids : Keyed WebhookDelivery.id w'.store.deliveries)
    (hleaves : Leaves r.deliveryCutoff w.store w'.store)
    (hlocks : ∀ k, (retention, k) ∈ w.locks → (retention, k) ∈ w'.locks)
    (htaken : ∀ id ∈ r.deliveries, RetiredAt r.deliveryCutoff w'.store id) : RunInv r w' where
  heldLetters id hid := hlocks _ (h.heldLetters id hid)
  heldDeliveries id hid := hlocks _ (h.heldDeliveries id hid)
  noEvents := h.noEvents
  selected := h.selected
  stands id hid := by
    obtain ⟨l, hl, rfl⟩ := h.stands id hid
    exact hleaves.lettersKept l hl
  taken := htaken
  letters hstage l hl hid := by
    obtain ⟨l₀, hl₀, heq⟩ := hleaves.letter hids hl hid
    rw [← heq] at hid ⊢
    exact h.letters hstage l₀ hl₀ (hleaves.retiredAt hid)
  deliveries hstage id hid := h.deliveries hstage id (hleaves.retiredAt hid)
  events hstage event hevent := by
    rw [hleaves.orphaned]
    exact h.events hstage event (hleaves.outbox ▸ hevent)

theorem Leaves.refl (cutoff : Timestamp) (s : EventTables) : Leaves cutoff s s :=
  ⟨rfl, rfl, fun _ hd _ => hd, fun l hl => .inl ⟨l, hl, rfl⟩, fun l hl => ⟨l, hl, rfl⟩, fun h => h⟩

/-- A run goes on beside a step of the others. -/
theorem RunInv.other (h : RunInv r w) (hinv : Inv deliverySystem w) (hrefs : Referenced w.store)
    (hstep : OtherStep w l w')
    (hclock : ∀ e, (∀ x, e = .direct x → l = .direct x) → (∀ op, e = .tx op → ∃ n t, l = .commit n ∧
      w.sessions n = some t ∧ t.op = op ∧ ∀ st ∈ op.program, ∀ k ∈ st.rows, (n, k) ∈ w.locks) →
      ∀ now ∈ moment e, r.deliveryCutoff ≤ now) : RunInv r w' := by
  rcases hstep.store with hstore | ⟨e, hserial, he, htx⟩
  · refine h.of_leaves (hstore ▸ hrefs.deliveries) (hstore ▸ .refl _ _) hstep.locks ?_
    rw [hstore]
    exact h.taken
  · have hleaves := serial_leaves hstep.others he (hclock e he htx) hserial
    refine h.of_leaves (serial_ids hrefs.deliveries hserial) hleaves hstep.locks fun id hid => ?_
    refine (h.taken id hid).serial hstep.others he hrefs.deliveries hserial ?_
    -- who replays the delivery would have it locked
    rintro now rfl
    obtain ⟨n, t, rfl, -, -, hlocked⟩ := htx _ rfl
    exact hstep.ne_retention (hinv.exclusive _ (h.heldDeliveries id hid) _
      (replay_locks hlocked).1 rfl)

theorem LettersDue.other (h : LettersDue r w.store) (hrun : RunInv r w)
    (hinv : Inv deliverySystem w) (hrefs : Referenced w.store) (hstep : OtherStep w l w')
    (hreplay : ∀ n t, l = .commit n → w.sessions n = some t → ¬t.op.Replays r.phase.letterIds) :
    LettersDue r w'.store := by
  rcases hstep.store with hstore | ⟨e, hserial, he, htx⟩
  · rwa [hstore]
  · intro id hid
    refine (h id hid).serial hstep.others he hrefs.deliveries hserial ?_
    rintro now rfl
    obtain ⟨n, t, rfl, ht, hop, hlocked⟩ := htx _ rfl
    rcases hid with hid | hid
    · refine hreplay n t rfl ht ?_
      rw [hop]
      exact hid
    · exact hstep.ne_retention (hinv.exclusive _ (hrun.heldLetters id hid) _
        (replay_locks hlocked).2 rfl)

end others

section own

variable {w : World} {r r' : Retention}

/-- A selected letter goes if it still stands: the delivery that is looked at is the one
selected. -/
theorem letter_goes {x : WebhookDeadLetter × WebhookDelivery}
    (hx : Retention.joined cutoff x.1 x.2 = true) :
    (rowsAt WebhookDeadLetter.deliveryId x.1.deliveryId s.deadLetters).any
      (Retention.joined cutoff · x.2) = true ↔
      ∃ l ∈ s.deadLetters, l.deliveryId = x.1.deliveryId := by
  rw [List.any_eq_true]
  constructor
  · rintro ⟨l, hl, -⟩
    exact ⟨l, mem_rowsAt.mp hl⟩
  · rintro ⟨l, hl, hid⟩
    refine ⟨l, mem_rowsAt.mpr ⟨hl, hid⟩, ?_⟩
    rwa [Retention.joined, hid]

theorem delivery_goes :
    ((rowsAt WebhookDelivery.id id s.deliveries).any fun d => Retired cutoff d) = true ↔
    RetiredAt cutoff s id := by
  simp [RetiredAt, and_assoc]

namespace Retention

/-- A statement begins, with the rows that it selects. -/
inductive Selects (r : Retention) (s : EventTables) : Retention → Prop
  | deadLetters (hphase : r.phase = .begun) : Selects r s { r with
    phase := .deadLetters (s.deadLetters.flatMap fun l =>
      (s.deliveries.filter (joined r.deliveryCutoff l)).map fun d => (l, d)) }
  | deliveries (hphase : r.phase = .deadLettersDone) :
      Selects r s { r with
        phase := .deliveries (s.deliveries.filter fun d => Retired r.deliveryCutoff d) }
  | outbox (hphase : r.phase = .deliveriesDone) :
      Selects r s { r with
        phase := .outbox (s.outbox.filter (orphaned r.eventCutoff (r.view s).deliveries)) }

theorem select_cases (h : r.select s = some r') : r.Selects s r' := by
  unfold select at h
  split at h
  next hphase =>
    cases h
    exact .deadLetters hphase
  next hphase =>
    cases h
    exact .deliveries hphase
  next hphase =>
    cases h
    exact .outbox hphase
  next => cases h

/-- A selected row is locked and goes, or is let be. -/
inductive Visits (r : Retention) (s : EventTables) (i : Nat) : List RowKey → Retention → Prop
  | letterGoes {todo : List (WebhookDeadLetter × WebhookDelivery)}
      {x : WebhookDeadLetter × WebhookDelivery}
      (hphase : r.phase = .deadLetters todo) (hx : todo[i]? = some x)
      (hgoes : (rowsAt WebhookDeadLetter.deliveryId x.1.deliveryId s.deadLetters).any
        (joined r.deliveryCutoff · x.2)) :
      Visits r s i [.deadLetter x.1.deliveryId]
        { r with
          phase := .deadLetters (todo.eraseIdx i), deadLetters := x.1.deliveryId :: r.deadLetters }
  | letterStays {todo : List (WebhookDeadLetter × WebhookDelivery)}
      {x : WebhookDeadLetter × WebhookDelivery}
      (hphase : r.phase = .deadLetters todo) (hx : todo[i]? = some x)
      (hstays : ¬(rowsAt WebhookDeadLetter.deliveryId x.1.deliveryId s.deadLetters).any
        (joined r.deliveryCutoff · x.2)) :
      Visits r s i [.deadLetter x.1.deliveryId] { r with phase := .deadLetters (todo.eraseIdx i) }
  | deliveryGoes {todo : List WebhookDelivery} {d : WebhookDelivery}
      (hphase : r.phase = .deliveries todo)
      (hd : todo[i]? = some d) (hgoes : RetiredAt r.deliveryCutoff s d.id) :
      Visits r s i [.delivery d.id]
        { r with phase := .deliveries (todo.eraseIdx i), deliveries := d.id :: r.deliveries }
  | deliveryStays {todo : List WebhookDelivery} {d : WebhookDelivery}
      (hphase : r.phase = .deliveries todo)
      (hd : todo[i]? = some d) (hstays : ¬RetiredAt r.deliveryCutoff s d.id) :
      Visits r s i [.delivery d.id] { r with phase := .deliveries (todo.eraseIdx i) }
  | event {todo : List OutboxEvent} {event : OutboxEvent} (hphase : r.phase = .outbox todo)
      (hevent : todo[i]? = some event) :
      Visits r s i [] { r with phase := .outbox (todo.eraseIdx i), events := event.id :: r.events }

theorem visit_cases {i : Nat} {keys : List RowKey} (h : r.visit s i = some (keys, r')) :
    r.Visits s i keys r' := by
  unfold visit at h
  split at h
  next todo hphase =>
    obtain ⟨x, hx, heq⟩ := Option.map_eq_some_iff.mp h
    obtain ⟨rfl, rfl⟩ := Prod.mk.inj heq
    split
    next hgoes => exact .letterGoes hphase hx hgoes
    next hstays => exact .letterStays hphase hx hstays
  next todo hphase =>
    obtain ⟨d, hd, heq⟩ := Option.map_eq_some_iff.mp h
    obtain ⟨rfl, rfl⟩ := Prod.mk.inj heq
    split
    next hgoes => exact .deliveryGoes hphase hd (delivery_goes.mp hgoes)
    next hstays => exact .deliveryStays hphase hd (mt delivery_goes.mpr hstays)
  next todo hphase =>
    obtain ⟨event, hevent, heq⟩ := Option.map_eq_some_iff.mp h
    cases heq
    exact .event hphase hevent
  next => cases h

/-- A statement has visited all its rows. -/
inductive Finishes (r : Retention) : Retention → Prop
  | deadLetters (hphase : r.phase = .deadLetters []) :
      Finishes r { r with phase := .deadLettersDone }
  | deliveries (hphase : r.phase = .deliveries []) : Finishes r { r with phase := .deliveriesDone }
  | outbox (hphase : r.phase = .outbox []) : Finishes r { r with phase := .outboxDone }

theorem finish_cases (h : r.finish s = some (.ok r')) : r.Finishes r' := by
  unfold finish at h
  split at h
  next hphase =>
    cases h
    exact .deadLetters hphase
  next hphase =>
    split at h <;> cases h
    exact .deliveries hphase
  next hphase =>
    split at h <;> cases h
    exact .outbox hphase
  next => cases h

end Retention

/-- The elements of a list are the one at a place and the others. -/
theorem mem_iff_eraseIdx {α : Type*} {xs : List α} {i : Nat} {x y : α} (h : xs[i]? = some x) :
    y ∈ xs ↔ y = x ∨ y ∈ xs.eraseIdx i := by
  obtain ⟨hi, rfl⟩ := List.getElem?_eq_some_iff.mp h
  rw [← List.mem_cons]
  exact (List.getElem_cons_eraseIdx_perm hi).symm.mem_iff

theorem RunInv.select (h : RunInv r w) (hrefs : Referenced w.store)
    (hselect : r.select w.store = some r') : RunInv r' w := by
  cases Retention.select_cases hselect with
  | deadLetters hphase =>
    refine { h with
      noEvents := fun _ => h.noEvents (by simp [hphase]), selected := ?_, stands := ?_,
      letters := ?_, deliveries := fun hstage => by simp at hstage,
      events := fun hstage => by simp at hstage }
    · rintro _ ⟨⟩ x hx
      obtain ⟨l, -, hx⟩ := List.mem_flatMap.mp hx
      obtain ⟨d, hd, rfl⟩ := List.mem_map.mp hx
      exact (List.mem_filter.mp hd).2
    · intro id hid
      obtain ⟨x, hx, rfl⟩ := List.mem_map.mp hid
      obtain ⟨l, hl, hx⟩ := List.mem_flatMap.mp hx
      obtain ⟨d, -, rfl⟩ := List.mem_map.mp hx
      exact ⟨l, hl, rfl⟩
    · rintro - l hl ⟨d, hd, hid, hretired⟩
      refine .inl (List.mem_map.mpr ⟨(l, d),
        List.mem_flatMap.mpr ⟨l, hl, List.mem_map.mpr ⟨d, ?_, rfl⟩⟩, rfl⟩)
      exact List.mem_filter.mpr ⟨hd, by simp [Retention.joined, hid, hretired]⟩
  | deliveries hphase =>
    refine { h with
      noEvents := fun _ => h.noEvents (by simp [hphase]), selected := nofun, stands := nofun,
      letters := fun _ => ?_, deliveries := ?_, events := fun hstage => by simp at hstage }
    · simpa [hphase] using h.letters
    · rintro - id ⟨d, hd, rfl, hretired⟩
      exact .inl (List.mem_map.mpr ⟨d, List.mem_filter.mpr ⟨hd, decide_eq_true hretired⟩, rfl⟩)
  | outbox hphase =>
    have hnone : r.events = [] := h.noEvents (by simp [hphase])
    refine { h with noEvents := fun hstage => by simp at hstage, selected := nofun, stands := nofun,
                    letters := fun _ => ?_, deliveries := fun _ => ?_, events := fun _ e he => ?_ }
    · simpa [hphase] using h.letters
    · simpa [hphase] using h.deliveries
    · show _ ↔ e.id ∈ List.map _ _ ∨ e.id ∈ r.events
      rw [hnone, or_iff_left (List.not_mem_nil), List.mem_map]
      constructor
      · exact fun horphaned => ⟨e, List.mem_filter.mpr ⟨he, horphaned⟩, rfl⟩
      · rintro ⟨e', he', hid⟩
        obtain ⟨he', horphaned⟩ := List.mem_filter.mp he'
        obtain rfl := hrefs.events.eq_of_key he' he hid
        exact horphaned

/-- The first statement has come to a letter. -/
theorem RunInv.visit_letter {todo rest : List (WebhookDeadLetter × WebhookDelivery)}
    {ids : List UUID} (h : RunInv r w) {x : WebhookDeadLetter × WebhookDelivery}
    (hphase : r.phase = .deadLetters todo) (hmem : ∀ y, y ∈ todo ↔ y = x ∨ y ∈ rest)
    (hkept : ∀ id ∈ r.deadLetters, id ∈ ids)
    (hnew : ∀ id ∈ ids, id = x.1.deliveryId ∨ id ∈ r.deadLetters)
    (hgone : (∃ l ∈ w.store.deadLetters, l.deliveryId = x.1.deliveryId) → x.1.deliveryId ∈ ids) :
    RunInv { r with phase := .deadLetters rest, deadLetters := ids }
      { w with locks := Locks.acquire w.locks retention [.deadLetter x.1.deliveryId] } where
  heldLetters id hid := by
    rcases hnew id hid with rfl | hid
    · exact Locks.mem_acquire.mpr (.inr ⟨rfl, .head _⟩)
    · exact Locks.mem_acquire.mpr (.inl (h.heldLetters id hid))
  heldDeliveries id hid := Locks.mem_acquire.mpr (.inl (h.heldDeliveries id hid))
  noEvents _ := h.noEvents (by simp [hphase])
  selected := by
    rintro _ ⟨⟩ y hy
    exact h.selected todo hphase y ((hmem y).mpr (.inr hy))
  stands id hid := by
    obtain ⟨y, hy, rfl⟩ := List.mem_map.mp hid
    exact h.stands _ (hphase ▸ List.mem_map.mpr ⟨y, (hmem y).mpr (.inr hy), rfl⟩)
  taken := h.taken
  letters _ l hl hid := by
    rcases h.letters (by simp [hphase]) l hl hid with hid | hid
    · rw [hphase] at hid
      obtain ⟨y, hy, heq⟩ := List.mem_map.mp hid
      rcases (hmem y).mp hy with rfl | hy
      · exact .inr (heq ▸ hgone ⟨l, hl, heq.symm⟩)
      · exact .inl (List.mem_map.mpr ⟨y, hy, heq⟩)
    · exact .inr (hkept _ hid)
  deliveries hstage := by simp at hstage
  events hstage := by simp at hstage

theorem RunInv.visit_delivery {todo rest : List WebhookDelivery} {ids : List UUID} (h : RunInv r w)
    {x : WebhookDelivery} (hphase : r.phase = .deliveries todo)
    (hmem : ∀ y, y ∈ todo ↔ y = x ∨ y ∈ rest) (hkept : ∀ id ∈ r.deliveries, id ∈ ids)
    (hnew : ∀ id ∈ ids, id = x.id ∧ RetiredAt r.deliveryCutoff w.store x.id ∨ id ∈ r.deliveries)
    (hgone : RetiredAt r.deliveryCutoff w.store x.id → x.id ∈ ids) :
    RunInv { r with phase := .deliveries rest, deliveries := ids }
      { w with locks := Locks.acquire w.locks retention [.delivery x.id] } where
  heldLetters id hid := Locks.mem_acquire.mpr (.inl (h.heldLetters id hid))
  heldDeliveries id hid := by
    rcases hnew id hid with ⟨rfl, -⟩ | hid
    · exact Locks.mem_acquire.mpr (.inr ⟨rfl, .head _⟩)
    · exact Locks.mem_acquire.mpr (.inl (h.heldDeliveries id hid))
  noEvents _ := h.noEvents (by simp [hphase])
  selected := nofun
  stands := nofun
  taken id hid := by
    rcases hnew id hid with ⟨rfl, hretired⟩ | hid
    · exact hretired
    · exact h.taken id hid
  letters _ := by simpa [hphase] using h.letters
  deliveries _ id hid := by
    rcases h.deliveries (by simp [hphase]) id hid with hmem' | hdone
    · rw [hphase] at hmem'
      obtain ⟨y, hy, rfl⟩ := List.mem_map.mp hmem'
      rcases (hmem y).mp hy with rfl | hy
      · exact .inr (hgone hid)
      · exact .inl (List.mem_map.mpr ⟨y, hy, rfl⟩)
    · exact .inr (hkept id hdone)
  events hstage := by simp at hstage

theorem RunInv.visit_event {todo rest : List OutboxEvent} (h : RunInv r w) {x : OutboxEvent}
    (hphase : r.phase = .outbox todo) (hmem : ∀ y, y ∈ todo ↔ y = x ∨ y ∈ rest) :
    RunInv { r with phase := .outbox rest, events := x.id :: r.events }
      { w with locks := Locks.acquire w.locks retention [] } where
  heldLetters id hid := Locks.mem_acquire.mpr (.inl (h.heldLetters id hid))
  heldDeliveries id hid := Locks.mem_acquire.mpr (.inl (h.heldDeliveries id hid))
  noEvents hstage := by simp at hstage
  selected := nofun
  stands := nofun
  taken := h.taken
  letters _ := by simpa [hphase] using h.letters
  deliveries _ := by simpa [hphase] using h.deliveries
  events _ e he := by
    refine (h.events (by simp [hphase]) e he).trans ?_
    simp only [hphase, Phase.eventIds, List.mem_map, hmem, List.mem_cons]
    constructor
    · rintro (⟨y, rfl | hy, hid⟩ | hid)
      · exact .inr (.inl hid.symm)
      · exact .inl ⟨y, hy, hid⟩
      · exact .inr (.inr hid)
    · rintro (⟨y, hy, hid⟩ | hid | hid)
      · exact .inl ⟨y, .inr hy, hid⟩
      · exact .inl ⟨x, .inl rfl, hid.symm⟩
      · exact .inr hid

theorem RunInv.visit (h : RunInv r w) {i : Nat} {keys : List RowKey}
    (hvisit : r.visit w.store i = some (keys, r')) :
    RunInv r' { w with locks := Locks.acquire w.locks retention keys } := by
  cases Retention.visit_cases hvisit with
  | letterGoes hphase hx =>
    exact h.visit_letter hphase (fun y => mem_iff_eraseIdx hx) (fun _ => List.mem_cons_of_mem _)
      (fun _ => List.mem_cons.mp) fun _ => .head _
  | letterStays hphase hx hstays =>
    have hjoined := h.selected _ hphase _ (List.mem_of_getElem? hx)
    exact h.visit_letter hphase (fun y => mem_iff_eraseIdx hx) (fun _ => id)
      (fun _ => .inr) fun hgone =>
      absurd ((letter_goes hjoined).mpr hgone) hstays
  | deliveryGoes hphase hd hgoes =>
    refine h.visit_delivery hphase (fun y => mem_iff_eraseIdx hd)
      (fun _ => List.mem_cons_of_mem _) (fun id hid => ?_)
      fun _ => .head _
    exact (List.mem_cons.mp hid).imp_left fun heq => ⟨heq, hgoes⟩
  | deliveryStays hphase hd hstays =>
    exact h.visit_delivery hphase (fun y => mem_iff_eraseIdx hd) (fun _ => id)
      (fun _ => .inr) fun hretired =>
      absurd hretired hstays
  | event hphase hevent => exact h.visit_event hphase fun y => mem_iff_eraseIdx hevent

theorem RunInv.finish (h : RunInv r w) (hfinish : r.finish w.store = some (.ok r')) :
    RunInv r' w := by
  cases Retention.finish_cases hfinish with
  | deadLetters hphase =>
    refine { h with
      noEvents := fun _ => h.noEvents (by simp [hphase]), selected := nofun, stands := nofun,
      letters := fun _ => ?_, deliveries := fun hstage => by simp at hstage,
      events := fun hstage => by simp at hstage }
    simpa [hphase] using h.letters
  | deliveries hphase =>
    refine { h with
      noEvents := fun _ => h.noEvents (by simp [hphase]), selected := nofun, stands := nofun,
      letters := fun _ => ?_, deliveries := fun _ => ?_, events := fun hstage => by simp at hstage }
    · simpa [hphase] using h.letters
    · simpa [hphase] using h.deliveries
  | outbox hphase =>
    refine { h with
      noEvents := fun hstage => by simp at hstage, selected := nofun, stands := nofun,
      letters := fun _ => ?_, deliveries := fun _ => ?_, events := fun _ => ?_ }
    · simpa [hphase] using h.letters
    · simpa [hphase] using h.deliveries
    · have hevents := h.events (by simp [hphase])
      rw [hphase] at hevents
      exact hevents

/-- Once the letters are gone, no letter refers to a delivery that the run has deleted. -/
theorem RunInv.no_letter (h : RunInv r w) (hstage : 2 ≤ r.phase.stage) :
    ∀ l ∈ (r.view w.store).deadLetters, l.deliveryId ∉ r.deliveries := by
  intro l hl hid
  obtain ⟨hl, hkept⟩ := mem_delete.mp hl
  have hnone : r.phase.letterIds = [] := by
    cases hphase : r.phase <;> simp [hphase] at hstage ⊢
  have hmem := h.letters (by omega) l hl (h.taken _ hid)
  rw [hnone, or_iff_right List.not_mem_nil] at hmem
  exact of_decide_eq_false hkept hmem

/-- Once the events are selected, no delivery that stays refers to one that the run has deleted. -/
theorem RunInv.no_delivery (h : RunInv r w) (hrefs : Referenced w.store)
    (hstage : 5 ≤ r.phase.stage) : ∀ d ∈ (r.view w.store).deliveries, d.eventId ∉ r.events := by
  intro d hd hid
  obtain ⟨e, he, heq⟩ := hrefs.deliveriesOwned d (mem_delete.mp hd).1
  have horphaned := (h.events hstage e he).mpr (.inr (heq ▸ hid))
  have hany : ((r.view w.store).deliveries.any fun d => d.eventId = e.id) = true :=
    List.any_eq_true.mpr ⟨d, hd, decide_eq_true heq.symm⟩
  rw [Retention.orphaned, hany, Bool.not_true, Bool.and_false] at horphaned
  cases horphaned

/-- No statement fails for a reference that would be left. -/
theorem RunInv.finish_ok (h : RunInv r w) (hrefs : Referenced w.store)
    {x : Except PgError Retention} (hfinish : r.finish w.store = some x) : ∃ r', x = .ok r' := by
  unfold Retention.finish at hfinish
  split at hfinish
  next hphase =>
    cases hfinish
    exact ⟨_, rfl⟩
  next hphase =>
    rw [if_neg fun ⟨l, hl, hid⟩ => h.no_letter (by simp [hphase]) l hl hid] at hfinish
    cases hfinish
    exact ⟨_, rfl⟩
  next hphase =>
    rw [if_neg fun ⟨d, hd, hid⟩ => h.no_delivery hrefs (by simp [hphase]) d hd hid] at hfinish
    cases hfinish
    exact ⟨_, rfl⟩
  next => cases hfinish

/-- A row that somebody else has locked is not touched by what a run deletes. -/
theorem RunInv.view_row (h : RunInv r w) (hinv : Inv deliverySystem w) {n : Nat} {k : RowKey}
    (hn : n ≠ retention) (hk : (n, k) ∈ w.locks) : row (r.view w.store) k = row w.store k := by
  have hother : (retention, k) ∉ w.locks := fun hk' => hn (hinv.exclusive _ hk _ hk' rfl)
  cases k with
  | target id => rfl
  | delivery id =>
    refine delivery_row_eq.mpr (rowsAt_delete_of_not fun d _ hid =>
      decide_eq_false fun hmem => hother ?_)
    exact hid ▸ h.heldDeliveries _ hmem
  | deadLetter id =>
    refine deadLetter_row_eq.mpr (rowsAt_delete_of_not fun l _ hid =>
      decide_eq_false fun hmem => hother ?_)
    exact hid ▸ h.heldLetters _ hmem

theorem RunInv.commit (h : RunInv r w) (hinv : Inv deliverySystem w) :
    Inv deliverySystem { close w retention with store := r.view w.store } :=
  (hinv.close retention).change fun _ _ hk =>
    h.view_row hinv (Locks.mem_release.mp hk).2 (Locks.mem_release.mp hk).1

/-- The deliveries that a complete run has deleted are those that are over and old. -/
theorem RunInv.mem_deliveries (h : RunInv r w) (hrefs : Referenced w.store)
    (hphase : r.phase = .outboxDone) {d : WebhookDelivery} (hd : d ∈ w.store.deliveries) :
    d.id ∈ r.deliveries ↔ Retired r.deliveryCutoff d := by
  constructor
  · intro hid
    obtain ⟨d', hd', heq, hretired⟩ := h.taken _ hid
    obtain rfl := hrefs.deliveries.eq_of_key hd' hd heq
    exact hretired
  · intro hretired
    have hdone := h.deliveries (by simp [hphase]) d.id ⟨d, hd, rfl, hretired⟩
    simpa [hphase] using hdone

/-- The tables that a complete run leaves refer to nothing that is gone. -/
theorem RunInv.referenced (h : RunInv r w) (hrefs : Referenced w.store)
    (hphase : r.phase = .outboxDone) : Referenced (r.view w.store) where
  events := hrefs.events.delete
  deliveries := hrefs.deliveries.delete
  letters := hrefs.letters.delete
  lettersOwned l hl := by
    obtain ⟨d, hd, hid⟩ := hrefs.lettersOwned l (mem_delete.mp hl).1
    refine ⟨d, mem_delete.mpr ⟨hd, decide_eq_false ?_⟩, hid⟩
    rw [hid]
    exact h.no_letter (by simp [hphase]) l hl
  deliveriesOwned d hd := by
    obtain ⟨e, he, heq⟩ := hrefs.deliveriesOwned d (mem_delete.mp hd).1
    refine ⟨e, mem_delete.mpr ⟨he, decide_eq_false ?_⟩, heq⟩
    rw [heq]
    exact h.no_delivery hrefs (by simp [hphase]) d hd

theorem RunInv.view_deliveries (h : RunInv r w) (hrefs : Referenced w.store)
    (hphase : r.phase = .outboxDone) :
    (r.view w.store).deliveries = delete (fun d => Retired r.deliveryCutoff d) w.store.deliveries :=
  delete_congr fun d hd => by simpa using h.mem_deliveries hrefs hphase hd

theorem RunInv.view_outbox (h : RunInv r w) (hphase : r.phase = .outboxDone) :
    (r.view w.store).outbox =
      delete (Retention.orphaned r.eventCutoff (r.view w.store).deliveries) w.store.outbox := by
  refine delete_congr fun e he => ?_
  have hevent := h.events (by simp [hphase]) e he
  simp only [hphase, Phase.eventIds, List.not_mem_nil, false_or] at hevent
  exact decide_eq_true_iff.trans hevent.symm

/-- A complete run is exact where the letters it has deleted are those of the deliveries that go. -/
theorem RunInv.removes (h : RunInv r w) (hrefs : Referenced w.store) (hdue : LettersDue r w.store)
    (hphase : r.phase = .outboxDone) :
    RemovesExactly r.deliveryCutoff r.eventCutoff w.store (r.view w.store) where
  deliveries := h.view_deliveries hrefs hphase
  outbox := h.view_outbox hphase
  targets := rfl
  audit := rfl
  deadLetters := by
    refine delete_congr fun l hl => ?_
    rw [decide_eq_true_iff, List.any_eq_true]
    constructor
    · intro hid
      obtain ⟨d, hd, heq, hretired⟩ := hdue _ (.inr hid)
      exact ⟨d, hd, by simp [Retention.joined, heq, hretired]⟩
    · rintro ⟨d, hd, hjoined⟩
      obtain ⟨heq, hretired⟩ := Bool.and_eq_true_iff.mp hjoined
      have hdone :=
        h.letters (by simp [hphase]) l hl ⟨d, hd, (of_decide_eq_true heq).symm,
          of_decide_eq_true hretired⟩
      simpa [hphase] using hdone

theorem LettersDue.mono (h : LettersDue r s) (hcutoff : r'.deliveryCutoff = r.deliveryCutoff)
    (hsub : ∀ id, id ∈ r'.phase.letterIds ∨ id ∈ r'.deadLetters →
      id ∈ r.phase.letterIds ∨ id ∈ r.deadLetters) :
    LettersDue r' s :=
  fun id hid => hcutoff ▸ h id (hsub id hid)

theorem LettersDue.select (h : LettersDue r w.store) (hselect : r.select w.store = some r') :
    LettersDue r' w.store := by
  cases Retention.select_cases hselect with
  | deadLetters hphase =>
    rintro id (hid | hid)
    · obtain ⟨x, hx, rfl⟩ := List.mem_map.mp hid
      obtain ⟨l, -, hx⟩ := List.mem_flatMap.mp hx
      obtain ⟨d, hd, rfl⟩ := List.mem_map.mp hx
      obtain ⟨hd, hjoined⟩ := List.mem_filter.mp hd
      obtain ⟨heq, hretired⟩ := Bool.and_eq_true_iff.mp hjoined
      exact ⟨d, hd, (of_decide_eq_true heq).symm, of_decide_eq_true hretired⟩
    · exact h id (.inr hid)
  | deliveries => exact h.mono rfl fun id hid => .inr (by simpa using hid)
  | outbox => exact h.mono rfl fun id hid => .inr (by simpa using hid)

theorem LettersDue.visit (h : LettersDue r s) {i : Nat} {keys : List RowKey}
    (hvisit : r.visit s i = some (keys, r')) : LettersDue r' s := by
  have hrest : ∀ {todo : List (WebhookDeadLetter × WebhookDelivery)}, r.phase = .deadLetters todo →
      ∀ id ∈ (todo.eraseIdx i).map fun x => x.1.deliveryId, id ∈ r.phase.letterIds := by
    intro todo hphase id hid
    obtain ⟨y, hy, rfl⟩ := List.mem_map.mp hid
    exact hphase ▸ List.mem_map.mpr ⟨y, List.mem_of_mem_eraseIdx hy, rfl⟩
  cases Retention.visit_cases hvisit with
  | @letterGoes todo x hphase hx =>
    refine h.mono rfl fun id hid => ?_
    rcases hid with hid | hid
    · exact .inl (hrest hphase id hid)
    · rcases List.mem_cons.mp hid with rfl | hid
      · exact .inl (hphase ▸ List.mem_map.mpr ⟨x, List.mem_of_getElem? hx, rfl⟩)
      · exact .inr hid
  | letterStays hphase => exact h.mono rfl fun id hid => hid.imp_left (hrest hphase id)
  | deliveryGoes => exact h.mono rfl fun id hid => .inr (by simpa using hid)
  | deliveryStays => exact h.mono rfl fun id hid => .inr (by simpa using hid)
  | event => exact h.mono rfl fun id hid => .inr (by simpa using hid)

theorem LettersDue.finish (h : LettersDue r s) (hfinish : r.finish s = some (.ok r')) :
    LettersDue r' s := by
  cases Retention.finish_cases hfinish with
  | deadLetters => exact h.mono rfl fun id hid => .inr (by simpa using hid)
  | deliveries => exact h.mono rfl fun id hid => .inr (by simpa using hid)
  | outbox => exact h.mono rfl fun id hid => .inr (by simpa using hid)

end own

end Tenancit.Webhook
