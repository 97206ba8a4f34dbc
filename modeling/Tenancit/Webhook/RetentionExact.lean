import Tenancit.Webhook.RetentionRuns

/-!
Retention beside the other transactions, over whole runs. Deliveries and events go exactly as
they should, and nothing refers to what is gone. A dead letter can go alone: one that the first
statement has selected, and whose delivery is replayed before the statement comes to it.
-/
namespace Tenancit.Webhook

open Store Queries Table Transactions Transactions.System RetentionWorld

variable {s : EventTables} {e : Entry Operation Direct}

namespace RetentionWorld

variable {w w' : RetentionWorld} {l : Label}

/-- What holds in every state that is reached beside others whose readings are after the cutoff. -/
structure WorldInv (w : RetentionWorld) : Prop where
  inv : Inv deliverySystem w.world
  refs : Referenced w.world.store
  run : ∀ r ∈ w.run, RunInv r w.world

theorem worldInv_idle (hs : Referenced s) : WorldInv (idle s) := ⟨inv_initial, hs, nofun⟩

theorem runInv_begun (deliveryCutoff eventCutoff : Timestamp) (w : World) :
    RunInv ⟨deliveryCutoff, eventCutoff, .begun, [], [], []⟩ w where
  heldLetters := nofun
  heldDeliveries := nofun
  noEvents _ := rfl
  selected := nofun
  stands := nofun
  taken := nofun
  letters hstage := by simp at hstage
  deliveries hstage := by simp at hstage
  events hstage := by simp at hstage

/-- What a step of retention itself does, where an open run keeps its invariant: a run begins or
goes on, none of its statements fails, and the store changes at the commit alone. -/
inductive OwnStep (w : RetentionWorld) : Label → RetentionWorld → Prop
  | begin_ {policy : Option (Int × Int)} {current : Timestamp} (hrun : w.run = none)
      (hskip : ∀ deliveryDays eventDays, policy = some (deliveryDays, eventDays) →
        deliveryDays ≤ 0 ∨ eventDays ≤ 0) :
      OwnStep w (.begin_ policy current) w
  | started {deliveryDays eventDays : Int} {current : Timestamp} (hrun : w.run = none)
      (hdeliveries : 0 < deliveryDays)
      (hevents : 0 < eventDays) : OwnStep w (.begin_ (some (deliveryDays, eventDays)) current)
        ⟨w.world, some ⟨addDays current (-deliveryDays),
          addDays current (-eventDays), .begun, [], [], []⟩⟩
  | select {r r' : Retention} (hr : w.run = some r) (hselect : r.select w.world.store = some r') :
      OwnStep w .select ⟨w.world, some r'⟩
  | visit {r r' : Retention} {i : Nat} {keys : List RowKey} (hr : w.run = some r)
      (hvisit : r.visit w.world.store i = some (keys, r'))
      (hfree : ∀ k ∈ keys, Locks.Free w.world.locks retention k) :
      OwnStep w (.visit i) ⟨{ w.world with
        locks := Locks.acquire w.world.locks retention keys }, some r'⟩
  | finish {r r' : Retention} (hr : w.run = some r)
      (hfinish : r.finish w.world.store = some (.ok r')) :
      OwnStep w .finish ⟨w.world, some r'⟩
  | commit {r : Retention} (hr : w.run = some r) (hphase : r.phase = .outboxDone) :
      OwnStep w .commit ⟨{ close w.world retention with store := r.view w.world.store }, none⟩
  | rollback : OwnStep w .rollback w.rolledBack

theorem WorldInv.step_cases (h : WorldInv w) (hstep : w.step l = some w') :
    OwnStep w l w' ∨ ∃ x, l = .other x := by
  cases l with
  | begin_ policy current =>
    simp only [step] at hstep
    split at hstep
    · cases hstep
    next hrun =>
      cases hstep
      refine .inl (.begin_ hrun fun _ _ heq => ?_)
      cases heq
    next deliveryDays eventDays hrun =>
      split at hstep
      next hskip =>
        cases hstep
        refine .inl (.begin_ hrun fun _ _ heq => ?_)
        cases heq
        exact hskip
      next hdays =>
        cases hstep
        obtain ⟨hdeliveries, hevents⟩ := not_or.mp hdays
        exact .inl (.started hrun (not_le.mp hdeliveries) (not_le.mp hevents))
  | select =>
    obtain ⟨r, hr, hstep⟩ := Option.bind_eq_some_iff.mp hstep
    obtain ⟨r', hr', rfl⟩ := Option.map_eq_some_iff.mp hstep
    exact .inl (.select hr hr')
  | visit i =>
    obtain ⟨r, hr, hstep⟩ := Option.bind_eq_some_iff.mp hstep
    obtain ⟨⟨keys, r'⟩, hr', hstep⟩ := Option.bind_eq_some_iff.mp hstep
    obtain ⟨hfree, heq⟩ := Option.ite_none_right_eq_some.mp hstep
    cases heq
    exact .inl (.visit hr hr' hfree)
  | finish =>
    obtain ⟨r, hr, hstep⟩ := Option.bind_eq_some_iff.mp hstep
    obtain ⟨x, hx, hstep⟩ := Option.map_eq_some_iff.mp hstep
    obtain ⟨r', rfl⟩ := (h.run r hr).finish_ok h.refs hx
    cases hstep
    exact .inl (.finish hr hx)
  | commit =>
    obtain ⟨r, hr, hstep⟩ := Option.bind_eq_some_iff.mp hstep
    split at hstep
    next hphase =>
      cases hstep
      exact .inl (.commit hr hphase)
    · cases hstep
  | rollback =>
    obtain ⟨r, -, rfl⟩ := Option.map_eq_some_iff.mp hstep
    exact .inl .rollback
  | other x => exact .inr ⟨x, rfl⟩

theorem WorldInv.step (h : WorldInv w) (hafter : After w l) (hstep : w.step l = some w') :
    WorldInv w' := by
  rcases h.step_cases hstep with hown | ⟨x, rfl⟩
  · cases hown with
    | begin_ => exact h
    | started => exact ⟨h.inv, h.refs, by rintro _ ⟨⟩; exact runInv_begun _ _ _⟩
    | select hr hselect =>
      exact ⟨h.inv, h.refs, by rintro _ ⟨⟩; exact (h.run _ hr).select h.refs hselect⟩
    | visit hr hvisit hfree =>
      exact ⟨h.inv.lock hfree, h.refs, by rintro _ ⟨⟩; exact (h.run _ hr).visit hvisit⟩
    | finish hr hfinish => exact ⟨h.inv, h.refs, by rintro _ ⟨⟩; exact (h.run _ hr).finish hfinish⟩
    | commit hr hphase =>
      exact ⟨(h.run _ hr).commit h.inv, (h.run _ hr).referenced h.refs hphase, nofun⟩
    | rollback => exact ⟨h.inv.close retention, h.refs, nofun⟩
  · obtain ⟨hrun, hother⟩ := other_cases h.inv hstep
    refine ⟨hother.inv, ?_, fun r hr => ?_⟩
    · rcases hother.store with hstore | ⟨e, hserial, he, -⟩
      · exact hstore ▸ h.refs
      · have hclock : ∀ now ∈ moment e, (moment e).getD 0 ≤ now := by
          intro now hnow
          rw [Option.mem_def.mp hnow]
          exact le_rfl
        exact h.refs.leaves (serial_leaves hother.others he hclock hserial) hserial
    · rw [hrun] at hr
      exact (h.run r hr).other h.inv h.refs hother fun e he htx => hafter.moment hr he htx

theorem LettersDue.begun (deliveryCutoff eventCutoff : Timestamp) (s : EventTables) :
    LettersDue ⟨deliveryCutoff, eventCutoff, .begun, [], [], []⟩ s := by
  rintro id (hid | hid) <;> cases hid

/-- The letters of an open run stay due, unless one is replayed that it has selected. -/
theorem WorldInv.due (h : WorldInv w) (hdue : ∀ r ∈ w.run, LettersDue r w.world.store)
    (hreplay : ¬ReplaysSelected w l) (hstep : w.step l = some w') :
    ∀ r ∈ w'.run, LettersDue r w'.world.store := by
  rcases h.step_cases hstep with hown | ⟨x, rfl⟩
  · cases hown with
    | begin_ => exact hdue
    | started =>
      rintro _ ⟨⟩
      exact LettersDue.begun _ _ _
    | select hr hselect =>
      rintro _ ⟨⟩
      exact (hdue _ hr).select hselect
    | visit hr hvisit =>
      rintro _ ⟨⟩
      exact (hdue _ hr).visit hvisit
    | finish hr hfinish =>
      rintro _ ⟨⟩
      exact (hdue _ hr).finish hfinish
    | commit => rintro _ ⟨⟩
    | rollback => rintro _ ⟨⟩
  · obtain ⟨hrun, hother⟩ := other_cases h.inv hstep
    intro r hr
    rw [hrun] at hr
    refine (hdue r hr).other (h.run r hr) h.inv h.refs hother ?_
    rintro n t rfl ht hreplays
    exact hreplay ⟨r, hr, t, ht, hreplays⟩

/-- The cutoffs of an open run are those of the policy and the time that it began with. -/
def Begun (ls : List Label) (r : Retention) : Prop :=
  ∃ deliveryDays eventDays current, Label.begin_ (some (deliveryDays, eventDays)) current ∈ ls ∧
    0 < deliveryDays ∧ 0 < eventDays ∧ r.deliveryCutoff = addDays current (-deliveryDays) ∧
    r.eventCutoff = addDays current (-eventDays)

theorem Begun.mono {ls : List Label} {r r' : Retention} (h : Begun ls r)
    (hdelivery : r'.deliveryCutoff = r.deliveryCutoff) (hevent : r'.eventCutoff = r.eventCutoff) :
    Begun (ls ++ [l]) r' := by
  obtain ⟨deliveryDays, eventDays, current, hmem, hrest⟩ := h
  exact ⟨deliveryDays, eventDays, current, List.mem_append_left _ hmem, hdelivery ▸ hevent ▸ hrest⟩

end RetentionWorld

/-- The cutoffs stay as they are. -/
theorem Retention.select_cutoffs {r r' : Retention} (h : r.select s = some r') :
    r'.deliveryCutoff = r.deliveryCutoff ∧ r'.eventCutoff = r.eventCutoff := by
  cases Retention.select_cases h <;> exact ⟨rfl, rfl⟩

theorem Retention.visit_cutoffs {r r' : Retention} {i : Nat} {keys : List RowKey}
    (h : r.visit s i = some (keys, r')) :
    r'.deliveryCutoff = r.deliveryCutoff ∧ r'.eventCutoff = r.eventCutoff := by
  cases Retention.visit_cases h <;> exact ⟨rfl, rfl⟩

theorem Retention.finish_cutoffs {r r' : Retention} (h : r.finish s = some (.ok r')) :
    r'.deliveryCutoff = r.deliveryCutoff ∧ r'.eventCutoff = r.eventCutoff := by
  cases Retention.finish_cases h <;> exact ⟨rfl, rfl⟩

namespace Phase

/-- How many rows the statement in progress has still to visit. -/
@[simp] def left : Phase → Nat
  | .deadLetters todo => todo.length
  | .deliveries todo => todo.length
  | .outbox todo => todo.length
  | _ => 0

end Phase

/-- A row is visited at the head of the list where some are left. -/
theorem Retention.visit_head (r : Retention) (s : EventTables) (hleft : 0 < r.phase.left) :
    ∃ keys r', r.visit s 0 = some (keys, r') ∧ r'.phase.stage =
      r.phase.stage ∧ r'.phase.left < r.phase.left := by
  cases hphase : r.phase with
  | deadLetters todo =>
    cases todo with
    | nil => simp [hphase] at hleft
    | cons x todo =>
      refine ⟨_, _, by simp only [visit, hphase]; rfl, ?_⟩
      split <;> simp
  | deliveries todo =>
    cases todo with
    | nil => simp [hphase] at hleft
    | cons x todo =>
      refine ⟨_, _, by simp only [visit, hphase]; rfl, ?_⟩
      split <;> simp
  | outbox todo =>
    cases todo with
    | nil => simp [hphase] at hleft
    | cons x todo => exact ⟨_, _, by simp only [visit, hphase]; rfl, by simp⟩
  | _ => simp [hphase] at hleft

/-- Where no row is left to visit, the statement ends or the next one begins. -/
theorem Retention.next_statement (r : Retention) (s : EventTables) (hleft : r.phase.left = 0) :
    r.phase = .outboxDone ∨ (∃ r', r.select s = some r' ∧ r.phase.stage < r'.phase.stage) ∨
      ∃ x, r.finish s = some x ∧ ∀ r', x = .ok r' → r.phase.stage < r'.phase.stage := by
  cases hphase : r.phase with
  | begun => exact .inr (.inl ⟨_, by simp only [select, hphase]; rfl, by simp⟩)
  | deadLettersDone => exact .inr (.inl ⟨_, by simp only [select, hphase]; rfl, by simp⟩)
  | deliveriesDone => exact .inr (.inl ⟨_, by simp only [select, hphase]; rfl, by simp⟩)
  | outboxDone => exact .inl rfl
  | deadLetters todo =>
    obtain rfl : todo = [] := by simpa [hphase] using hleft
    refine .inr (.inr ⟨_, by simp only [finish, hphase]; rfl, ?_⟩)
    rintro r' ⟨⟩
    simp
  | deliveries todo =>
    obtain rfl : todo = [] := by simpa [hphase] using hleft
    refine .inr (.inr ⟨_, by simp only [finish, hphase]; rfl, fun r' hr' => ?_⟩)
    split at hr' <;> cases hr'
    simp
  | outbox todo =>
    obtain rfl : todo = [] := by simpa [hphase] using hleft
    refine .inr (.inr ⟨_, by simp only [finish, hphase]; rfl, fun r' hr' => ?_⟩)
    split at hr' <;> cases hr'
    simp

namespace RetentionWorld

variable {w w' : RetentionWorld} {l : Label} {ls : List Label} {r : Retention}

/-- Beside retention nobody reads the clock before its cutoff, nor replays what it has selected. -/
def Undisturbed (w : RetentionWorld) (l : Label) : Prop := After w l ∧ ¬ReplaysSelected w l

instance (w : RetentionWorld) (l : Label) : Decidable (Undisturbed w l) :=
  inferInstanceAs (Decidable (_ ∧ _))

/-- The step is one of retention. -/
def Own : Label → Prop
  | .other _ => False
  | _ => True

theorem Own.undisturbed (h : Own l) (w : RetentionWorld) : Undisturbed w l := by
  cases l with
  | other x => exact h.elim
  | _ => exact ⟨trivial, not_false⟩

theorem Phase.stage_le (p : Phase) : p.stage ≤ 6 := by cases p <;> simp

/-- Where nobody else has a row locked, an open run goes on. -/
theorem WorldInv.goes_on (h : WorldInv w) (hr : w.run = some r)
    (hlocks : ∀ x ∈ w.world.locks, x.1 = retention) (hphase : r.phase ≠ .outboxDone) :
    ∃ l w' r', Own l ∧ w.step l = some w' ∧ w'.run = some r' ∧
      (∀ x ∈ w'.world.locks, x.1 = retention) ∧ w'.world.store = w.world.store ∧
      Prod.Lex (· < ·) (· < ·) (6 - r'.phase.stage, r'.phase.left)
      (6 - r.phase.stage, r.phase.left) := by
  rcases Nat.eq_zero_or_pos r.phase.left with hleft | hleft
  · rcases r.next_statement w.world.store hleft
      with hdone | ⟨r', hselect, hstage⟩ | ⟨x, hfinish, hstage⟩
    · exact absurd hdone hphase
    · have hle := Phase.stage_le r'.phase
      refine ⟨.select, ⟨w.world, some r'⟩, r', trivial, ?_, rfl, hlocks, rfl, .left _ _ (by omega)⟩
      simp [RetentionWorld.step, hr, hselect]
    · obtain ⟨r', rfl⟩ := (h.run r hr).finish_ok h.refs hfinish
      have hless := hstage r' rfl
      have hle := Phase.stage_le r'.phase
      refine ⟨.finish, ⟨w.world, some r'⟩, r', trivial, ?_, rfl, hlocks, rfl, .left _ _ (by omega)⟩
      simp [RetentionWorld.step, hr, hfinish]
  · obtain ⟨keys, r', hvisit, hstage, hless⟩ := r.visit_head w.world.store hleft
    have hfree : ∀ k ∈ keys, Locks.Free w.world.locks retention k := fun _ _ x hx _ => hlocks x hx
    refine ⟨.visit 0, ⟨{ w.world with
      locks := Locks.acquire w.world.locks retention keys }, some r'⟩, r', trivial, ?_, rfl,
      fun x hx => ?_, rfl, ?_⟩
    · simp only [RetentionWorld.step, hr, Option.bind_some, hvisit]
      exact if_pos hfree
    · rcases Locks.mem_acquire.mp hx with hx | ⟨hx, -⟩
      · exact hlocks x hx
      · exact hx
    · rw [hstage]
      exact .right _ hless

/-- So it comes to its commit, by steps of its own. -/
theorem WorldInv.finishes {w : RetentionWorld} {r : Retention} (h : WorldInv w)
    (hr : w.run = some r) (hlocks : ∀ x ∈ w.world.locks, x.1 = retention) :
    ∃ ls w₁ w₂, (∀ l ∈ ls, Own l) ∧
      Runs.Run (Runs.Steps RetentionWorld.step) w ls w₁ ∧ w₁.step .commit = some w₂ ∧
      w₁.world.store = w.world.store := by
  by_cases hphase : r.phase = .outboxDone
  · have hcommit : w.step .commit = some ⟨{ close w.world retention with
      store := r.view w.world.store }, none⟩ := by
      simp [RetentionWorld.step, hr, hphase]
    exact ⟨[], w, _, List.forall_mem_nil _, .nil w, hcommit, rfl⟩
  · obtain ⟨l, w', r', hown, hstep, hr', hlocks', hstore, hless⟩ := h.goes_on hr hlocks hphase
    obtain ⟨ls, w₁, w₂, howns, hrun, hcommit, hsame⟩ :=
      (h.step (hown.undisturbed w).1 hstep).finishes hr' hlocks'
    exact ⟨l :: ls, w₁, w₂, List.forall_mem_cons.mpr ⟨hown, howns⟩, .cons hstep hrun,
      hcommit, hsame.trans hstore⟩
termination_by (6 - r.phase.stage, r.phase.left)
decreasing_by exact hless

/-- What is known of a reachable state. -/
theorem worldInv_run (hs : Referenced s)
    (hrun : Runs.Run (Runs.Guarded After (Runs.Steps RetentionWorld.step)) (idle s) ls w) :
    WorldInv w ∧ ∀ r ∈ w.run, Begun ls r := by
  refine hrun.history (P := fun ls w => WorldInv w ∧ ∀ r ∈ w.run,
    Begun ls r) ⟨worldInv_idle hs, nofun⟩ ?_
  rintro ls u l t - ⟨hu, hbegun⟩ ⟨hafter, hstep⟩
  refine ⟨hu.step hafter hstep, ?_⟩
  rcases hu.step_cases hstep with hown | ⟨x, rfl⟩
  · cases hown with
    | begin_ => exact fun r hr => (hbegun r hr).mono rfl rfl
    | @started deliveryDays eventDays current _ hdeliveries hevents =>
      rintro _ ⟨⟩
      exact ⟨deliveryDays, eventDays, current, by simp, hdeliveries, hevents, rfl, rfl⟩
    | select hr hselect =>
      rintro _ ⟨⟩
      exact (hbegun _ hr).mono (Retention.select_cutoffs hselect).1
        (Retention.select_cutoffs hselect).2
    | visit hr hvisit =>
      rintro _ ⟨⟩
      exact (hbegun _ hr).mono (Retention.visit_cutoffs hvisit).1 (Retention.visit_cutoffs hvisit).2
    | finish hr hfinish =>
      rintro _ ⟨⟩
      exact (hbegun _ hr).mono (Retention.finish_cutoffs hfinish).1
        (Retention.finish_cutoffs hfinish).2
    | commit => rintro _ ⟨⟩
    | rollback => rintro _ ⟨⟩
  · obtain ⟨hsame, -⟩ := other_cases hu.inv hstep
    intro r hr
    rw [hsame] at hr
    exact (hbegun r hr).mono rfl rfl

theorem due_run (hs : Referenced s)
    (hrun : Runs.Run (Runs.Guarded Undisturbed (Runs.Steps RetentionWorld.step)) (idle s) ls w) :
    ∀ r ∈ w.run, LettersDue r w.world.store := by
  have hboth : WorldInv w ∧ ∀ r ∈ w.run, LettersDue r w.world.store := by
    refine hrun.invariant (P := fun w => WorldInv w ∧ ∀ r ∈ w.run, LettersDue r w.world.store) ?_
      ⟨worldInv_idle hs, nofun⟩
    rintro u l t ⟨hu, hdue⟩ ⟨⟨hafter, hreplay⟩, hstep⟩
    exact ⟨hu.step hafter hstep, hu.due hdue hreplay hstep⟩
  exact hboth.2

end RetentionWorld

/-- A letter among those deleted or to be visited whose delivery is not to be removed. -/
def Stale (r : Retention) (s : EventTables) (id : UUID) : Prop :=
  (id ∈ r.phase.letterIds ∨ id ∈ r.deadLetters) ∧ ¬RetiredAt r.deliveryCutoff s id ∧
  ∃ l ∈ s.deadLetters, l.deliveryId = id

section stale

variable {w w' : RetentionWorld} {l : Label} {ls : List Label} {r r' : Retention} {id : UUID}

theorem Stale.select (h : Stale r s id) (hselect : r.select s = some r') : Stale r' s id := by
  refine ⟨.inr ?_, (Retention.select_cutoffs hselect).1 ▸ h.2.1, h.2.2⟩
  cases Retention.select_cases hselect with
  | deadLetters hphase => simpa [hphase] using h.1
  | deliveries hphase => simpa [hphase] using h.1
  | outbox hphase => simpa [hphase] using h.1

/-- A visit of the letter deletes it: it is the delivery as it was selected that is looked at. -/
theorem Stale.visit (h : Stale r s id)
    (hselected : ∀ todo, r.phase = .deadLetters todo → ∀ x ∈ todo,
      Retention.joined r.deliveryCutoff x.1 x.2 = true) {i : Nat}
    {keys : List RowKey} (hvisit : r.visit s i = some (keys, r')) : Stale r' s id := by
  refine ⟨?_, (Retention.visit_cutoffs hvisit).1 ▸ h.2.1, h.2.2⟩
  cases Retention.visit_cases hvisit with
  | letterGoes hphase hx =>
    rcases h.1 with hid | hid
    · rw [hphase] at hid
      obtain ⟨y, hy, rfl⟩ := List.mem_map.mp hid
      rcases (mem_iff_eraseIdx hx).mp hy with rfl | hy
      · exact .inr (.head _)
      · exact .inl (List.mem_map.mpr ⟨y, hy, rfl⟩)
    · exact .inr (.tail _ hid)
  | letterStays hphase hx hstays =>
    rcases h.1 with hid | hid
    · rw [hphase] at hid
      obtain ⟨y, hy, rfl⟩ := List.mem_map.mp hid
      rcases (mem_iff_eraseIdx hx).mp hy with rfl | hy
      · have hjoined := hselected _ hphase _ (List.mem_of_getElem? hx)
        exact absurd ((letter_goes hjoined).mpr h.2.2) hstays
      · exact .inl (List.mem_map.mpr ⟨y, hy, rfl⟩)
    · exact .inr hid
  | deliveryGoes hphase => exact .inr (by simpa [hphase] using h.1)
  | deliveryStays hphase => exact .inr (by simpa [hphase] using h.1)
  | event hphase => exact .inr (by simpa [hphase] using h.1)

theorem Stale.finish (h : Stale r s id) (hfinish : r.finish s = some (.ok r')) : Stale r' s id := by
  refine ⟨.inr ?_, (Retention.finish_cutoffs hfinish).1 ▸ h.2.1, h.2.2⟩
  cases Retention.finish_cases hfinish with
  | deadLetters hphase => simpa [hphase] using h.1
  | deliveries hphase => simpa [hphase] using h.1
  | outbox hphase => simpa [hphase] using h.1

theorem Stale.leaves {s' : EventTables} (h : Stale r s id)
    (hleaves : Leaves r.deliveryCutoff s s') : Stale r s' id := by
  obtain ⟨hid, hnot, l, hl, heq⟩ := h
  obtain ⟨l', hl', heq'⟩ := hleaves.lettersKept l hl
  exact ⟨hid, fun hretired => hnot (hleaves.retiredAt hretired), l', hl', heq'.trans heq⟩

/-- It stays so as long as the run is open. -/
theorem Stale.step (h : Stale r w.world.store id) (hinv : WorldInv w) (hr : w.run = some r)
    (hafter : After w l) (hopen : l ≠ .commit ∧ l ≠ .rollback) (hstep : w.step l = some w') :
    ∃ r', w'.run = some r' ∧ Stale r' w'.world.store id := by
  rcases hinv.step_cases hstep with hown | ⟨x, rfl⟩
  · cases hown with
    | begin_ => exact ⟨r, hr, h⟩
    | started hrun => simp [hrun] at hr
    | select hr' hselect =>
      cases hr.symm.trans hr'
      exact ⟨_, rfl, h.select hselect⟩
    | visit hr' hvisit =>
      cases hr.symm.trans hr'
      exact ⟨_, rfl, h.visit (hinv.run r hr).selected hvisit⟩
    | finish hr' hfinish =>
      cases hr.symm.trans hr'
      exact ⟨_, rfl, h.finish hfinish⟩
    | commit => exact absurd rfl hopen.1
    | rollback => exact absurd rfl hopen.2
  · obtain ⟨hrun, hother⟩ := other_cases hinv.inv hstep
    refine ⟨r, hrun.trans hr, ?_⟩
    rcases hother.store with hstore | ⟨e, hserial, he, htx⟩
    · rwa [hstore]
    · exact h.leaves (serial_leaves hother.others he (hafter.moment hr he htx) hserial)

/-- A delivery that is replayed after the cutoff is not to be removed. -/
theorem not_retired_of_replay {cutoff now : Timestamp} {s' : EventTables}
    (hids : Keyed WebhookDelivery.id s.deliveries)
    (hserial : deliverySystem.Serial s (.tx (.replay id now)) s') (hnow : cutoff ≤ now) :
    ¬RetiredAt cutoff s' id := by
  obtain ⟨hone, rfl⟩ := serial_replay hserial
  rintro ⟨d', hd', heq, hretired⟩
  obtain ⟨d, hd, rfl⟩ := mem_update.mp hd'
  split at heq
  next hp =>
    rw [if_pos hp] at hretired
    exact absurd hretired.2 (Int.not_lt.mpr hnow)
  next hp =>
    -- the row that is replayed has the same identifier
    obtain ⟨d₀, hd₀, hp₀⟩ := List.countP_pos_iff.mp (Nat.lt_of_lt_of_eq Nat.one_pos hone.symm)
    obtain rfl := hids.eq_of_key hd hd₀ (heq.trans (Statement.replayable_id hp₀).symm)
    exact hp hp₀

/-- The replay of a delivery whose letter is selected makes the letter stale. -/
theorem stale_of_replay (hinv : WorldInv w) (hafter : After w l) (hreplay : ReplaysSelected w l)
    (hstep : w.step l = some w') : ∃ r id, w'.run = some r ∧ Stale r w'.world.store id := by
  unfold ReplaysSelected at hreplay
  split at hreplay
  next n =>
    obtain ⟨r, hr, t, ht, hreplays⟩ := hreplay
    unfold Operation.Replays at hreplays
    split at hreplays
    next id now hop =>
      obtain ⟨hrun, hother⟩ := other_cases hinv.inv hstep
      obtain ⟨-, u, hu, rfl⟩ : Others (.commit n) ∧ ∃ u,
          deliverySystem.step w.world (.commit n) = some u ∧ _ := by
        simpa only [RetentionWorld.step, Option.ite_none_right_eq_some,
          Option.map_eq_some_iff] using hstep
      cases step_effect hinv.inv hu with
      | @commit _ op done x hsession hserial =>
        obtain rfl : t = ⟨op, done, []⟩ :=
          Option.some.inj ((Option.mem_def.mp ht).symm.trans hsession)
        obtain rfl : op = .replay id now := hop
        have hnow := hafter r hr _ ht now rfl
        have hleaves :=
          serial_leaves hother.others (fun x hx => by cases hx)
            (fun _ h => Option.some.inj h ▸ hnow) hserial
        obtain ⟨l, hl, heq⟩ := (hinv.run r hr).stands id hreplays
        obtain ⟨l', hl', heq'⟩ := hleaves.lettersKept l hl
        exact ⟨r, id, hr, .inl hreplays, not_retired_of_replay hinv.refs.deliveries hserial hnow,
          l', hl', heq'.trans heq⟩
    · cases hreplays
  · cases hreplay

theorem Stale.run {u : RetentionWorld} (h : Stale r u.world.store id) (hinv : WorldInv u)
    (hr : u.run = some r)
    (hrun : Runs.Run (Runs.Guarded After (Runs.Steps RetentionWorld.step)) u ls w)
    (hopen : ∀ l ∈ ls, l ≠ .commit ∧ l ≠ .rollback) :
    WorldInv w ∧ ∃ r, w.run = some r ∧ Stale r w.world.store id := by
  induction hrun generalizing r with
  | nil => exact ⟨hinv, r, hr, h⟩
  | cons hfirst _ ih =>
    obtain ⟨r', hr', h'⟩ := h.step hinv hr hfirst.1 (hopen _ (.head _)) hfirst.2
    exact ih h' (hinv.step hfirst.1 hfirst.2) hr' fun l hl => hopen l (.tail _ hl)

/-- A run that is committed after such a replay has removed a letter too many. -/
theorem stale_inexact {u v : RetentionWorld} (hinv : WorldInv u) (hafter : After u l)
    (hreplay : ReplaysSelected u l) (hstep : u.step l = some v)
    (hrun : Runs.Run (Runs.Guarded After (Runs.Steps RetentionWorld.step)) v ls w)
    (hopen : ∀ l ∈ ls, l ≠ .commit ∧ l ≠ .rollback) (hcommit : w.step .commit = some w') :
    ∀ r ∈ w.run, ¬RemovesExactly r.deliveryCutoff r.eventCutoff w.world.store w'.world.store := by
  obtain ⟨r₀, id, hr₀, hstale₀⟩ := stale_of_replay hinv hafter hreplay hstep
  obtain ⟨hw, r, hr, hid, hnot, l, hl, rfl⟩ := hstale₀.run (hinv.step hafter hstep) hr₀ hrun hopen
  rintro r' hr' hexact
  cases hr.symm.trans hr'
  rcases hw.step_cases hcommit with hown | ⟨x, hx⟩
  · cases hown with
    | commit hr' hphase =>
      cases hr.symm.trans hr'
      have hletters : (r.view w.world.store).deadLetters = _ := hexact.deadLetters
      have hstays : l ∈ (r.view w.world.store).deadLetters := by
        rw [hletters]
        refine mem_delete.mpr ⟨hl, List.any_eq_false.mpr fun d hd hjoined => hnot ?_⟩
        obtain ⟨heq, hretired⟩ := Bool.and_eq_true_iff.mp hjoined
        exact ⟨d, hd, (of_decide_eq_true heq).symm, of_decide_eq_true hretired⟩
      exact of_decide_eq_false (mem_delete.mp hstays).2 (by simpa [hphase] using hid)
  · cases hx

end stale

/-- What a run of retention does to the tables: it removes exactly what is old and over, with the
dead letters, and the events without deliveries; nothing unfinished goes, no event that a
delivery refers to, and no row is left that refers to one that is gone. -/
structure RetentionRun (deliveryCutoff eventCutoff : Timestamp) (s s' : EventTables) : Prop
    extends RemovesExactly deliveryCutoff eventCutoff s s' where
  unfinished : ∀ d ∈ s.deliveries, d.status = .pending ∨ d.status = .retry ∨ d.status =
    .delivering → d ∈ s'.deliveries
  referred : ∀ e ∈ s.outbox, (∃ d ∈ s'.deliveries, d.eventId = e.id) → e ∈ s'.outbox
  referenced : Referenced s'

theorem RemovesExactly.run {deliveryCutoff eventCutoff : Timestamp} {s' : EventTables}
    (h : RemovesExactly deliveryCutoff eventCutoff s s') (hrefs : Referenced s') :
    RetentionRun deliveryCutoff eventCutoff s s' where
  toRemovesExactly := h
  unfinished d hd hstatus := by
    rw [h.deliveries]
    refine mem_delete.mpr ⟨hd, decide_eq_false fun hretired => ?_⟩
    rcases hretired.1 with hover | hover <;> simp [hover] at hstatus
  referred e he := by
    rintro ⟨d, hd, heq⟩
    rw [h.outbox]
    refine mem_delete.mpr ⟨he, ?_⟩
    have hany : (s'.deliveries.any fun d => d.eventId = e.id) = true :=
      List.any_eq_true.mpr ⟨d, hd, decide_eq_true heq⟩
    rw [Retention.orphaned, hany, Bool.not_true, Bool.and_false]
  referenced := hrefs

/-- An exact run is the deletion in one step, with no row locked by others. -/
theorem RemovesExactly.serial {deliveryCutoff eventCutoff : Timestamp} {s' : EventTables}
    (h : RemovesExactly deliveryCutoff eventCutoff s s') :
    deliverySystem.Serial s (.direct (.retain deliveryCutoff eventCutoff)) s' := by
  refine ⟨fun _ => false, congrArg some ?_⟩
  cases s'
  obtain ⟨hdeliveries, hletters, houtbox, htargets, haudit⟩ := h
  dsimp only at hdeliveries hletters houtbox htargets haudit
  subst hdeliveries hletters houtbox htargets haudit
  have hjoined : Retention.joined deliveryCutoff =
      fun l d => decide (d.id = l.deliveryId) && decide (Retired deliveryCutoff d) := by
    funext l d
    rw [Retention.joined, decide_eq_decide.mpr eq_comm]
  have horphaned : ∀ deliveries, Retention.orphaned eventCutoff deliveries =
      fun e => decide (e.occurredAt < eventCutoff) && !deliveries.any fun d =>
      d.eventId = e.id := fun _ => rfl
  simp [runRetentionOnce, hjoined, horphaned]

/-- Whatever is replayed, the deliveries and the events that go are the right ones, and what
stays refers to nothing that is gone. -/
theorem retention_rows (hs : Referenced s) {ls : List Label} {w w' : RetentionWorld}
    (hrun : Runs.Run (Runs.Guarded After (Runs.Steps RetentionWorld.step)) (idle s) ls w)
    (hstep : w.step .commit = some w') :
    ∃ r, w.run = some r ∧ w'.world.store.deliveries =
      delete (fun d => Retired r.deliveryCutoff d) w.world.store.deliveries ∧
      w'.world.store.outbox = delete (Retention.orphaned r.eventCutoff w'.world.store.deliveries)
        w.world.store.outbox ∧
      Referenced w'.world.store := by
  obtain ⟨hinv, -⟩ := worldInv_run hs hrun
  rcases hinv.step_cases hstep with h | ⟨x, hx⟩
  · cases h with
    | @commit r hr hphase =>
      have hopen := hinv.run r hr
      exact ⟨r, hr, hopen.view_deliveries hinv.refs hphase, hopen.view_outbox hphase,
        hopen.referenced hinv.refs hphase⟩
  · cases hx

/-- What holds of a state that is reached: only the commit of a run of retention removes rows,
exactly those that it should for the policy and the time that it began with; and where nobody
else has a row locked, an open run comes to its commit. -/
structure RetentionSafe (ls : List Label) (w : RetentionWorld) : Prop where
  kept : ∀ l w', w.step l = some w' → Own l → l ≠ .commit → w'.world.store = w.world.store
  committed : ∀ w', w.step .commit = some w' → ∃ r, w.run = some r ∧ Begun ls r ∧
    RetentionRun r.deliveryCutoff r.eventCutoff w.world.store w'.world.store
  completes : w.run.isSome = true → (∀ x ∈ w.world.locks, x.1 = retention) →
    ∃ own w₁ w₂, (∀ l ∈ own, Own l) ∧
    Runs.Run (Runs.Steps RetentionWorld.step) w own w₁ ∧ w₁.step .commit = some w₂ ∧
    w₁.world.store = w.world.store

/-- Retention is safe and exact along every run in which, while a run of retention is open, the
others read the clock after its cutoff, and no delivery is replayed whose dead letter the first
statement has selected and not yet deleted. -/
theorem retention_exact (hs : Referenced s) {ls : List Label} {w : RetentionWorld}
    (hrun : Runs.Run (Runs.Guarded Undisturbed (Runs.Steps RetentionWorld.step)) (idle s) ls w) :
    RetentionSafe ls w := by
  have hafter : Runs.Run (Runs.Guarded After (Runs.Steps RetentionWorld.step)) (idle s) ls w :=
    hrun.mono fun _ _ _ h => ⟨h.1.1, h.2⟩
  obtain ⟨hinv, hbegun⟩ := worldInv_run hs hafter
  refine ⟨fun l w' hstep hown hcommit => ?_, fun w' hstep => ?_, fun hopen hlocks => ?_⟩
  · rcases hinv.step_cases hstep with h | ⟨x, rfl⟩
    · cases h with
      | commit => exact absurd rfl hcommit
      | _ => rfl
    · exact hown.elim
  · rcases hinv.step_cases hstep with h | ⟨x, hx⟩
    · cases h with
      | @commit r hr hphase =>
        have hremoves := (hinv.run r hr).removes hinv.refs (due_run hs hrun r hr) hphase
        exact ⟨r, hr, hbegun r hr, hremoves.run ((hinv.run r hr).referenced hinv.refs hphase)⟩
    · cases hx
  · obtain ⟨r, hr⟩ := Option.isSome_iff_exists.mp hopen
    exact hinv.finishes hr hlocks

/-- A day so many days after 1970. -/
def dayTime (days : Int) : Timestamp := addDays 0 days

/-- A dead delivery with its letter, a delivered one, and one that a worker has in hand. -/
def expiredStore : EventTables where
  outbox := [sampleEvent, { sampleEvent with id := 4 }, { sampleEvent with id := 5 }]
  targets := [sampleTarget]
  deliveries := [{ newDelivery 3 2 1 0 with status := .deadLetter }, { newDelivery 6 4 1 0 with
    status := .delivered },
    { newDelivery 7 5 1 0 with
      status := .delivering, leaseToken := some 10, leaseExpiresAt := some 30 }]
  deadLetters := [⟨20, 3, "http_400", 0, none⟩]

theorem referenced_expiredStore : Referenced expiredStore where
  events := (by decide : List.Nodup _)
  deliveries := (by decide : List.Nodup _)
  letters := (by decide : List.Nodup _)
  lettersOwned := by
    unfold LettersOwned
    decide
  deliveriesOwned := by decide

/-- The third delivery is completed while retention is open. -/
def completedMeanwhile : List Label :=
  [.other (.start 1 (.markDelivered ⟨7, 5, 1, 10, 1, 0⟩ (dayTime 100) 200)), .other (.statement 1),
   .begin_ (some (30, 90)) (dayTime 100), .select, .visit 0, .finish,
   .other (.statement 1), .select, .visit 1,
   .other (.commit 1), .visit 0, .finish, .select, .visit 1, .visit 0, .finish]

theorem retention_exact_sample :
    ∃ w w', RetentionSafe completedMeanwhile w ∧ w.step .commit = some w' ∧
    w'.world.store.deliveries.map (·.id) = [7] ∧ w'.world.store.deadLetters.map (·.id) = [] ∧
    w'.world.store.outbox.map (·.id) = [5] := by
  have hexec : ((Runs.exec (fun w l => if Undisturbed w l then w.step l else none)
    (idle expiredStore) completedMeanwhile).bind
      fun w => (w.step .commit).map fun w' =>
        (w'.world.store.deliveries.map (·.id), w'.world.store.deadLetters.map (·.id),
        w'.world.store.outbox.map (·.id))) = some ([7], [], [5]) := by decide +kernel
  obtain ⟨w, hw, hcommit⟩ := Option.bind_eq_some_iff.mp hexec
  obtain ⟨w', hw', heq⟩ := Option.map_eq_some_iff.mp hcommit
  obtain ⟨hdeliveries, hletters, houtbox⟩ := Prod.mk.inj heq |>.imp_right Prod.mk.inj
  exact ⟨w, w', retention_exact referenced_expiredStore (Runs.run_guarded_of_exec hw), hw',
    hdeliveries, hletters, houtbox⟩

/-- The dead delivery is replayed, and the replay is committed when its letter is selected. -/
def replayedMeanwhile : List Label :=
  [.other (.start 1 (.replay 3 (dayTime 100))), .other (.statement 1), .other (.statement 1),
   .begin_ (some (30, 90)) (dayTime 100), .select, .other (.commit 1), .visit 0, .finish, .select,
   .visit 0, .finish, .select,
   .visit 0, .finish]

/-- The letter of the replayed delivery is removed, and the delivery is pending and stays. -/
theorem replayed_letter_removed : Referenced expiredStore ∧
    ∃ w w', Runs.Run (Runs.Guarded After (Runs.Steps step))
    (idle expiredStore) replayedMeanwhile w ∧
      w.step .commit = some w' ∧ (∃ d ∈ w'.world.store.deliveries, d.id = 3 ∧ d.status = .pending) ∧
      (∃ l ∈ w.world.store.deadLetters, l.deliveryId = 3) ∧ w'.world.store.deadLetters = [] ∧
      ¬RetentionSafe replayedMeanwhile w := by
  have hexec : ((Runs.exec (fun w l => if After w l then w.step l else none) (idle expiredStore)
    replayedMeanwhile).bind
      fun w => (w.step .commit).map fun w' =>
        decide ((∃ d ∈ w'.world.store.deliveries, d.id = 3 ∧ d.status = .pending) ∧
        (∃ l ∈ w.world.store.deadLetters, l.deliveryId = 3) ∧
        w'.world.store.deadLetters.length = 0 ∧
        ∀ d ∈ w.world.store.deliveries, d.id = 3 → d.status = .pending)) = some true := by
          decide +kernel
  obtain ⟨w, hw, hcommit⟩ := Option.bind_eq_some_iff.mp hexec
  obtain ⟨w', hw', heq⟩ := Option.map_eq_some_iff.mp hcommit
  obtain ⟨hpending, ⟨l, hl, hid⟩, hnone, hall⟩ := of_decide_eq_true heq
  have hempty := List.eq_nil_of_length_eq_zero hnone
  refine ⟨referenced_expiredStore, w, w', Runs.run_guarded_of_exec hw, hw', hpending, ⟨l, hl, hid⟩,
    hempty, fun hsafe => ?_⟩
  obtain ⟨r, -, -, hrun⟩ := hsafe.committed w' hw'
  have hstays : l ∈ w'.world.store.deadLetters := by
    rw [hrun.deadLetters]
    refine mem_delete.mpr ⟨hl, List.any_eq_false.mpr fun d hd hjoined => ?_⟩
    obtain ⟨heq, hretired⟩ := Bool.and_eq_true_iff.mp hjoined
    rcases (of_decide_eq_true hretired).1 with hover | hover
    all_goals simp [hall d hd ((of_decide_eq_true heq).symm.trans hid)] at hover
  rw [hempty] at hstays
  cases hstays

end Tenancit.Webhook
