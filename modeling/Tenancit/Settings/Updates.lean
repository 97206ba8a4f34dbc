import Tenancit.Settings.Consistency

/-!
Updates of the settings lose nothing: the revision that an update names is the one in force
when it commits, and whoever read that revision read the values in force.
-/
namespace Tenancit.Settings

open Encoding Store Httpapi Locks Runs

def Call.isSucceeded : Call → Bool
  | .succeeded .. => true
  | _ => false

/-- The call that a step belongs to. -/
def Label.call : Label → Option Nat
  | .lock n => some n
  | .write n _ => some n
  | .commit n _ => some n
  | .rollback n => some n
  | _ => none

/-- A step in which no update succeeds: the settings stay, the audit trail is written only
by others, and the successes so far are the same. -/
structure Quiet (w : World) (l : Label) (w' : World) : Prop where
  revision : w'.tables.revision = w.tables.revision
  settings : w'.tables.settings = w.tables.settings
  call : ∀ n, l.call = some n → w'.tables = w.tables
  same : ∀ (n : Nat) u snapshot, w'.calls[n]? = some (.succeeded u snapshot) ↔ w.calls[n]? =
    some (.succeeded u snapshot)
  count : w'.calls.countP Call.isSucceeded = w.calls.countP Call.isSucceeded

section step

variable {w w' : World} {l : Label} {n : Nat} {c c' : Call}

theorem countP_set_call (hn : w.calls[n]? = some c) (c' : Call) :
    (w.calls.set n c').countP Call.isSucceeded + (if c.isSucceeded then 1 else 0) =
      w.calls.countP Call.isSucceeded + if c'.isSucceeded then 1 else 0 := by
  obtain ⟨hlt, hget⟩ := List.getElem?_eq_some_iff.mp hn
  rw [List.countP_set hlt, hget]
  have hpos : c.isSucceeded = true → 0 < w.calls.countP Call.isSucceeded :=
    fun hc => List.countP_pos_iff.mpr ⟨c, List.mem_of_getElem? hn, hc⟩
  split
  next hc =>
    have hpos := hpos hc
    omega
  · omega

theorem Quiet.setCall (hn : w.calls[n]? = some c) (hc : c.isSucceeded = false)
    (hc' : c'.isSucceeded = false) : Quiet w l { w with calls := w.calls.set n c' } where
  revision := rfl
  settings := rfl
  call _ _ := rfl
  same m u snapshot := by
    constructor
    · intro hm
      rcases set_cases hm with ⟨-, rfl⟩ | ⟨-, hm⟩
      · cases hc'
      · exact hm
    · intro hm
      have hne : n ≠ m := by
        rintro rfl
        obtain rfl : c = .succeeded u snapshot := Option.some.inj (hn.symm.trans hm)
        cases hc
      exact (List.getElem?_set_ne hne).trans hm
  count := by
    have hcount := countP_set_call hn c'
    simpa [hc, hc'] using hcount

theorem Quiet.addCall (hc : c.isSucceeded = false) :
    Quiet w l { w with calls := w.calls ++ [c] } where
  revision := rfl
  settings := rfl
  call _ _ := rfl
  same m u snapshot := by
    constructor
    · intro hm
      rcases concat_cases hm with ⟨-, rfl⟩ | ⟨-, hm⟩
      · cases hc
      · exact hm
    · intro hm
      obtain ⟨hlt, -⟩ := List.getElem?_eq_some_iff.mp hm
      exact (List.getElem?_append_left hlt).trans hm
  count := by simp [List.countP_append, hc]

theorem Quiet.setGets (gets : List Get) : Quiet w l { w with gets := gets } :=
  ⟨rfl, rfl, fun _ _ => rfl, fun _ _ _ => Iff.rfl, rfl⟩

/-- A step is quiet or the commit of an update. -/
theorem step_cases (hstep : step w l = some w') : Quiet w l w' ∨
    ∃ n ts u snapshot rows events, l = .commit n ts ∧ w.calls[n]? =
      some (.written u snapshot rows) ∧
      w' = { w with
        tables := ⟨snapshot.revision, rows, events⟩, calls :=
          w.calls.set n (.succeeded u snapshot) } := by
  cases l with
  | get =>
    cases hstep
    exact .inl (.setGets _)
  | getValues n =>
    simp only [step] at hstep
    split at hstep
    · cases hstep
      exact .inl (.setGets _)
    · cases hstep
  | getFails n =>
    simp only [step] at hstep
    split at hstep
    · cases hstep
      exact .inl (.setGets _)
    · cases hstep
  | update r ifMatch updates =>
    cases hstep
    refine .inl (.addCall ?_)
    unfold openUpdate
    repeat' split
    all_goals rfl
  | lock n =>
    simp only [step] at hstep
    split at hstep
    next u hn =>
      split at hstep
      · cases hstep
      split at hstep
      · cases hstep
        exact .inl (.setCall hn rfl rfl)
      · cases hstep
        exact .inl (.setCall hn rfl rfl)
    · cases hstep
  | write n updatedAt =>
    simp only [step] at hstep
    split at hstep
    next u revision hn =>
      split at hstep
      · cases hstep
        exact .inl (.setCall hn rfl rfl)
      · cases hstep
        exact .inl (.setCall hn rfl rfl)
    · cases hstep
  | commit n ts =>
    simp only [step] at hstep
    split at hstep
    next u snapshot rows hn =>
      split at hstep
      · cases hstep
        exact .inl (.setCall hn rfl rfl)
      next events _ =>
        cases hstep
        exact .inr ⟨n, ts, u, snapshot, rows, events, rfl, hn, rfl⟩
    · cases hstep
  | rollback n =>
    simp only [step] at hstep
    split at hstep
    next u hn =>
      cases hstep
      exact .inl (.setCall hn rfl rfl)
    next u revision hn =>
      cases hstep
      exact .inl (.setCall hn rfl rfl)
    next u snapshot rows hn =>
      cases hstep
      exact .inl (.setCall hn rfl rfl)
    · cases hstep
  | others events =>
    cases hstep
    exact .inl ⟨rfl, rfl, (fun n hn => by cases hn), fun _ _ _ => Iff.rfl, rfl⟩

/-- The revision counts the updates that have succeeded. -/
theorem step_count (h : Inv w) (hcount : w.tables.revision = 1 + w.calls.countP Call.isSucceeded)
    (hstep : step w l = some w') : w'.tables.revision = 1 + w'.calls.countP Call.isSucceeded := by
  rcases step_cases hstep with hquiet | ⟨n, ts, u, snapshot, rows, events, rfl, hn, rfl⟩
  · rw [hquiet.revision, hquiet.count]
    exact hcount
  · obtain ⟨-, hnext, -⟩ := h.calls n _ hn
    have hset := countP_set_call hn (.succeeded u snapshot)
    simp only [Call.isSucceeded] at hset
    show snapshot.revision = 1 +
      ((w.calls.set n (.succeeded u snapshot)).countP Call.isSucceeded : Int)
    simp only [Bool.false_eq_true, if_false, if_true] at hset
    omega

end step

theorem run_count {w : World} {events : EventTables} {ls : List Label}
    (h : Run (Steps step) (migrated events) ls w) :
    w.tables.revision = 1 + w.calls.countP Call.isSucceeded := by
  have hboth : Inv w ∧ w.tables.revision = 1 + w.calls.countP Call.isSucceeded := by
    refine h.invariant (P := fun w => Inv w ∧ w.tables.revision = 1 +
      w.calls.countP Call.isSucceeded) ?_ ?_
    · rintro s l t ⟨hinv, hcount⟩ hs
      exact ⟨hinv.step l hs, step_count hinv hcount hs⟩
    · exact ⟨inv_migrated events, rfl⟩
  exact hboth.2

/-- Whatever the interleaving of reads and updates: the step in which an update succeeds
moves the revision on by one, from the revision it named, and every read that has returned
that revision returned the values in force right before; a success stands; a step of an update
in which it does not succeed leaves settings and audit trail alone; and the revision counts
the successes. -/
theorem updates_lose_nothing {events : EventTables} {ls : List Label} {w w' : World} {l : Label}
    (hrun : Run (Steps step) (migrated events) ls w) (hstep : step w l = some w') :
    (∀ (n : Nat) u snapshot, w'.calls[n]? = some (.succeeded u snapshot) →
      w.calls[n]? ≠ some (.succeeded u snapshot) →
      w'.tables.revision = w.tables.revision + 1 ∧ w.tables.revision = u.expectedRevision ∧
        ∀ read, Get.returned read ∈ w.gets → read.revision = u.expectedRevision →
          read.values = inForce (readValues w.tables.settings)) ∧
      (∀ (n : Nat) u snapshot, w.calls[n]? = some (.succeeded u snapshot) →
        w'.calls[n]? = some (.succeeded u snapshot)) ∧
      (∀ n, l.call = some n → (∀ u snapshot, w'.calls[n]? ≠ some (.succeeded u snapshot)) →
        w'.tables = w.tables) ∧
      w'.tables.revision = 1 + w'.calls.countP Call.isSucceeded := by
  have hinv := run_inv hrun
  refine ⟨fun n u snapshot hafter hbefore => ?_, fun n u snapshot hbefore =>
    ?_, fun n hn hfailed => ?_,
    step_count hinv (run_count hrun) hstep⟩
  · rcases step_cases hstep with hquiet | ⟨m, ts, u', snapshot', rows, events, rfl, hm, rfl⟩
    · exact absurd ((hquiet.same n u snapshot).mp hafter) hbefore
    · rcases set_cases hafter with ⟨rfl, he⟩ | ⟨-, hsame⟩
      · cases he
        obtain ⟨hexpected, hnext, -⟩ := hinv.calls _ _ hm
        refine ⟨hnext, hexpected.symm, fun read hread hrevision => ?_⟩
        obtain ⟨-, -, hvalues⟩ := hinv.gets _ hread
        exact hvalues (hrevision.trans hexpected)
      · exact absurd hsame hbefore
  · rcases step_cases hstep with hquiet | ⟨m, ts, u', snapshot', rows, events, rfl, hm, rfl⟩
    · exact (hquiet.same n u snapshot).mpr hbefore
    · have hne : m ≠ n := by
        rintro rfl
        rw [hbefore] at hm
        cases hm
      exact (List.getElem?_set_ne hne).trans hbefore
  · rcases step_cases hstep with hquiet | ⟨m, ts, u, snapshot, rows, events, rfl, hm, rfl⟩
    · exact hquiet.call n hn
    · obtain rfl : m = n := Option.some.inj hn
      obtain ⟨hlt, -⟩ := List.getElem?_eq_some_iff.mp hm
      exact absurd (by simp [hlt]) (hfailed u snapshot)

/-- A read, and then the update of a locale, up to its commit. -/
def sampleLabels : List Label :=
  [.get, .getValues 0, .update ⟨"req", some ⟨.sharedAdminToken, "", "admin", ""⟩, "PUT",
    none⟩ (settingsETag 1)
    ⟨[(defaultLocale, "en-US")], List.nodup_singleton _⟩, .lock 0, .write 0 0]

def sampleCommit : Label := .commit 0 [⟨0, fun k => Fin.ofNat _ (k + 1), fun _ => 0, .plain⟩]

/-- The revision that a read has returned. -/
def Get.returnedRevision : Get → Option Int
  | .returned snapshot => some snapshot.revision
  | _ => none

/-- The revision that a successful update named. -/
def Call.succeededOn : Call → Option Int
  | .succeeded u _ => some u.expectedRevision
  | _ => none

theorem updates_lose_nothing_sample : ∃ w w' read, Run (Steps step) (migrated {}) sampleLabels w ∧
    step w sampleCommit = some w' ∧ w.gets = [.returned read] ∧ read.revision = 1 ∧
      read.values = inForce (readValues w.tables.settings) ∧ w'.tables.revision = 2 := by
  have hrevisions : (exec step (migrated {}) sampleLabels).bind (fun w =>
    (step w sampleCommit).map fun w' =>
      (w.tables.revision, w.gets.map Get.returnedRevision, w.calls.map Call.succeededOn,
        w'.calls.map Call.succeededOn)) =
        some (1, [some 1], [none], [some 1]) := by decide +kernel
  obtain ⟨w, hw, hstep⟩ := Option.bind_eq_some_iff.mp hrevisions
  obtain ⟨w', hw', heq⟩ := Option.map_eq_some_iff.mp hstep
  simp only [Prod.mk.injEq] at heq
  obtain ⟨hrevision, hgets, hbefore, hafter⟩ := heq
  have hrun := exec_eq_some_iff.mp hw
  have hlaws := updates_lose_nothing hrun hw'
  obtain ⟨g, hg, hread⟩ := List.map_eq_singleton_iff.mp hgets
  obtain ⟨c, hc, hnamed⟩ := List.map_eq_singleton_iff.mp hafter
  obtain ⟨c₀, hc₀, hnone⟩ := List.map_eq_singleton_iff.mp hbefore
  cases g with
  | revisionRead revision => cases hread
  | failed => cases hread
  | returned read =>
    cases c with
    | begun u => cases hnamed
    | locked u revision => cases hnamed
    | written u snapshot rows => cases hnamed
    | failed answer => cases hnamed
    | succeeded u snapshot =>
      have hread : read.revision = 1 := Option.some.inj hread
      have hnamed : u.expectedRevision = 1 := Option.some.inj hnamed
      have hnew : w.calls[0]? ≠ some (.succeeded u snapshot) := by
        rw [hc₀]
        rintro ⟨⟩
        cases hnone
      obtain ⟨hmoves, -, hvalues⟩ := hlaws.1 0 u snapshot (by rw [hc]; rfl) hnew
      refine ⟨w, w', read, hrun, hw', hg, hread, hvalues read ?_ (hread.trans hnamed.symm), ?_⟩
      · rw [hg]
        exact List.mem_singleton.mpr rfl
      · rw [hmoves, hrevision]
        rfl

end Tenancit.Settings
