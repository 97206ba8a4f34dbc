import Tenancit.Adminauth.Sessions
import Tenancit.Settings.Updates

/-!
The policies that other components read from the settings. In every reachable state they
are what their readers rely on: a session policy that the session manager accepts, and
retentions that are positive and ordered.
-/
namespace Tenancit.Settings

open Encoding Store Text Adminauth Runs

/-- The product of a number and a unit of time, as an `int64`. -/
def duration (n : Int) (unit : Nanoseconds) : Nanoseconds := (n * unit).bmod (2 ^ 64)

/-- `strconv.Atoi` of a setting. -/
def setting (snapshot : Snapshot) (key : String) : Option Int :=
  atoi ((snapshot.values key).getD "")

def sessionPolicy (snapshot : Snapshot) : Policy := do
  let absoluteHours ← setting snapshot sessionAbsoluteHours
  let idleMinutes ← setting snapshot sessionIdleMinutes
  pure (duration absoluteHours (3600 * second), duration idleMinutes (60 * second))

def webhookRetention (snapshot : Snapshot) : Option (Int × Int) := do
  let deliveries ← setting snapshot webhookDeliveryRetentionDays
  let events ← setting snapshot outboxEventRetentionDays
  pure (deliveries, events)

/-- What the readers of policies rely on. -/
structure Governs (snapshot : Snapshot) : Prop where
  sound : Sound snapshot.values
  session : (policyFor (sessionPolicy snapshot)).isSome = true
  webhook : ∃ deliveries events, webhookRetention snapshot = some (deliveries, events) ∧ 0 <
    deliveries ∧ deliveries ≤ events

/-- A number setting of sound values is in its range. -/
theorem Sound.number {snapshot : Snapshot} (h : Sound snapshot.values)
    {key defaultValue owner : String} {low high : Int}
    (hkey : define key = some (integerDefinition key defaultValue owner low high)) :
    ∃ n, setting snapshot key = some n ∧ Settings.number snapshot.values key =
      n ∧ low ≤ n ∧ n ≤ high := by
  obtain ⟨value, hvalue, n, hn, hlow, hhigh⟩ := h.allowed key _ hkey
  refine ⟨n, ?_, ?_, hlow, hhigh⟩
  · rw [setting, hvalue]
    exact hn
  · rw [Settings.number, hvalue]
    exact atoiValue_of_atoi hn

theorem duration_eq {n u : Int} (h : 0 ≤ n * u) (hlt : n * u < 2 ^ 63) : duration n u = n * u :=
  Int.bmod_eq_of_le_mul_two (by omega) (by omega)

/-- The session policy of sound values: whole hours, and whole minutes within them. -/
theorem Sound.sessionPolicy_eq {snapshot : Snapshot} (h : Sound snapshot.values) :
    ∃ hours minutes : Int, sessionPolicy snapshot =
      some (hours * 3600000000000, minutes * 60000000000) ∧
      5 ≤ minutes ∧ minutes ≤ 120 ∧ minutes ≤ hours * 60 := by
  have hhours : define sessionAbsoluteHours =
      some (integerDefinition sessionAbsoluteHours "8" "security" 1 24) := by
    decide +kernel
  have hminutes : define sessionIdleMinutes =
      some (integerDefinition sessionIdleMinutes "30" "security" 5 120) := by
    decide +kernel
  obtain ⟨hours, hhours, hhoursNumber, hlow, hhigh⟩ := h.number hhours
  obtain ⟨minutes, hminutes, hminutesNumber, hlow', hhigh'⟩ := h.number hminutes
  obtain ⟨hidle, -⟩ := h.ordered
  refine ⟨hours, minutes, ?_, hlow', hhigh', by omega⟩
  have habsolute : duration hours (3600 * second) = hours * 3600000000000 :=
    duration_eq (u := 3600000000000) (by omega) (by omega)
  have hidleTTL : duration minutes (60 * second) = minutes * 60000000000 :=
    duration_eq (u := 60000000000) (by omega) (by omega)
  rw [sessionPolicy, hhours, hminutes, ← habsolute, ← hidleTTL]
  rfl

theorem Sound.governs {snapshot : Snapshot} (h : Sound snapshot.values) : Governs snapshot := by
  have hdeliveries : define webhookDeliveryRetentionDays =
      some (integerDefinition webhookDeliveryRetentionDays "30" "operations" 7 365) := by
        decide +kernel
  have hevents : define outboxEventRetentionDays =
      some (integerDefinition outboxEventRetentionDays "90" "operations" 30 730) := by
        decide +kernel
  obtain ⟨deliveries, hdeliveries, hdeliveriesNumber, hpositive, -⟩ := h.number hdeliveries
  obtain ⟨events, hevents, heventsNumber, -, -⟩ := h.number hevents
  obtain ⟨-, hretention⟩ := h.ordered
  refine ⟨h, ?_, deliveries, events, ?_, by omega, by omega⟩
  · obtain ⟨hours, minutes, hpolicy, hlow, hhigh, hordered⟩ := h.sessionPolicy_eq
    have hpositive : (0 : Int) < hours * 3600000000000 := by omega
    have hidlePositive : (0 : Int) < minutes * 60000000000 := by omega
    have hwithin : (minutes * 60000000000 : Int) ≤ hours * 3600000000000 := by omega
    rw [policyFor_eq_some.mpr ⟨hpolicy, hpositive, hidlePositive, hwithin⟩]
    rfl
  · rw [webhookRetention, hdeliveries, hevents]
    rfl

/-- The settings policy invariant, whatever the updates and however they interleave: in
every reachable state the snapshot of the settings in force, and every snapshot that a read
has returned or an update answered, has values that the registry allows, an idle timeout
within the absolute lifetime, and events kept at least as long as deliveries; so its session
policy is accepted and its retentions are positive and ordered. -/
theorem policies_hold {events : EventTables} {ls : List Label} {w : World}
    (hrun : Run (Steps step) (migrated events) ls w) :
    Governs (readSnapshot w.tables.revision w.tables.settings) ∧
      (∀ read, Get.returned read ∈ w.gets → Governs read) ∧ ∀ u snapshot,
      Call.succeeded u snapshot ∈ w.calls → Governs snapshot := by
  have hinv := run_inv hrun
  refine ⟨Sound.governs (hinv.stored.sound hinv.ordered), fun read hread =>
    ?_, fun u snapshot hcall => ?_⟩
  · exact (hinv.gets _ hread).1.governs
  · obtain ⟨n, hn⟩ := List.mem_iff_getElem?.mp hcall
    have hsound : Sound snapshot.values := hinv.calls n _ hn
    exact hsound.governs

theorem policies_hold_sample :
    ∃ w, Run (Steps step) (migrated {}) (sampleLabels ++ [sampleCommit]) w ∧
    w.tables.revision = 2 ∧ Governs (readSnapshot w.tables.revision w.tables.settings) := by
  have hrevision : (exec step (migrated {}) (sampleLabels ++ [sampleCommit])).map (fun w =>
      w.tables.revision) = some 2 := by
    decide +kernel
  obtain ⟨w, hw, hrevision⟩ := Option.map_eq_some_iff.mp hrevision
  have hrun := exec_eq_some_iff.mp hw
  exact ⟨w, hrun, hrevision, (policies_hold hrun).1⟩

end Tenancit.Settings
