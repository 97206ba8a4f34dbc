import Tenancit.Lib.Dates
import Tenancit.Lib.Tally
import Tenancit.Store.Clients

/-!
The usage collector (`usage/collector.go`): the events of a batch are folded into the last
use of each client and the counts of each day, and each entry of the two maps becomes a
statement. Times of events are nanoseconds since 1970.
-/
namespace Tenancit.Usage

open Encoding Store Store.Queries

structure Event where
  apiClientID : UUID
  operation : String
  status : Int
  rateLimited : Bool
  at_ : Int
  deriving DecidableEq

/-- The zero `time.Time`. -/
def zeroTime : Int := -62135596800000000000

/-- What `Record` puts in the buffer: an event without a time gets the time of the call. -/
def Event.stamped (e : Event) (now : Int) : Event :=
  if e.at_ = zeroTime then { e with at_ := now } else e

/-- The time of an event as a `timestamptz` keeps it. -/
def Event.usedAt (e : Event) : Timestamp := e.at_ / 1000

def Event.statusClass (e : Event) : Int16 := Int16.ofInt (e.status.tdiv 100)

/-- The UTC day of an event, counted from 1 January 1970. -/
def Event.day (e : Event) : Int := e.at_ / 86400000000000

/-- `usageKey` with the day as a text, and the primary key of `api_client_usage_daily`. -/
structure UsageKey (δ : Type) where
  day : δ
  apiClientID : UUID
  operation : String
  statusClass : Int16
  deriving DecidableEq

structure UsageCount where
  requests : Nat
  rateLimited : Nat
  deriving DecidableEq

namespace UsageCount

/-- The events that were rate-limited, or those that were not. -/
def of (count : UsageCount) (limited : Bool) : Nat :=
  if limited then count.rateLimited else count.requests

def add (count more : UsageCount) : UsageCount :=
  ⟨count.requests + more.requests, count.rateLimited + more.rateLimited⟩

def increment (count : UsageCount) (limited : Bool) : UsageCount :=
  if limited then { count with rateLimited := count.rateLimited + 1 }
  else { count with requests := count.requests + 1 }

variable {count more : UsageCount} {limited limited' : Bool}

@[simp] theorem add_of : (count.add more).of limited = count.of limited + more.of limited := by
  cases limited <;> rfl

@[simp] theorem increment_of :
    (count.increment limited).of limited' = count.of limited' +
      if limited = limited' then 1 else 0 := by
  cases limited <;> cases limited' <;> rfl

end UsageCount

def Event.usageKey (e : Event) : UsageKey String :=
  ⟨dateText e.day, e.apiClientID, e.operation, e.statusClass⟩

structure EventBatch where
  lastUsed : AList fun _ : UUID => Int
  usage : AList fun _ : UsageKey String => UsageCount

/-- The body of the loop of `aggregateEvents`. -/
def EventBatch.add (batch : EventBatch) (e : Event) : EventBatch where
  lastUsed :=
    if (batch.lastUsed.lookup e.apiClientID).getD zeroTime < e.at_
      then batch.lastUsed.insert e.apiClientID e.at_
    else batch.lastUsed
  usage :=
    batch.usage.insert e.usageKey
      (((batch.usage.lookup e.usageKey).getD ⟨0, 0⟩).increment e.rateLimited)

def aggregateEvents (events : List Event) : EventBatch := events.foldl EventBatch.add ⟨∅, ∅⟩

inductive Statement
  | touchAPIClientLastUsed (apiClientID : UUID) (usedAt : Timestamp)
  | upsertAPIClientUsageDaily (key : UsageKey Int) (count : UsageCount)
  deriving DecidableEq

namespace EventBatch

def touch (x : (_ : UUID) × Int) : Statement := .touchAPIClientLastUsed x.1 (x.2 / 1000)

/-- An entry whose day cannot be parsed is passed over. -/
def upsert (x : (_ : UsageKey String) × UsageCount) : Option Statement :=
  (parseDate x.1.day).map fun day => .upsertAPIClientUsageDaily { x.1 with day := day } x.2

def touches (batch : EventBatch) : List Statement := batch.lastUsed.entries.map touch

def upserts (batch : EventBatch) : List Statement := batch.usage.entries.filterMap upsert

end EventBatch

/-- A row of `api_client_usage_daily`. -/
structure DailyUsage where
  key : UsageKey Int
  count : UsageCount
  deriving DecidableEq

structure UsageTables extends ClientTables where
  daily : List DailyUsage := []

/-- The operations of `api_client_usage_daily_operation_check`. -/
def usageOperations : List String := ["identify", "resolve", "events", "tenants", "write"]

/-- The check constraints of `api_client_usage_daily` and the range of its counts. -/
def DailyUsage.Ok (row : DailyUsage) : Prop :=
  (row.key.operation ∈ usageOperations ∧ 2 ≤ row.key.statusClass ∧ row.key.statusClass ≤ 5) ∧
    row.count.requests < 2 ^ 63 ∧ row.count.rateLimited < 2 ^ 63

instance (row : DailyUsage) : Decidable row.Ok := inferInstanceAs (Decidable (_ ∧ _))

def DailyUsage.add (more : UsageCount) (row : DailyUsage) : DailyUsage :=
  { row with count := row.count.add more }

def minute : Duration := Timestamp.seconds 60

/-- Whether `TouchAPIClientLastUsed` reaches a row. -/
def Touches (apiClientID : UUID) (usedAt : Timestamp) (c : ApiClient) : Prop :=
  c.id = apiClientID ∧ ∀ last ∈ c.lastUsedAt, last < usedAt - minute

instance (apiClientID : UUID) (usedAt : Timestamp) (c : ApiClient) :
    Decidable (Touches apiClientID usedAt c) :=
  inferInstanceAs (Decidable (_ ∧ _))

def setLastUsed (usedAt : Timestamp) (c : ApiClient) : ApiClient :=
  { c with lastUsedAt := some (max (c.lastUsedAt.getD usedAt) usedAt) }

/-- The effect of a statement; none where it fails a check. -/
def Statement.exec : Statement → UsageTables → Option UsageTables
  | .touchAPIClientLastUsed apiClientID usedAt, s =>
    some { s with
      clients :=
        Table.update (fun c => Touches apiClientID usedAt c) (setLastUsed usedAt) s.clients }
  | .upsertAPIClientUsageDaily key count, s =>
    if ¬DailyUsage.Ok ⟨key, count⟩ then none
    else match Table.lookup DailyUsage.key key s.daily with
      | none => some { s with daily := s.daily ++ [⟨key, count⟩] }
      | some row =>
        if (row.add count).Ok then
          some { s with
            daily := Table.update (fun r => r.key = key) (DailyUsage.add count) s.daily }
        else none

section counts

variable {key : UsageKey Int} {limited : Bool}

/-- The count of a day in the table; nothing where it has no row. -/
def UsageTables.counted (s : UsageTables) (key : UsageKey Int) (limited : Bool) : Nat :=
  (Table.lookup DailyUsage.key key s.daily).elim 0 fun row => row.count.of limited

/-- What a statement adds to a count. -/
def Statement.adds (key : UsageKey Int) (limited : Bool) : Statement → Nat
  | .touchAPIClientLastUsed _ _ => 0
  | .upsertAPIClientUsageDaily key' count => if key' = key then count.of limited else 0

theorem Statement.exec_counted {x : Statement} {s s' : UsageTables} (h : x.exec s = some s') :
    s'.counted key limited = s.counted key limited + x.adds key limited := by
  cases x with
  | touchAPIClientLastUsed apiClientID usedAt =>
    cases h
    rfl
  | upsertAPIClientUsageDaily key' count =>
    simp only [exec, Option.ite_none_left_eq_some] at h
    obtain ⟨-, h⟩ := h
    unfold UsageTables.counted adds
    split at h
    next hnone =>
      cases h
      rw [Table.lookup_append, Table.lookup_cons, Table.lookup_nil]
      by_cases hkey : key' = key
      · subst hkey
        simp [hnone]
      · simp [hkey]
    next row hrow =>
      simp only [Option.ite_none_right_eq_some, Option.some.injEq] at h
      obtain ⟨-, rfl⟩ := h
      have hkeep : ∀ r : DailyUsage, (r.add count).key = r.key := fun _ => rfl
      dsimp only
      rw [Table.lookup_update hkeep]
      by_cases hkey : key' = key
      · subst hkey
        simp [hrow, Table.key_of_lookup hrow, DailyUsage.add]
      · cases hlookup : Table.lookup DailyUsage.key key s.daily with
        | none => simp [hkey]
        | some r =>
          have hne : r.key ≠ key' := fun he => hkey (he.symm.trans (Table.key_of_lookup hlookup))
          simp [hkey, hne]

/-- The key of an event by its day. -/
def Event.dailyKey (e : Event) : UsageKey Int := ⟨e.day, e.apiClientID, e.operation, e.statusClass⟩

/-- How many of the events belong to a row, rate-limited or not. -/
def tally (key : UsageKey Int) (limited : Bool) (events : List Event) : Nat :=
  events.countP fun e => e.dailyKey = key ∧ e.rateLimited = limited

@[simp] theorem tally_nil : tally key limited [] = 0 := rfl

theorem tally_cons (e : Event) (es : List Event) :
    tally key limited (e :: es) = tally key limited es + if e.dailyKey = key ∧
    e.rateLimited = limited then 1 else 0 := by
  simp [tally, List.countP_cons]

@[simp] theorem tally_append (es es' : List Event) :
    tally key limited (es ++ es') = tally key limited es + tally key limited es' :=
  List.countP_append

/-- What the entry of an event's key adds to a count of a day that can be written and parsed. -/
theorem upsert_adds (hday : FourDigitYear key.day) (e : Event) (count : UsageCount) :
    ((EventBatch.upsert ⟨e.usageKey, count⟩).elim 0 (Statement.adds key limited)) =
      if e.dailyKey = key then count.of limited else 0 := by
  by_cases hyear : FourDigitYear e.day
  · have hparse : parseDate (dateText e.day) = some e.day := parseDate_dateText e.day hyear
    simp only [EventBatch.upsert, Event.usageKey, hparse]
    rfl
  · have hparse : parseDate (dateText e.day) = none :=
      Option.eq_none_iff_forall_ne_some.mpr fun d hd =>
      hyear ((parseDate_dateText_iff e.day).mp hd).2
    have hne : e.dailyKey ≠ key := by
      rintro rfl
      exact hyear hday
    simp only [EventBatch.upsert, Event.usageKey, hparse, if_neg hne]
    rfl

theorem EventBatch.add_adds (hday : FourDigitYear key.day) (batch : EventBatch) (e : Event) :
    ((batch.add e).upserts.map (Statement.adds key limited)).sum =
      (batch.upserts.map (Statement.adds key limited)).sum + if e.dailyKey = key ∧
      e.rateLimited = limited then 1 else 0 := by
  have hinsert :=
    Tally.sum_insert (fun x => (upsert x).elim 0 (Statement.adds key limited)) e.usageKey
    (((batch.usage.lookup e.usageKey).getD ⟨0, 0⟩).increment e.rateLimited) batch.usage
  have hold : ((batch.usage.lookup e.usageKey).elim 0 fun u =>
    (upsert ⟨e.usageKey, u⟩).elim 0 (Statement.adds key limited)) =
      if e.dailyKey = key then ((batch.usage.lookup e.usageKey).getD ⟨0, 0⟩).of limited else 0 := by
    cases batch.usage.lookup e.usageKey with
    | none => cases limited <;> simp [UsageCount.of]
    | some u => exact upsert_adds hday e u
  rw [hold, upsert_adds hday, UsageCount.increment_of] at hinsert
  unfold upserts
  rw [Tally.sum_map_filterMap, Tally.sum_map_filterMap]
  simp only [add]
  by_cases hkey : e.dailyKey = key
  · simp only [hkey, true_and, if_true] at hinsert ⊢
    omega
  · simp only [hkey, false_and, if_false] at hinsert ⊢
    omega

/-- The statements of a batch add up to the events in it, in whatever order they run. -/
theorem aggregateEvents_adds (hday : FourDigitYear key.day) (events : List Event) :
    ((aggregateEvents events).upserts.map (Statement.adds key limited)).sum =
      tally key limited events := by
  suffices h : ∀ batch : EventBatch,
    ((events.foldl EventBatch.add batch).upserts.map (Statement.adds key limited)).sum =
      (batch.upserts.map (Statement.adds key limited)).sum + tally key limited events by
    rw [aggregateEvents, h]
    exact Nat.zero_add _
  induction events with
  | nil => exact fun _ => rfl
  | cons e es ih =>
    intro batch
    rw [List.foldl_cons, ih, EventBatch.add_adds hday, tally_cons]
    omega

end counts

section lastUsed

/-- The map has a time for the client of the event, no earlier than the event's. -/
def EventBatch.Covers (batch : EventBatch) (e : Event) : Prop :=
  ∃ at_, batch.lastUsed.lookup e.apiClientID = some at_ ∧ e.at_ ≤ at_

variable {batch : EventBatch} {e e' : Event}

theorem EventBatch.add_covers (h : zeroTime < e.at_) : (batch.add e).Covers e := by
  unfold Covers add
  dsimp only
  split
  · exact ⟨e.at_, AList.lookup_insert _, le_rfl⟩
  next hnot =>
    cases hlookup : batch.lastUsed.lookup e.apiClientID with
    | none =>
      rw [hlookup] at hnot
      exact absurd h hnot
    | some at_ =>
      rw [hlookup] at hnot
      exact ⟨at_, rfl, not_lt.mp hnot⟩

theorem EventBatch.Covers.add (h : batch.Covers e) (e' : Event) : (batch.add e').Covers e := by
  obtain ⟨at_, hlookup, hle⟩ := h
  unfold Covers EventBatch.add
  dsimp only
  split
  next hlater =>
    by_cases hclient : e.apiClientID = e'.apiClientID
    · rw [← hclient, hlookup] at hlater
      rw [hclient]
      exact ⟨e'.at_, AList.lookup_insert _, hle.trans hlater.le⟩
    · rw [AList.lookup_insert_ne hclient]
      exact ⟨at_, hlookup, hle⟩
  · exact ⟨at_, hlookup, hle⟩

/-- Every event after the zero time is covered by the batch it is in. -/
theorem aggregateEvents_covers {events : List Event} (he : e ∈ events) (h : zeroTime < e.at_) :
    (aggregateEvents events).Covers e := by
  induction events using List.reverseRecOn with
  | nil => cases he
  | append_singleton es e' ih =>
    rw [aggregateEvents, List.foldl_append]
    rcases List.mem_append.mp he with hes | hlast
    · exact (ih hes).add e'
    · obtain rfl := List.mem_singleton.mp hlast
      exact EventBatch.add_covers h

/-- The times of the map are after the zero time. -/
theorem aggregateEvents_after {events : List Event} :
    ∀ x ∈ (aggregateEvents events).lastUsed.entries, zeroTime < x.2 := by
  induction events using List.reverseRecOn with
  | nil => nofun
  | append_singleton es e' ih =>
    intro x hx
    rw [aggregateEvents, List.foldl_append] at hx
    change x ∈ ((aggregateEvents es).add e').lastUsed.entries at hx
    unfold EventBatch.add at hx
    dsimp only at hx
    split at hx
    next hlater =>
      rw [AList.entries_insert] at hx
      rcases List.mem_cons.mp hx with rfl | hx
      · cases hlookup : (aggregateEvents es).lastUsed.lookup e'.apiClientID with
        | none =>
          rw [hlookup] at hlater
          exact hlater
        | some at_ =>
          rw [hlookup] at hlater
          exact (ih _ (AList.mem_lookup_iff.mp hlookup)).trans hlater
      · exact ih x ((List.kerase_sublist _ _).subset hx)
    · exact ih x hx

/-- An event after the zero time has a statement in its batch that touches its client. -/
theorem exists_touch {events : List Event} (he : e ∈ events) (h : zeroTime < e.at_) :
    ∃ usedAt, .touchAPIClientLastUsed e.apiClientID usedAt ∈ (aggregateEvents events).touches ∧
      e.usedAt ≤ usedAt := by
  obtain ⟨at_, hlookup, hle⟩ := aggregateEvents_covers he h
  exact ⟨at_ / 1000, List.mem_map.mpr ⟨⟨_, at_⟩, AList.mem_lookup_iff.mp hlookup, rfl⟩,
    Int.ediv_le_ediv (by decide) hle⟩

theorem zero_le_of_touch {events : List Event} {apiClientID : UUID} {usedAt : Timestamp}
    (h : .touchAPIClientLastUsed apiClientID usedAt ∈ (aggregateEvents events).touches) :
    Timestamp.zero ≤ usedAt := by
  obtain ⟨x, hx, heq⟩ := List.mem_map.mp h
  obtain ⟨-, rfl⟩ := Statement.touchAPIClientLastUsed.inj heq
  exact Int.ediv_le_ediv (by decide) (aggregateEvents_after x hx).le

theorem touch_notMem_upserts {batch : EventBatch} {apiClientID : UUID} (usedAt : Timestamp) :
    .touchAPIClientLastUsed apiClientID usedAt ∉ batch.upserts := by
  intro h
  obtain ⟨x, -, hx⟩ := List.mem_filterMap.mp h
  obtain ⟨day, -, hstatement⟩ := Option.map_eq_some_iff.mp hx
  cases hstatement

end lastUsed

end Tenancit.Usage
