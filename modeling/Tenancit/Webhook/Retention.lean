import Tenancit.Webhook.DeadLetters

/-!
`webhook/retention.go` statement by statement, beside the other transactions on deliveries. A
statement selects its rows from the store as it is committed when the statement begins, visits
each of them when nobody else has it locked, and tests its condition again on the row as it is
then; of a table that it only reads it keeps the rows it began with. What it deletes stays
locked, and is gone for the others at the commit.
-/
namespace Tenancit.Webhook

open Store Table Transactions Transactions.System

/-- `AddDate(0, 0, days)` of a time in UTC, where every day has 24 hours. -/
def addDays (t : Timestamp) (days : Int) : Timestamp := t + Timestamp.seconds (86400 * days)

/-- The statements of `runRetentionOnce`, each with the rows that it has still to visit. -/
inductive Phase where
  | begun
  | deadLetters (todo : List (WebhookDeadLetter × WebhookDelivery))
  | deadLettersDone
  | deliveries (todo : List WebhookDelivery)
  | deliveriesDone
  | outbox (todo : List OutboxEvent)
  | outboxDone

/-- An open transaction of `runRetentionOnce`, with the keys of the rows deleted so far. -/
structure Retention where
  deliveryCutoff : Timestamp
  eventCutoff : Timestamp
  phase : Phase := .begun
  deadLetters : List UUID := []
  deliveries : List UUID := []
  events : List UUID := []

namespace Retention

/-- The tables as the transaction itself sees them. -/
def view (r : Retention) (s : EventTables) : EventTables :=
  { s with
    deadLetters := delete (fun l => l.deliveryId ∈ r.deadLetters) s.deadLetters
    deliveries := delete (fun d => d.id ∈ r.deliveries) s.deliveries
    outbox := delete (fun e => e.id ∈ r.events) s.outbox }

/-- `dl.delivery_id=d.id AND d.status IN ('delivered','dead_letter') AND d.updated_at<$1` -/
def joined (cutoff : Timestamp) (l : WebhookDeadLetter) (d : WebhookDelivery) : Bool :=
  l.deliveryId = d.id && Retired cutoff d

/-- `e.occurred_at<$1 AND NOT EXISTS(…)` -/
def orphaned (cutoff : Timestamp) (deliveries : List WebhookDelivery) (e : OutboxEvent) : Bool :=
  e.occurredAt < cutoff && !deliveries.any fun d => d.eventId = e.id

/-- The next statement begins. -/
def select (r : Retention) (s : EventTables) : Option Retention :=
  match r.phase with
  | .begun => some { r with phase := .deadLetters (s.deadLetters.flatMap fun l =>
      (s.deliveries.filter (joined r.deliveryCutoff l)).map fun d => (l, d)) }
  | .deadLettersDone =>
    some { r with phase := .deliveries (s.deliveries.filter fun d => Retired r.deliveryCutoff d) }
  | .deliveriesDone =>
    some { r with
      phase := .outbox (s.outbox.filter (orphaned r.eventCutoff (r.view s).deliveries)) }
  | _ => none

/-- One of the selected rows is visited: what is locked for it, and what has become of the run. -/
def visit (r : Retention) (s : EventTables) (i : Nat) : Option (List RowKey × Retention) :=
  match r.phase with
  | .deadLetters todo => todo[i]?.map fun x =>
    let r' := { r with phase := .deadLetters (todo.eraseIdx i) }
    -- the letter as it is now, but the delivery that it was joined to
    ([.deadLetter x.1.deliveryId],
      if (rowsAt WebhookDeadLetter.deliveryId x.1.deliveryId s.deadLetters).any
        (joined r.deliveryCutoff · x.2) then
        { r' with deadLetters := x.1.deliveryId :: r.deadLetters }
      else r')
  | .deliveries todo => todo[i]?.map fun d =>
    let r' := { r with phase := .deliveries (todo.eraseIdx i) }
    ([.delivery d.id],
      if (rowsAt WebhookDelivery.id d.id s.deliveries).any fun d => Retired r.deliveryCutoff d then
        { r' with deliveries := d.id :: r.deliveries }
      else r')
  -- nobody locks or changes an event
  | .outbox todo => todo[i]?.map fun e =>
    ([], { r with phase := .outbox (todo.eraseIdx i), events := e.id :: r.events })
  | _ => none

/-- A statement ends, and no row may refer to one that it has deleted. -/
def finish (r : Retention) (s : EventTables) : Option (Except PgError Retention) :=
  match r.phase with
  | .deadLetters [] => some (.ok { r with phase := .deadLettersDone })
  | .deliveries [] => some
      (if ∃ l ∈ (r.view s).deadLetters, l.deliveryId ∈ r.deliveries then .error .foreignKeyViolation
      else .ok { r with phase := .deliveriesDone })
  | .outbox [] => some
      (if ∃ d ∈ (r.view s).deliveries, d.eventId ∈ r.events then .error .foreignKeyViolation
      else .ok { r with phase := .outboxDone })
  | _ => none

end Retention

/-- The transactions on deliveries with the one of retention, where that is open. -/
structure RetentionWorld where
  world : World
  run : Option Retention := none

namespace RetentionWorld

/-- The number under which the locks of retention stand. -/
def retention : Nat := 0

inductive Label where
  /-- A cycle of `RunRetention`, with the policy it has read and the time. -/
  | begin_ (policy : Option (Int × Int)) (current : Timestamp)
  | select
  | visit (i : Nat)
  | finish
  | commit
  | rollback
  | other (l : Transactions.Label Operation Direct)

/-- The steps of others: transactions on deliveries, and claims. -/
def Others : Transactions.Label Operation Direct → Prop
  | .direct (.claim _ _ _ _) => True
  | .direct _ => False
  | l => l.session ≠ some retention

instance (l : Transactions.Label Operation Direct) : Decidable (Others l) := by
  unfold Others
  split <;> infer_instance

/-- The transaction ends without a change of the store. -/
def rolledBack (w : RetentionWorld) : RetentionWorld := ⟨close w.world retention, none⟩

def step (w : RetentionWorld) : Label → Option RetentionWorld
  | .begin_ policy current => match w.run, policy with
    | some _, _ => none
    -- the policy could not be read
    | none, none => some w
    | none, some (deliveryDays, eventDays) =>
      if deliveryDays ≤ 0 ∨ eventDays ≤ 0 then some w
      else some { w with
        run :=
          some ⟨addDays current (-deliveryDays), addDays current (-eventDays), .begun, [], [], []⟩ }
  | .select => w.run.bind fun r => (r.select w.world.store).map fun r' => { w with run := some r' }
  | .visit i => w.run.bind fun r => (r.visit w.world.store i).bind fun x =>
      if ∀ k ∈ x.1, Locks.Free w.world.locks retention k then
        some ⟨{ w.world with locks := Locks.acquire w.world.locks retention x.1 }, some x.2⟩
      else none
  | .finish => w.run.bind fun r => (r.finish w.world.store).map fun
      | .ok r' => { w with run := some r' }
      | .error _ => w.rolledBack
  | .commit => w.run.bind fun r => match r.phase with
    | .outboxDone => some ⟨{ close w.world retention with store := r.view w.world.store }, none⟩
    | _ => none
  | .rollback => w.run.map fun _ => w.rolledBack
  | .other l =>
    if Others l then (deliverySystem.step w.world l).map fun u => { w with world := u } else none

/-- Nothing is open. -/
def idle (s : EventTables) : RetentionWorld := ⟨Transactions.System.initial s, none⟩

end RetentionWorld

/-- What a run of retention is for: of the old, the deliveries that are over go with their dead
letters, and the events to which no delivery remains. -/
structure RemovesExactly (deliveryCutoff eventCutoff : Timestamp) (s s' : EventTables) : Prop where
  deliveries : s'.deliveries = delete (fun d => Retired deliveryCutoff d) s.deliveries
  deadLetters : s'.deadLetters =
    delete (fun l => s.deliveries.any (Retention.joined deliveryCutoff l)) s.deadLetters
  outbox : s'.outbox = delete (Retention.orphaned eventCutoff s'.deliveries) s.outbox
  targets : s'.targets = s.targets
  audit : s'.audit = s.audit

/-- The keys and the references of the tables that retention deletes from. -/
structure Referenced (s : EventTables) : Prop where
  events : Keyed OutboxEvent.id s.outbox
  deliveries : Keyed WebhookDelivery.id s.deliveries
  letters : Keyed WebhookDeadLetter.deliveryId s.deadLetters
  lettersOwned : LettersOwned s
  deliveriesOwned : ∀ d ∈ s.deliveries, ∃ e ∈ s.outbox, e.id = d.eventId

end Tenancit.Webhook
