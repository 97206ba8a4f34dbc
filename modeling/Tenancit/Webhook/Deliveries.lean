import Tenancit.Lib.Transactions
import Tenancit.Store.Events

/-!
`webhook/store.go`, the replay handler of `httpapi/admin_webhooks.go` and
`webhook/retention.go` as statements on the tables of the outbox, and the transactions they
make up. A claim, the commit of published events and retention change rows nobody has locked.
-/
namespace Tenancit.Webhook

open Encoding Store Queries Table

/-- A delivery as `Claim` hands it out, with the counters read then. -/
structure Delivery where
  id : UUID
  eventId : UUID
  targetId : UUID
  leaseToken : UUID
  attemptCount : Int
  consecutiveFailures : Int
  deriving DecidableEq

deriving instance DecidableEq for WebhookDelivery

/-- The rows that statements lock; a dead letter is found by its delivery. -/
inductive RowKey where
  | target (id : UUID)
  | delivery (id : UUID)
  | deadLetter (deliveryId : UUID)
  deriving DecidableEq

inductive Row where
  | target (rows : List WebhookTarget)
  | delivery (rows : List WebhookDelivery)
  | deadLetter (rows : List WebhookDeadLetter)

/-- What stands in the tables under a key. -/
def row (s : EventTables) : RowKey → Row
  | .target id => .target (rowsAt WebhookTarget.id id s.targets)
  | .delivery id => .delivery (rowsAt WebhookDelivery.id id s.deliveries)
  | .deadLetter deliveryId =>
    .deadLetter (rowsAt WebhookDeadLetter.deliveryId deliveryId s.deadLetters)

/-- The range of an `integer` column. -/
def Int4 (n : Int) : Prop := -2 ^ 31 ≤ n ∧ n < 2 ^ 31

instance (n : Int) : Decidable (Int4 n) := inferInstanceAs (Decidable (_ ∧ _))

/-- `webhook_delivery_http_status_valid` -/
def HttpStatusOk (status : Option Int) : Prop := ∀ n ∈ status, 100 ≤ n ∧ n ≤ 599

instance (status : Option Int) : Decidable (HttpStatusOk status) := by
  unfold HttpStatusOk
  infer_instance

/-- The condition of both completions: the lease is still held. -/
def Leased (d : Delivery) (r : WebhookDelivery) : Prop :=
  r.id = d.id ∧ r.leaseToken = some d.leaseToken ∧ r.status = .delivering

instance (d : Delivery) (r : WebhookDelivery) : Decidable (Leased d r) :=
  inferInstanceAs (Decidable (_ ∧ _ ∧ _))

def setDelivered (now : Timestamp) (status : Int) (r : WebhookDelivery) : WebhookDelivery :=
  { r with
    status := .delivered
    deliveredAt := some now
    lastHttpStatus := some status
    lastErrorCode := none
    leaseToken := none
    leaseExpiresAt := none
    updatedAt := now }

def setFailed (now next : Timestamp) (status : Option Int) (code : String) (dead : Bool)
    (r : WebhookDelivery) : WebhookDelivery :=
  { r with
    status := if dead then .deadLetter else .retry
    nextAttemptAt := next
    lastHttpStatus := status
    lastErrorCode := some code
    leaseToken := none
    leaseExpiresAt := none
    updatedAt := now }

def setReplayed (now : Timestamp) (r : WebhookDelivery) : WebhookDelivery :=
  { r with
    status := .pending
    attemptCount := 0
    nextAttemptAt := now
    lastErrorCode := none
    lastHttpStatus := none
    updatedAt := now }

def setClaimed (now : Timestamp) (lease : Duration) (token : UUID) (r : WebhookDelivery) :
    WebhookDelivery :=
  { r with
    status := .delivering
    attemptCount := r.attemptCount + 1
    leaseToken := some token
    leaseExpiresAt := some (now + lease)
    updatedAt := now }

def setCircuitClosed (now : Timestamp) (t : WebhookTarget) : WebhookTarget :=
  { t with consecutiveFailures := 0, circuitOpenUntil := none, updatedAt := now }

def setFailureCounted (openUntil : Option Timestamp) (now : Timestamp) (t : WebhookTarget) :
    WebhookTarget :=
  { t with
    consecutiveFailures := t.consecutiveFailures + 1, circuitOpenUntil :=
      openUntil, updatedAt := now }

def setStatus (status : TargetStatus) (clock : Timestamp) (t : WebhookTarget) : WebhookTarget :=
  { t with status := status, updatedAt := clock }

def setLetterReplayed (now : Timestamp) (l : WebhookDeadLetter) : WebhookDeadLetter :=
  { l with replayedAt := some now }

/-- The statements of the transactions. -/
inductive Statement where
  | deliver (d : Delivery) (now : Timestamp) (status : Int)
  | closeCircuit (targetId : UUID) (now : Timestamp)
  | fail (d : Delivery) (now next : Timestamp) (status : Option Int) (code : String) (dead : Bool)
  | countFailure (targetId : UUID) (openUntil : Option Timestamp) (now : Timestamp)
  | insertDeadLetter (deliveryId : UUID) (code : String) (id : UUID) (clock : Timestamp)
  | replay (deliveryId : UUID) (now : Timestamp)
  | markReplayed (deliveryId : UUID) (now : Timestamp)
  | setTargetStatus (targetId : UUID) (status : TargetStatus) (clock : Timestamp)

namespace Statement

/-- The row a statement writes. -/
def rows : Statement → List RowKey
  | deliver d _ _ | fail d _ _ _ _ _ => [.delivery d.id]
  | replay deliveryId _ => [.delivery deliveryId]
  | closeCircuit targetId _ | countFailure targetId _ _ | setTargetStatus targetId _ _ =>
    [.target targetId]
  | insertDeadLetter deliveryId _ _ _ | markReplayed deliveryId _ => [.deadLetter deliveryId]

def exec (s : EventTables) : Statement → Option EventTables
  | deliver d now status =>
    if HttpStatusOk (some status) then
      (updateOne (fun r => Leased d r) (setDelivered now status) s.deliveries).map fun ds =>
        { s with deliveries := ds }
    else none
  | closeCircuit targetId now =>
    some { s with targets := update (fun t => t.id = targetId) (setCircuitClosed now) s.targets }
  | fail d now next status code dead =>
    if HttpStatusOk status then
      (updateOne (fun r => Leased d r) (setFailed now next status code dead) s.deliveries).map
        fun ds =>
        { s with deliveries := ds }
    else none
  | countFailure targetId openUntil now =>
    if ∀ t ∈ rowsAt WebhookTarget.id targetId s.targets, Int4 (t.consecutiveFailures + 1) then
      some { s with
        targets := update (fun t => t.id = targetId) (setFailureCounted openUntil now) s.targets }
    else none
  -- `ON CONFLICT (delivery_id) DO NOTHING`
  | insertDeadLetter deliveryId code id clock =>
    if Text.btrim code = "" then none
    else if rowsAt WebhookDeadLetter.deliveryId deliveryId s.deadLetters ≠ [] then some s
    else some { s with deadLetters := s.deadLetters ++ [⟨id, deliveryId, code, clock, none⟩] }
  | replay deliveryId now =>
    (updateOne (fun r => r.id = deliveryId && r.status = .deadLetter) (setReplayed now)
      s.deliveries).map fun ds =>
      { s with deliveries := ds }
  | markReplayed deliveryId now =>
    some { s with
      deadLetters :=
        update (fun l => l.deliveryId = deliveryId) (setLetterReplayed now) s.deadLetters }
  | setTargetStatus targetId status clock =>
    (updateOne (fun t => t.id = targetId) (setStatus status clock) s.targets).map fun ts => { s with
      targets := ts }

end Statement

/-- The transactions on deliveries and targets. -/
inductive Operation where
  | markDelivered (d : Delivery) (now : Timestamp) (status : Int)
  | markFailed (d : Delivery) (now next : Timestamp) (status : Option Int)
      (code : String) (dead : Bool)
      (openUntil : Option Timestamp) (letterId : UUID) (clock : Timestamp)
  | replay (deliveryId : UUID) (now : Timestamp)
  | setStatus (targetId : UUID) (status : TargetStatus) (clock : Timestamp)

/-- The statements of a transaction in their order; the replay of the store and the one of
the admin handler send the same. -/
def Operation.program : Operation → List Statement
  | markDelivered d now status => [.deliver d now status, .closeCircuit d.targetId now]
  | markFailed d now next status code dead openUntil letterId clock =>
    [.fail d now next status code dead, .countFailure d.targetId openUntil now] ++
      if dead then [.insertDeadLetter d.id code letterId clock] else []
  | replay deliveryId now => [.replay deliveryId now, .markReplayed deliveryId now]
  | setStatus targetId status clock => [.setTargetStatus targetId status clock]

/-- `Claim` takes a delivery of the target: its circuit is closed and the delivery is due. -/
def Due (now : Timestamp) (t : WebhookTarget) (d : WebhookDelivery) : Prop :=
  t.status = .active ∧ (∀ until_ ∈ t.circuitOpenUntil, until_ ≤ now) ∧
    ((d.status = .pending ∨ d.status = .retry) ∧ d.nextAttemptAt ≤ now ∨
      d.status = .delivering ∧ ∃ expires ∈ d.leaseExpiresAt, expires ≤ now)

instance (now : Timestamp) (t : WebhookTarget) (d : WebhookDelivery) : Decidable (Due now t d) := by
  unfold Due
  infer_instance

/-- `ORDER BY next_attempt_at, id … FOR UPDATE SKIP LOCKED LIMIT …` -/
def candidates (now : Timestamp) (limit : Nat) (locked : RowKey → Bool) (s : EventTables) :
    List WebhookDelivery :=
  ((s.deliveries.filter fun d => !locked (.delivery d.id) &&
      s.targets.any fun t => t.id = d.targetId && Due now t d).insertionSort fun a b =>
    a.nextAttemptAt < b.nextAttemptAt ∨ a.nextAttemptAt = b.nextAttemptAt ∧ a.id ≤ b.id).take limit

/-- Whether `Claim` takes the row. -/
def Claimed (now : Timestamp) (limit : Nat) (locked : RowKey → Bool) (s : EventTables)
    (d : WebhookDelivery) : Prop :=
  ∃ c ∈ candidates now limit locked s, c.id = d.id

instance (now : Timestamp) (limit : Nat) (locked : RowKey → Bool) (s : EventTables)
    (d : WebhookDelivery) : Decidable (Claimed now limit locked s d) :=
  inferInstanceAs (Decidable (∃ c ∈ _, _))

/-- The steps that change only rows nobody has locked. -/
inductive Direct where
  | claim (now : Timestamp) (lease : Duration) (limit : Nat) (token : UUID)
  /-- The commit of a transaction that has appended events with their deliveries. -/
  | publish (events : List OutboxEvent) (deliveries : List WebhookDelivery)
  | createTarget (t : WebhookTarget)
  | retain (deliveryCutoff eventCutoff : Timestamp)

/-- What retention removes: it is over, and older than the cut-off. -/
def Retired (cutoff : Timestamp) (d : WebhookDelivery) : Prop :=
  (d.status = .delivered ∨ d.status = .deadLetter) ∧ d.updatedAt < cutoff

instance (cutoff : Timestamp) (d : WebhookDelivery) : Decidable (Retired cutoff d) := by
  unfold Retired
  infer_instance

/-- The deletions of retention, of rows nobody has locked. -/
def runRetentionOnce (deliveryCutoff eventCutoff : Timestamp) (locked : RowKey → Bool)
    (s : EventTables) : EventTables :=
  let goes (d : WebhookDelivery) : Bool :=
    Retired deliveryCutoff d && !locked (.delivery d.id) && !locked (.deadLetter d.id)
  let deliveries := delete goes s.deliveries
  { s with
    deadLetters := delete (fun l => !locked (.deadLetter l.deliveryId) &&
      s.deliveries.any fun d => d.id = l.deliveryId && goes d) s.deadLetters
    deliveries := deliveries
    outbox :=
      delete (fun e => e.occurredAt < eventCutoff && !deliveries.any fun d =>
        d.eventId = e.id) s.outbox }

def Direct.exec (locked : RowKey → Bool) (s : EventTables) : Direct → Option EventTables
  | claim now lease limit token =>
    if 0 < limit ∧ ∀ d ∈ candidates now limit locked s, Int4 (d.attemptCount + 1) then
      some { s with
        deliveries :=
          update (fun d => Claimed now limit locked s d) (setClaimed now lease token) s.deliveries }
    else none
  | publish events deliveries =>
    if ((s.outbox ++ events).map (·.id)).Nodup ∧ ((s.deliveries ++ deliveries).map (·.id)).Nodup ∧
        ((s.deliveries ++ deliveries).map fun d => (d.eventId, d.targetId)).Nodup ∧
        (∀ d ∈ deliveries, locked (.delivery d.id) = false ∧
          d = newDelivery d.id d.eventId d.targetId d.createdAt) then
      some { s with outbox := s.outbox ++ events, deliveries := s.deliveries ++ deliveries }
    else none
  | createTarget t =>
    if (∀ u ∈ s.targets, u.id ≠ t.id ∧ u.name ≠ t.name) ∧
      locked (.target t.id) = false ∧ t.status = .active ∧
        t.consecutiveFailures = 0 ∧ t.circuitOpenUntil = none then
      some { s with targets := s.targets ++ [t] }
    else none
  | retain deliveryCutoff eventCutoff => some (runRetentionOnce deliveryCutoff eventCutoff locked s)

end Tenancit.Webhook
