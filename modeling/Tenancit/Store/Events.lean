import Tenancit.Lib.Table
import Tenancit.Store.Schema

/-!
The statements that append to the audit log and to the outbox, and the fan-out of an
event to the webhook targets (`store/db/outbox.go`).
-/
namespace Tenancit.Store.Queries

open Encoding Table Text

structure InsertAdminAuditEventParams where
  requestId : String
  actorKind : String
  actorIssuer : Option String
  actorSubject : String
  actorLabel : Option String
  action : String
  targetType : String
  targetId : String
  result : String
  httpMethod : String
  routeTemplate : String
  httpStatus : Nat
  errorCode : Option String
  metadata : Json

/-- The check constraints of `admin_audit_events`. -/
def AuditOk (arg : InsertAdminAuditEventParams) : Prop :=
  arg.requestId ≠ "" ∧
    arg.actorKind ∈ ["shared_admin_token", "break_glass", "oidc_user", "unauthenticated"] ∧
    arg.action ≠ "" ∧ arg.targetType ≠ "" ∧ arg.result ∈ ["success", "denied", "error"] ∧
    100 ≤ arg.httpStatus ∧ arg.httpStatus ≤ 599 ∧ octetLength arg.metadata.text ≤ 8192 ∧
    (arg.actorKind = "oidc_user" ↔ arg.actorIssuer.isSome)

instance (arg : InsertAdminAuditEventParams) : Decidable (AuditOk arg) := by
  unfold AuditOk
  infer_instance

/-- The texts that the indexes `admin_audit_events_request_idx`, `_target_idx`, `_actor_idx` and
`_action_idx` have of the row. -/
def auditIndexTexts (arg : InsertAdminAuditEventParams) : List (List String) :=
  [[arg.requestId], [arg.targetType, arg.targetId], arg.actorKind ::
    (arg.actorIssuer.toList ++ [arg.actorSubject]),
    [arg.action, arg.result]]

/-- The row has an entry in each index. -/
def AuditIndexed (rules : TextRules) (arg : InsertAdminAuditEventParams) : Prop :=
  ∀ texts ∈ auditIndexTexts arg, rules.fits texts = true

instance (rules : TextRules) (arg : InsertAdminAuditEventParams) :
    Decidable (AuditIndexed rules arg) :=
  inferInstanceAs (Decidable (∀ texts ∈ auditIndexTexts arg, rules.fits texts = true))

def insertAdminAuditEvent (arg : InsertAdminAuditEventParams) (t : Tick) (s : EventTables) :
    Except PgError (AdminAuditEvent × EventTables) :=
  let row : AdminAuditEvent := ⟨t.clock, t.ids 0, arg.requestId, arg.actorKind, arg.actorIssuer,
    arg.actorSubject, arg.actorLabel, arg.action, arg.targetType, arg.targetId,
    arg.result, arg.httpMethod,
    arg.routeTemplate, arg.httpStatus, arg.errorCode, arg.metadata⟩
  if ¬AuditOk arg then .error .checkViolation
  else if ∃ e ∈ s.audit, e.occurredAt = row.occurredAt ∧ e.id = row.id then .error .uniqueViolation
  else if ¬AuditIndexed t.rules arg then .error .programLimitExceeded
  else .ok (row, { s with audit := s.audit ++ [row] })

/-- The row of an audit event. -/
def auditRow (arg : InsertAdminAuditEventParams) (t : Tick) : AdminAuditEvent :=
  ⟨t.clock, t.ids 0, arg.requestId, arg.actorKind, arg.actorIssuer, arg.actorSubject,
   arg.actorLabel, arg.action,
    arg.targetType, arg.targetId, arg.result, arg.httpMethod, arg.routeTemplate, arg.httpStatus,
    arg.errorCode, arg.metadata⟩

theorem insertAdminAuditEvent_ok {arg : InsertAdminAuditEventParams} {t : Tick} {s s' : EventTables}
    {e : AdminAuditEvent} (h : insertAdminAuditEvent arg t s = .ok (e, s')) :
    AuditOk arg ∧ e = auditRow arg t ∧ s' = { s with audit := s.audit ++ [auditRow arg t] } := by
  simp only [insertAdminAuditEvent] at h
  split at h
  · cases h
  next hok =>
    split at h
    · cases h
    · split at h
      · cases h
      · cases h
        exact ⟨not_not.mp hok, rfl, rfl⟩

structure InsertOutboxEventParams where
  eventType : String
  eventVersion : Int
  aggregateType : String
  aggregateId : String
  requestId : String
  payload : Json

def jsonIsObject : Json → Bool
  | .obj _ => true
  | _ => false

/-- The check constraints of `outbox_events`. -/
def OutboxOk (arg : InsertOutboxEventParams) : Prop :=
  btrim arg.eventType ≠ "" ∧ 0 < arg.eventVersion ∧ btrim arg.aggregateType ≠ "" ∧
    btrim arg.aggregateId ≠ "" ∧ btrim arg.requestId ≠ "" ∧ jsonIsObject arg.payload = true

instance (arg : InsertOutboxEventParams) : Decidable (OutboxOk arg) := by
  unfold OutboxOk
  infer_instance

def insertOutboxEvent (arg : InsertOutboxEventParams) (t : Tick) (s : EventTables) :
    Except PgError (OutboxEvent × EventTables) :=
  let row : OutboxEvent :=
    ⟨t.ids 0, arg.eventType, arg.eventVersion, arg.aggregateType, arg.aggregateId,
    arg.requestId, arg.payload, t.clock⟩
  if ¬OutboxOk arg then .error .checkViolation
  else if ∃ e ∈ s.outbox, e.id = row.id then .error .uniqueViolation
  else .ok (row, { s with outbox := s.outbox ++ [row] })

/-- The targets the fan-out selects at a reading of the server clock. -/
def FanOutTarget (at_ : Timestamp) (target : WebhookTarget) : Prop :=
  target.status = .active ∧ ∀ until_, target.circuitOpenUntil = some until_ → until_ ≤ at_

instance (at_ : Timestamp) (target : WebhookTarget) : Decidable (FanOutTarget at_ target) :=
  match h : target.circuitOpenUntil with
  | none => decidable_of_iff (target.status = .active) (by simp [FanOutTarget, h])
  | some until_ =>
    decidable_of_iff (target.status = .active ∧ until_ ≤ at_) (by simp [FanOutTarget, h])

/-- A delivery with the defaults of its table. -/
def newDelivery (id eventId targetId : UUID) (at_ : Timestamp) : WebhookDelivery :=
  ⟨id, eventId, targetId, .pending, 0, at_, none, none, none, none, none, at_, at_⟩

/-- The rows of the fan-out, less those that stand already. -/
def fanOut (eventId : UUID) (t : Tick) (targets : List WebhookTarget)
    (deliveries : List WebhookDelivery) : List WebhookDelivery :=
  ((targets.filter fun target => FanOutTarget t.clock target &&
      !deliveries.any fun d => d.eventId = eventId && d.targetId = target.id).zipIdx).map fun x =>
    newDelivery (t.ids x.2) eventId x.1.id t.clock

def enqueueOutboxDeliveries (eventId : UUID) (t : Tick) (s : EventTables) :
    Except PgError (Unit × EventTables) :=
  let rows := fanOut eventId t s.targets s.deliveries
  if ¬((s.deliveries ++ rows).map (·.id)).Nodup then .error .uniqueViolation
  else if rows ≠ [] ∧ ¬∃ e ∈ s.outbox, e.id = eventId then .error .foreignKeyViolation
  else .ok ((), { s with deliveries := s.deliveries ++ rows })

end Tenancit.Store.Queries
