import Tenancit.Events.Catalog
import Tenancit.Idempotency.Store
import Tenancit.Store.Events

/-!
What the mutating handlers share (`httpapi/{admin_audit,admin_idempotency,errors}.go`): the
answers, the audit row of a success with its outbox event and deliveries, the idempotency
of a request, and the transaction that holds the change and all of these together.
-/
namespace Tenancit.Httpapi

open Encoding Crypto Store
open Program.Tx (draw require ofExcept)

structure Response where
  status : Int
  headers : List (String × String)
  body : Bytes
  deriving DecidableEq

def writeJSON (status : Int) (j : Json) : Response :=
  ⟨status, [("Content-Type", "application/json")], j.marshal ++ [10]⟩

def writeError (status : Int) (message : String) : Response :=
  writeJSON status (.obj [("error", .str message)])

def badRequest (message : String) : Response := writeError 400 message

def conflict (message : String) : Response := writeError 409 message

def writeNotFound : Response := writeError 404 "not found"

def writeInternalError : Response := writeError 500 "internal error"

def noContent : Response := ⟨204, [], []⟩

inductive PrincipalKind where
  | sharedAdminToken
  | breakGlass
  | oidcUser
  deriving DecidableEq

def PrincipalKind.text : PrincipalKind → String
  | sharedAdminToken => "shared_admin_token"
  | breakGlass => "break_glass"
  | oidcUser => "oidc_user"

structure Principal where
  kind : PrincipalKind
  issuer : String
  subject : String
  label : String

/-- What a handler knows of its request besides path and body. -/
structure AdminRequest where
  requestId : String
  principal : Option Principal
  method : String
  /-- The `Idempotency-Key` header, where it parses. -/
  idempotencyKey : Option UUID

def optionalString (value : String) : Option String := if value = "" then none else some value

/-- The arguments of `insertAdminAuditSuccess`. -/
structure AuditEntry where
  action : String
  targetType : String
  targetId : String
  routeTemplate : String
  status : Nat
  metadata : Json

def auditParams (r : AdminRequest) (actor : Principal) (e : AuditEntry) :
    Queries.InsertAdminAuditEventParams where
  requestId := r.requestId
  actorKind := actor.kind.text
  actorIssuer := optionalString actor.issuer
  actorSubject := actor.subject
  actorLabel := optionalString actor.label
  action := e.action
  targetType := e.targetType
  targetId := e.targetId
  result := "success"
  httpMethod := r.method
  routeTemplate := e.routeTemplate
  httpStatus := e.status
  errorCode := none
  metadata := e.metadata

/-- Publish the event of an audited action: the outbox row and its deliveries. -/
def publish (r : AdminRequest) (draft : Events.Draft) : Tx EventTables PgError Unit := do
  let event ← run (Queries.insertOutboxEvent
    ⟨draft.type, draft.version, draft.aggregateType, draft.aggregateId, r.requestId, draft.payload⟩)
  run (Queries.enqueueOutboxDeliveries event.id)

/-- Audit a success and publish its event, if its action is published. -/
def insertAdminAuditSuccess (r : AdminRequest) (e : AuditEntry) : Tx EventTables Response Unit :=
  match r.principal with
  | none => Program.Tx.fail writeInternalError
  | some actor => do
    let _ ← (run (Queries.insertAdminAuditEvent (auditParams r actor e))).mapErr
      fun _ => writeInternalError
    match Events.fromAudit e.action e.targetType e.targetId with
    | none => pure ()
    | some draft => (publish r draft).mapErr fun _ => writeInternalError

/-- The server's configuration. -/
structure Server {Key : Type} (aead : Aead Key) where
  cryptor : Cryptor aead
  sha256 : Bytes → Bytes

/-- `adminMutationTTL` -/
def adminMutationTTL : Duration := Timestamp.seconds (24 * 3600)

/-- `adminSecretTTL` -/
def adminSecretTTL : Duration := Timestamp.seconds 600

/-- `prepareAdminIdempotency` -/
def prepareAdminIdempotency (sha256 : Bytes → Bytes) (r : AdminRequest) (operation : String)
    (payload : Json) (ttl : Duration) : Except Response Idempotency.Request :=
  match r.idempotencyKey, r.principal with
  | none, _ => .error (badRequest "idempotency_key_required")
  | some _, none => .error (writeError 403 "idempotency_not_available")
  | some key, some p =>
    if p.kind = .sharedAdminToken ∨ p.kind = .oidcUser then
      .ok ⟨⟨p.kind.text, p.issuer, p.subject⟩, operation, key,
        Idempotency.fingerprint sha256 operation payload.marshal, ttl⟩
    else .error (writeError 403 "idempotency_not_available")

/-- The answer that replays a stored one. -/
def writeReplay (replay : Idempotency.Replay) : Response :=
  ⟨replay.status, (if replay.contentType = "" then []
    else [("Content-Type", replay.contentType)]) ++
    [("Cache-Control", "private, no-store"), ("Idempotency-Replayed", "true")], replay.body⟩

def writeIdempotencyError : Idempotency.IdempotencyError → Response
  | .fingerprintMismatch => conflict "idempotency_mismatch"
  | .inProgress => ⟨409, [("Retry-After", "1"), ("Content-Type", "application/json")],
      (Json.obj [("error", .str "idempotency_in_progress")]).marshal ++ [10]⟩
  | .expired => conflict "idempotency_expired"
  | _ => writeInternalError

variable {Key : Type} {aead : Aead Key}

/-- `beginAdminIdempotency`: the transaction goes on only for the request that claims the
key; a replay is answered and rolled back. -/
def beginAdminIdempotency (cryptor : Cryptor aead) (request : Idempotency.Request) :
    Tx Idempotency.Records Response Unit := do
  let replay ← (Idempotency.begin_ cryptor request).mapErr writeIdempotencyError
  match replay with
  | none => pure ()
  | some replay => Program.Tx.fail (writeReplay replay)

def idempotentContentType : String := "application/json; charset=utf-8"

/-- `completeAdminIdempotency` -/
def completeAdminIdempotency (cryptor : Cryptor aead) (request : Idempotency.Request) (status : Int)
    (body : Bytes) : Tx Idempotency.Records Response Unit :=
  (Idempotency.complete cryptor request status idempotentContentType body).mapErr
    fun _ => writeInternalError

def writeIdempotentResponse (status : Int) (body : Bytes) (secret : Bool) : Response :=
  ⟨status, (if secret then [("Cache-Control", "private, no-store")] else []) ++
    [("Content-Type", idempotentContentType)], body⟩

/-- What a handler calls to audit a success. -/
abbrev Auditor : Type := AdminRequest → AuditEntry → Tx EventTables Response Unit

/-- Audit a change that has an entry. -/
def auditChange (audit : Auditor) (r : AdminRequest) :
    Option AuditEntry → Tx EventTables Response Unit
  | none => pure ()
  | some e => audit r e

/-- A mutation in one transaction: the change, its audit entry if it has one, what is read
for the answer, and the commit, after which the clock is read for the answer. -/
def auditedMutation {α β : Type} (audit : Auditor) (r : AdminRequest)
    (change : Timestamp → Tx Domain Response α) (entry : α → Option AuditEntry)
    (view : α → Tx Domain Response β) (answer : α → β → Timestamp → Response) :
    Tx Database Response Response := do
  let begun ← draw writeInternalError
  let a ← onDomain (change begun.clock)
  onEvents (auditChange audit r (entry a))
  let b ← onDomain (view a)
  let committed ← draw writeInternalError
  pure (answer a b committed.clock)

/-- A mutation whose answer, encoded before the commit, is stored under an idempotency key. -/
def idempotentMutation {α : Type} (audit : Auditor) (cryptor : Cryptor aead) (r : AdminRequest)
    (request : Idempotency.Request) (secret : Bool) (change : Timestamp → Tx Domain Response α)
    (entry : α → AuditEntry) (body : α → Tx Domain Response Json) :
    Tx Database Response Response := do
  let begun ← draw writeInternalError
  onIdempotency (beginAdminIdempotency cryptor request)
  let a ← onDomain (change begun.clock)
  onEvents (audit r (entry a))
  let responseBody ← onDomain (body a)
  onIdempotency (completeAdminIdempotency cryptor request 201 responseBody.marshal)
  let _ ← draw writeInternalError
  pure (writeIdempotentResponse 201 responseBody.marshal secret)

end Tenancit.Httpapi
