import Tenancit.Lib.Json
import Tenancit.Lib.Program
import Tenancit.Lib.Text
import Mathlib.Order.Fin.Basic

/-!
The tables of the migrations, the row types of `store/db/models.go` and the errors of
the database. A table is the list of its rows in insertion order. Foreign keys, unique
indexes, checks and triggers are enforced by the statements that could break them.
-/
namespace Tenancit.Store

open Encoding Program

abbrev UUID := Fin (2 ^ 128)

namespace UUID

instance instNeZeroCount : NeZero (2 ^ 128 : Nat) := ⟨(Nat.two_pow_pos 128).ne'⟩

instance instLawfulBEqUUID : LawfulBEq UUID := inferInstance

/-- `uuid.Nil` -/
def nil : UUID := 0

/-- The sixteen octets of an identifier. -/
def octets (u : UUID) : Bytes := (fixedDigits 256 16 u.val).map Nat.toUInt8

/-- Dashes after the digits 8, 12, 16 and 20. -/
def dashed (h : List Char) : List Char :=
  h.take 8 ++ '-' :: ((h.drop 8).take 4 ++ '-' :: ((h.drop 12).take 4 ++ '-' ::
    ((h.drop 16).take 4 ++ '-' :: h.drop 20)))

/-- `uuid.UUID.String` -/
def text (u : UUID) : String := String.ofList (dashed (hexDigits 32 u.val))

def json (u : UUID) : Json := .str u.text

end UUID

/-- Microseconds since 1970, the resolution of `timestamptz`. -/
abbrev Timestamp := Int

/-- `time.Duration`, in microseconds. -/
abbrev Duration := Int

namespace Timestamp

def seconds (n : Int) : Duration := n * 1000000

/-- `time.Time.UnixNano`: an `int64`, which wraps outside the years 1678 to 2262. -/
def unixNano (t : Timestamp) : Int := (t * 1000).bmod (2 ^ 64)

/-- The zero `time.Time`, at the start of the year 1. -/
def zero : Timestamp := seconds (-62135596800)

def json (t : Timestamp) : Json := .str (rfc3339 true t)

end Timestamp

/-- What PostgreSQL makes of texts by its locale and its pages: `lower()`, and whether an entry
with these texts fits an index. -/
structure TextRules where
  lower : String → String
  fits : List String → Bool

namespace TextRules

/-- The documented limit: an entry of an index may have a third of a page of 8192 octets, here
less what it has besides the texts. -/
def TakesShort (rules : TextRules) : Prop :=
  ∀ texts : List String, (texts.map Text.octetLength).sum ≤ 2600 → rules.fits texts = true

/-- Case of ASCII and entries that are not compressed. -/
def plain : TextRules := ⟨Text.toLower, fun texts => (texts.map Text.octetLength).sum ≤ 2600⟩

theorem takesShort_plain : plain.TakesShort := fun _ h => decide_eq_true h

end TextRules

/-- What a statement finds outside the tables: the server clock at its start, the identifiers
`gen_random_uuid()` gives it, for a step of the application random octets, and the rules for
texts. -/
structure Tick where
  clock : Timestamp
  ids : Nat → UUID
  random : Nat → UInt8
  rules : TextRules

/-- The ticks of a concrete run: each has a reading and identifiers of its own. -/
def ticksFrom (start count : Nat) : List Tick :=
  (List.range count).map fun i =>
    ⟨(start + i : Nat), fun k => Fin.ofNat _ (1000 * (start + i) + k + 1), fun _ => 0, .plain⟩

inductive PgError where
  | noRows
  | uniqueViolation
  | foreignKeyViolation
  | checkViolation
  | raised
  | programLimitExceeded
  | unavailable
  deriving DecidableEq

/-- `active|inactive`: the status of tenants, definitions and resources. -/
inductive Status where
  | active
  | inactive
  deriving DecidableEq

namespace Status

def text : Status → String
  | active => "active"
  | inactive => "inactive"

def parse (s : String) : Option Status :=
  if s = "active" then some active else if s = "inactive" then some inactive else none

end Status

structure Tenant where
  id : UUID
  slug : String
  name : String
  status : Status
  createdAt : Timestamp
  updatedAt : Timestamp
  deriving DecidableEq

structure TenantDomain where
  id : UUID
  tenantId : UUID
  hostname : String
  createdAt : Timestamp

structure ResourceDefinition where
  id : UUID
  key : String
  name : String
  description : String
  icon : String
  status : Status
  createdAt : Timestamp
  updatedAt : Timestamp

structure ResourceField where
  id : UUID
  resourceDefinitionId : UUID
  key : String
  label : String
  hint : String
  dataType : String
  required : Bool
  isSecret : Bool
  sortOrder : Int32

structure TenantResource where
  id : UUID
  tenantId : UUID
  resourceDefinitionId : UUID
  status : Status
  createdAt : Timestamp
  updatedAt : Timestamp
  resourceAlias : String
  sourceResourceId : Option UUID
  displayName : String

structure TenantResourceValue where
  id : UUID
  tenantResourceId : UUID
  resourceFieldId : UUID
  valuePlain : Option String
  valueCipher : Option Bytes
  nonce : Option Bytes
  keyVersion : Option Int32
  deriving DecidableEq

/-- The tables an operator's catalogue lives in. -/
structure Catalog where
  tenants : List Tenant := []
  domains : List TenantDomain := []
  definitions : List ResourceDefinition := []
  fields : List ResourceField := []
  resources : List TenantResource := []
  values : List TenantResourceValue := []

inductive ApiClientStatus where
  | active
  | revoked
  deriving DecidableEq

def ApiClientStatus.text : ApiClientStatus → String
  | active => "active"
  | revoked => "revoked"

structure ApiClient where
  id : UUID
  name : String
  keyHash : String
  status : ApiClientStatus
  createdAt : Timestamp
  tokenPreview : String
  rpmLimit : Int32
  expiresAt : Timestamp
  lastUsedAt : Option Timestamp
  revokedAt : Option Timestamp
  updatedAt : Timestamp

structure ApiClientPreviousToken where
  id : UUID
  apiClientId : UUID
  keyHash : String
  validUntil : Timestamp
  createdAt : Timestamp

structure ApiClientScope where
  apiClientId : UUID
  scope : String

/-- The tables of consumer credentials. -/
structure ClientTables where
  clients : List ApiClient := []
  scopes : List ApiClientScope := []
  previousTokens : List ApiClientPreviousToken := []

structure AdminAuditEvent where
  occurredAt : Timestamp
  id : UUID
  requestId : String
  actorKind : String
  actorIssuer : Option String
  actorSubject : String
  actorLabel : Option String
  action : String
  targetType : String
  targetId : String
  result : String
  httpMethod : String
  routeTemplate : String
  httpStatus : Nat
  errorCode : Option String
  metadata : Json

structure OutboxEvent where
  id : UUID
  eventType : String
  eventVersion : Int
  aggregateType : String
  aggregateId : String
  requestId : String
  payload : Json
  occurredAt : Timestamp

inductive TargetStatus where
  | active
  | disabled
  deriving DecidableEq

structure WebhookTarget where
  id : UUID
  name : String
  format : String
  status : TargetStatus
  urlCipher : Bytes
  urlNonce : Bytes
  urlKeyVersion : Int16
  signingSecretCipher : Bytes
  signingSecretNonce : Bytes
  signingSecretKeyVersion : Int16
  allowLoopbackHttp : Bool
  consecutiveFailures : Int
  circuitOpenUntil : Option Timestamp
  createdAt : Timestamp
  updatedAt : Timestamp

inductive DeliveryStatus where
  | pending
  | delivering
  | retry
  | delivered
  | deadLetter
  deriving DecidableEq

structure WebhookDelivery where
  id : UUID
  eventId : UUID
  targetId : UUID
  status : DeliveryStatus
  attemptCount : Int
  nextAttemptAt : Timestamp
  leaseToken : Option UUID
  leaseExpiresAt : Option Timestamp
  lastHttpStatus : Option Int
  lastErrorCode : Option String
  deliveredAt : Option Timestamp
  createdAt : Timestamp
  updatedAt : Timestamp

structure WebhookDeadLetter where
  id : UUID
  deliveryId : UUID
  reasonCode : String
  failedAt : Timestamp
  replayedAt : Option Timestamp

/-- The tables of the audit log and of the outbox. -/
structure EventTables where
  audit : List AdminAuditEvent := []
  outbox : List OutboxEvent := []
  targets : List WebhookTarget := []
  deliveries : List WebhookDelivery := []
  deadLetters : List WebhookDeadLetter := []

inductive RecordStatus where
  | processing
  | completed
  deriving DecidableEq

structure AdminIdempotencyRecord where
  id : UUID
  actorKind : String
  actorIssuer : String
  actorSubject : String
  operation : String
  idempotencyKey : UUID
  requestFingerprint : Bytes
  status : RecordStatus
  httpStatus : Option Int16
  contentType : Option String
  responseCipher : Option Bytes
  nonce : Option Bytes
  keyVersion : Option Int16
  createdAt : Timestamp
  completedAt : Option Timestamp
  expiresAt : Timestamp

/-- The catalogue and the credentials: what the mutating handlers are about. -/
structure Domain where
  catalog : Catalog := {}
  clients : ClientTables := {}

structure Database where
  domain : Domain := {}
  events : EventTables := {}
  idempotency : List AdminIdempotencyRecord := []

/-- A program over a part of the database. -/
abbrev Tx (δ ε α : Type) : Type := Program.Tx Tick δ ε α

/-- Run a statement: it reads and writes in one go, or the database is unavailable. -/
def run {δ α : Type} (f : Tick → δ → Except PgError (α × δ)) : Tx δ PgError α :=
  Program.Tx.statement .unavailable f

/-- Run a statement that only reads. -/
def read {δ α : Type} (f : δ → Except PgError α) : Tx δ PgError α :=
  Program.Tx.query .unavailable f

def onCatalog {ε α : Type} (m : Tx Catalog ε α) : Tx Domain ε α :=
  Program.Tx.onPart Domain.catalog (fun c s => { s with catalog := c }) m

def onClients {ε α : Type} (m : Tx ClientTables ε α) : Tx Domain ε α :=
  Program.Tx.onPart Domain.clients (fun c s => { s with clients := c }) m

def onDomain {ε α : Type} (m : Tx Domain ε α) : Tx Database ε α :=
  Program.Tx.onPart Database.domain (fun d s => { s with domain := d }) m

def onEvents {ε α : Type} (m : Tx EventTables ε α) : Tx Database ε α :=
  Program.Tx.onPart Database.events (fun e s => { s with events := e }) m

def onIdempotency {ε α : Type} (m : Tx (List AdminIdempotencyRecord) ε α) : Tx Database ε α :=
  Program.Tx.onPart Database.idempotency (fun r s => { s with idempotency := r }) m

end Tenancit.Store
