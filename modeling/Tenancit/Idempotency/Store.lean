import Tenancit.Crypto
import Tenancit.Store.Catalog

/-!
`internal/idempotency`: claiming a key inside the transaction of a mutation, storing the
encrypted answer with it, replaying the answer, and removing expired records.
-/
namespace Tenancit.Idempotency

open Encoding Crypto Store
open Program.Tx (draw require ofExcept)

inductive IdempotencyError where
  | invalid
  | fingerprintMismatch
  | inProgress
  | expired
  | store (err : PgError)
  | crypto (err : CryptoError)
  deriving DecidableEq

structure Actor where
  kind : String
  issuer : String
  subject : String
  deriving DecidableEq

structure Request where
  actor : Actor
  operation : String
  key : UUID
  fingerprint : Bytes
  ttl : Duration

structure Replay where
  status : Int
  contentType : String
  body : Bytes
  deriving DecidableEq

/-- The hash of the operation, a zero octet and the canonical payload. -/
def fingerprint (sha256 : Bytes → Bytes) (operation : String) (canonicalPayload : Bytes) : Bytes :=
  sha256 (utf8 operation ++ 0 :: canonicalPayload)

/-- The columns of the unique constraint. -/
structure RecordKey where
  actor : Actor
  operation : String
  key : UUID
  deriving DecidableEq

def recordKey (r : AdminIdempotencyRecord) : RecordKey :=
  ⟨⟨r.actorKind, r.actorIssuer, r.actorSubject⟩, r.operation, r.idempotencyKey⟩

def Request.recordKey (r : Request) : RecordKey := ⟨r.actor, r.operation, r.key⟩

/-- The checks on a request before anything is read or written. -/
def Request.Valid (r : Request) : Prop :=
  r.key ≠ UUID.nil ∧ r.actor.subject ≠ "" ∧ r.operation ≠ "" ∧ 0 < r.ttl ∧
    (r.actor.kind = "shared_admin_token" ∨ r.actor.kind = "oidc_user") ∧
    (r.actor.kind = "oidc_user" ↔ r.actor.issuer ≠ "")

instance (r : Request) : Decidable r.Valid := by
  unfold Request.Valid
  infer_instance

abbrev Records := List AdminIdempotencyRecord

/-- The row a request claims. -/
def claimRow (request : Request) (now : Timestamp) (id : UUID) : AdminIdempotencyRecord where
  id := id
  actorKind := request.actor.kind
  actorIssuer := request.actor.issuer
  actorSubject := request.actor.subject
  operation := request.operation
  idempotencyKey := request.key
  requestFingerprint := request.fingerprint
  status := .processing
  httpStatus := none
  contentType := none
  responseCipher := none
  nonce := none
  keyVersion := none
  createdAt := now
  completedAt := none
  expiresAt := now + request.ttl

/-- The check constraints of `admin_idempotency_records` on a claimed row. -/
def ClaimOk (request : Request) : Prop :=
  Text.btrim request.operation ≠ "" ∧ Text.octetLength request.operation ≤ 256 ∧
    request.fingerprint.length = 32

instance (request : Request) : Decidable (ClaimOk request) := by
  unfold ClaimOk
  infer_instance

/-- `INSERT … ON CONFLICT DO NOTHING`; the rows inserted are counted. -/
def claimRecord (request : Request) (now : Timestamp) (t : Tick) (s : Records) :
    Except PgError (Nat × Records) :=
  if ¬ClaimOk request then .error .checkViolation
  else if ∃ r ∈ s, r.id = t.ids 0 ∨ recordKey r = request.recordKey then .ok (0, s)
  else .ok (1, s ++ [claimRow request now (t.ids 0)])

def findRecord (s : Records) (key : RecordKey) : Option AdminIdempotencyRecord :=
  Table.lookup recordKey key s

/-- What `Begin` answers for a record that stands, at a reading of the application clock. -/
def replayRecord {Key : Type} {aead : Aead Key} (cryptor : Cryptor aead) (request : Request)
    (now : Timestamp) (r : AdminIdempotencyRecord) : Except IdempotencyError Replay :=
  if r.requestFingerprint ≠ request.fingerprint then .error .fingerprintMismatch
  else if r.expiresAt ≤ now then .error .expired
  else match r.status, r.httpStatus, r.keyVersion with
    | .completed, some status, some version =>
      match cryptor.decryptBytes ⟨r.responseCipher.getD [], r.nonce.getD [], version.toInt⟩ with
      | .error err => .error (.crypto err)
      | .ok body => .ok ⟨status.toInt, r.contentType.getD "", body⟩
    | _, _, _ => .error .inProgress

variable {Key : Type} {aead : Aead Key}

/-- `Store.Begin`: claim the key, or replay the answer that stands under it. -/
def begin_ (cryptor : Cryptor aead) (request : Request) :
    Tx Records IdempotencyError (Option Replay) := do
  require request.Valid .invalid
  let now ← draw (.store .unavailable)
  let affected ← (run (claimRecord request now.clock)).mapErr .store
  if affected = 1 then pure none
  else do
    let r ← (read fun s => Queries.one (findRecord s request.recordKey)).mapErr .store
    let replay ← ofExcept (replayRecord cryptor request now.clock r)
    pure (some replay)

/-- The columns `Complete` sets. -/
def completeRow (enc : Encrypted) (status : Int) (contentType : String) (at_ : Timestamp)
    (r : AdminIdempotencyRecord) : AdminIdempotencyRecord :=
  { r with
    status := .completed
    httpStatus := some (Int16.ofInt status)
    contentType := some contentType
    responseCipher := some enc.cipher
    nonce := some enc.nonce
    keyVersion := some (Int16.ofInt enc.keyVersion)
    completedAt := some at_ }

/-- The `WHERE` clause of `Complete`. -/
def Completes (request : Request) (r : AdminIdempotencyRecord) : Prop :=
  recordKey r = request.recordKey ∧ r.status = .processing ∧
  r.requestFingerprint = request.fingerprint

instance (request : Request) (r : AdminIdempotencyRecord) : Decidable (Completes request r) := by
  unfold Completes
  infer_instance

def completeRecord (request : Request) (enc : Encrypted) (status : Int) (contentType : String)
    (t : Tick) (s : Records) : Except PgError (Nat × Records) :=
  .ok (s.countP fun r => Completes request r,
    Table.update (fun r => Completes request r) (completeRow enc status contentType t.clock) s)

/-- `Store.Complete` -/
def complete (cryptor : Cryptor aead) (request : Request) (status : Int) (contentType : String)
    (body : Bytes) : Tx Records IdempotencyError Unit := do
  require (200 ≤ status ∧ status ≤ 299 ∧ body ≠ [] ∧ Text.octetLength contentType ≤ 128) .invalid
  let t ← draw (.store .unavailable)
  let affected ← (run (completeRecord request (cryptor.encryptBytes t.random body) status
    contentType)).mapErr .store
  require (affected = 1) .invalid

/-- `CleanupExpired`: remove expired records, the first to expire first, up to a limit. -/
def cleanupExpired (now : Timestamp) (limit : Nat) (s : Records) :
    Except IdempotencyError (Nat × Records) :=
  if limit < 1 ∨ 10000 < limit then .error .invalid
  else
    let gone :=
      ((s.filter fun r => r.expiresAt ≤ now).insertionSort fun a b =>
        a.expiresAt ≤ b.expiresAt).take limit
    .ok (gone.length, Table.delete (fun r => r.id ∈ gone.map (·.id)) s)

end Tenancit.Idempotency
