import Tenancit.Auditops.Encoder
import Tenancit.Crypto

/-!
`auditops/export.go`: the jobs of audit exports. A request creates a job or finds the one
that stands under its key; a generation turns the selected events into an encrypted payload;
the payload is handed out once, by the transaction that erases it.
-/
namespace Tenancit.Auditops

open Encoding Crypto Store Queries Table

inductive ExportError where
  | invalidExport
  | notReady
  | consumed
  | expired
  | idempotencyMismatch
  | store (err : PgError)
  | crypto (err : CryptoError)
  deriving DecidableEq

structure ExportActor where
  kind : String
  issuer : String
  subject : String
  label : String
  deriving DecidableEq

structure DownloadAudit where
  requestId : String
  method : String
  routeTemplate : String

inductive ExportStatus where
  | pending
  | processing
  | ready
  | failed
  | expired
  deriving DecidableEq

/-- A row of `audit_export_jobs`. The filter is the one whose JSON the column holds. -/
structure AuditExportJob where
  id : UUID
  idempotencyKey : UUID
  requestFingerprint : Bytes
  requestedByKind : String
  requestedByIssuer : Option String
  requestedBySubject : String
  filters : ExportFilter
  format : String
  status : ExportStatus
  rowCount : Option Nat
  payloadCipher : Option Bytes
  nonce : Option Bytes
  keyVersion : Option Int16
  failureCode : Option String
  createdAt : Timestamp
  startedAt : Option Timestamp
  completedAt : Option Timestamp
  expiresAt : Timestamp
  downloadedAt : Option Timestamp
  deriving DecidableEq

/-- The jobs beside the audit events. -/
structure ExportTables where
  jobs : List AuditExportJob := []
  events : EventTables := {}

/-- `ExportJob`: what a response shows of a job. -/
structure ExportJob where
  id : UUID
  idempotencyKey : UUID
  filters : ExportFilter
  format : String
  status : ExportStatus
  rowCount : Option Nat
  createdAt : Timestamp
  completedAt : Option Timestamp
  expiresAt : Timestamp
  downloadedAt : Option Timestamp
  deriving DecidableEq

def AuditExportJob.view (j : AuditExportJob) : ExportJob :=
  ⟨j.id, j.idempotencyKey, j.filters, j.format, j.status, j.rowCount, j.createdAt, j.completedAt,
   j.expiresAt, j.downloadedAt⟩

/-- `MaxExportWindow`, 31 days, in nanoseconds. -/
def maxExportWindow : Int := 31 * 24 * 3600 * 1000000000

/-- The nanoseconds of the zero `time.Time`. -/
def zeroUnixNano : Int := -62135596800 * 1000000000

/-- `ValidateExport` -/
def ValidateExport (f : ExportFilter) (format : String) : Prop :=
  f.from_.unixNano ≠ zeroUnixNano ∧ f.to_.unixNano ≠ zeroUnixNano ∧
  f.from_.unixNano < f.to_.unixNano ∧
    f.to_.unixNano - f.from_.unixNano ≤ maxExportWindow ∧ (format = "csv" ∨ format = "jsonl") ∧
    f.result ∈ ["", "success", "denied", "error"] ∧
    f.actorKind ∈ ["", "shared_admin_token", "break_glass", "oidc_user", "unauthenticated"] ∧
    ∀ value ∈ [f.actorSubject, f.action, f.targetType, f.targetId, f.requestId],
      Text.octetLength value ≤ 256 ∧ ∀ c ∈ value.toList, c ≠ '\r' ∧ c ≠ '\n' ∧ c.toNat ≠ 0

instance (f : ExportFilter) (format : String) : Decidable (ValidateExport f format) := by
  -- The characters of a text are gone through, not all there are.
  letI (value : String) : Decidable (∀ c ∈ value.toList, c ≠ '\r' ∧ c ≠ '\n' ∧ c.toNat ≠ 0) :=
    List.decidableBAll _ _
  unfold ValidateExport
  infer_instance

/-- The members of the JSON of a filter; empty ones after the times are left out. -/
def ExportFilter.members (f : ExportFilter) : List (String × String) :=
  [("from", f.from_.text), ("to", f.to_.text)] ++
    ([("actor_kind", f.actorKind), ("actor_subject", f.actorSubject), ("action", f.action),
      ("target_type", f.targetType),
      ("target_id", f.targetId), ("request_id", f.requestId),
      ("result", f.result)].filter fun m => m.2 ≠ "")

def ExportFilter.json (f : ExportFilter) : Json := .texts f.members

/-- The hash of the JSON of the filter, a zero octet and the format. -/
def requestFingerprint (sha256 : Bytes → Bytes) (f : ExportFilter) (format : String) : Bytes :=
  sha256 (f.json.marshal ++ utf8 ("\x00" ++ format))

def optionalText (value : String) : Option String := if value = "" then none else some value

/-- The arguments of the audit event of an export. -/
def auditParams (actor : ExportActor) (audit : DownloadAudit) (action : String) (id : UUID)
    (status : Nat) (metadata : Json) : InsertAdminAuditEventParams where
  requestId := audit.requestId
  actorKind := actor.kind
  actorIssuer := optionalText actor.issuer
  actorSubject := actor.subject
  actorLabel := optionalText actor.label
  action := action
  targetType := "audit_export"
  targetId := id.text
  result := "success"
  httpMethod := audit.method
  routeTemplate := audit.routeTemplate
  httpStatus := status
  errorCode := none
  metadata := metadata

/-- The checks of `Create` on the job's actor and of `audit_export_jobs` on its row. -/
def JobOk (actor : ExportActor) (f : ExportFilter) (fingerprint : Bytes) : Prop :=
  fingerprint.length = 32 ∧ (actor.kind = "shared_admin_token" ∨ actor.kind = "oidc_user") ∧
    (actor.kind = "oidc_user" ↔ actor.issuer ≠ "") ∧ Text.octetLength f.json.text ≤ 4096

instance (actor : ExportActor) (f : ExportFilter) (fingerprint : Bytes) :
    Decidable (JobOk actor f fingerprint) := by
  unfold JobOk
  infer_instance

/-- The columns of the unique constraint. -/
def jobKey (j : AuditExportJob) : String × String × UUID :=
  (j.requestedByKind, j.requestedBySubject, j.idempotencyKey)

/-- A day. -/
def jobLifetime : Duration := Timestamp.seconds 86400

def newJob (actor : ExportActor) (key : UUID) (f : ExportFilter) (format : String)
    (synchronous : Bool) (fingerprint : Bytes) (now : Timestamp) (id : UUID) : AuditExportJob where
  id := id
  idempotencyKey := key
  requestFingerprint := fingerprint
  requestedByKind := actor.kind
  requestedByIssuer := optionalText actor.issuer
  requestedBySubject := actor.subject
  filters := f
  format := format
  status := if synchronous then .processing else .pending
  rowCount := none
  payloadCipher := none
  nonce := none
  keyVersion := none
  failureCode := none
  createdAt := now
  startedAt := none
  completedAt := none
  expiresAt := now + jobLifetime
  downloadedAt := none

/-- What `Create` requires before its transaction. -/
def CreateOk (actor : ExportActor) (key : UUID) (f : ExportFilter) (format : String)
    (audit : DownloadAudit) : Prop :=
  key ≠ UUID.nil ∧ actor.subject ≠ "" ∧ audit.requestId ≠ "" ∧ audit.method ≠ "" ∧
    audit.routeTemplate ≠ "" ∧
    ValidateExport f format

instance (actor : ExportActor) (key : UUID) (f : ExportFilter) (format : String)
    (audit : DownloadAudit) : Decidable (CreateOk actor key f format audit) := by
  unfold CreateOk
  infer_instance

/-- The transaction of `Create`: the job that stands under the key, where the request is the
same, or a new one with its audit event. -/
def createJob (sha256 : Bytes → Bytes) (actor : ExportActor) (key : UUID) (f : ExportFilter)
    (format : String) (synchronous : Bool) (audit : DownloadAudit) (now : Timestamp) (t : Tick)
    (s : ExportTables) :
    Except ExportError (AuditExportJob × ExportTables) :=
  let fingerprint := requestFingerprint sha256 f format
  if ¬CreateOk actor key f format audit then .error .invalidExport
  else if ¬JobOk actor f fingerprint then .error (.store .checkViolation)
  else match lookup jobKey (actor.kind, actor.subject, key) s.jobs with
    | some j =>
      if j.requestFingerprint = fingerprint then .ok (j, s) else .error .idempotencyMismatch
    | none =>
      let job := newJob actor key f format synchronous fingerprint now (t.ids 1)
      if ∃ j ∈ s.jobs, j.id = job.id then .error (.store .uniqueViolation)
      else
        let metadata :=
          Json.obj [("format", .str format), ("synchronous", .bool synchronous),
            ("from", .str f.from_.text),
          ("to", .str f.to_.text)]
        match insertAdminAuditEvent (auditParams actor audit "audit.export_requested" job.id 202
          metadata) t s.events with
        | .error err => .error (.store err)
        | .ok (_, events) => .ok (job, ⟨s.jobs ++ [job], events⟩)

/-- The job of an actor: neither `Get` nor `Consume` looks at the issuer. -/
def AuditExportJob.Of (actor : ExportActor) (id : UUID) (j : AuditExportJob) : Prop :=
  j.id = id ∧ j.requestedByKind = actor.kind ∧ j.requestedBySubject = actor.subject

instance (actor : ExportActor) (id : UUID) (j : AuditExportJob) : Decidable (j.Of actor id) := by
  unfold AuditExportJob.Of
  infer_instance

def findJob (actor : ExportActor) (id : UUID) (s : ExportTables) : Option AuditExportJob :=
  s.jobs.find? fun j => j.Of actor id

/-- `Get` -/
def getJob (actor : ExportActor) (id : UUID) (s : ExportTables) : Except ExportError ExportJob :=
  match findJob actor id s with
  | none => .error (.store .noRows)
  | some j => .ok j.view

/-- The update of `ProcessPending` on the row it has chosen. -/
def setStarted (now : Timestamp) (j : AuditExportJob) : AuditExportJob :=
  { j with status := .processing, startedAt := some now }

/-- A pending job that has not expired. -/
def Claimable (now : Timestamp) (j : AuditExportJob) : Prop :=
  j.status = .pending ∧ now < j.expiresAt

instance (now : Timestamp) (j : AuditExportJob) : Decidable (Claimable now j) := by
  unfold Claimable
  infer_instance

variable {Key : Type} {aead : Aead Key}

/-- The row that `process` and `fail` update, while it is still being processed. -/
def isProcessing (id : UUID) (j : AuditExportJob) : Bool := j.id = id && j.status = .processing

def setReady (rows : Nat) (e : Encrypted) (version : Int16) (now : Timestamp) (j : AuditExportJob) :
    AuditExportJob :=
  { j with
    status := .ready
    rowCount := some rows
    payloadCipher := some e.cipher
    nonce := some e.nonce
    keyVersion := some version
    completedAt := some now }

/-- The last update of `process`. The version goes to a `smallint`; `int2` gives the number
that is bound for it, where there is one. -/
def finishJob (int2 : Int → Option Int16) (id : UUID) (rows : Nat) (e : Encrypted) (now : Timestamp)
    (jobs : List AuditExportJob) : Option (List AuditExportJob) :=
  (int2 e.keyVersion).map fun version => update (isProcessing id) (setReady rows e version now) jobs

def setFailed (code : String) (now : Timestamp) (j : AuditExportJob) : AuditExportJob :=
  { j with status := .failed, failureCode := some code, completedAt := some now }

/-- `fail` -/
def failJob (id : UUID) (code : String) (now : Timestamp) :
    List AuditExportJob → List AuditExportJob :=
  update (isProcessing id) (setFailed code now)

/-- The payload of a job taken away. -/
def AuditExportJob.erased (j : AuditExportJob) : AuditExportJob :=
  { j with status := .expired, payloadCipher := none, nonce := none, keyVersion := none }

/-- What `Expire` selects. -/
def Expirable (now : Timestamp) (j : AuditExportJob) : Prop :=
  j.expiresAt ≤ now ∧ (j.status = .pending ∨ j.status = .processing ∨ j.status = .ready)

instance (now : Timestamp) (j : AuditExportJob) : Decidable (Expirable now j) := by
  unfold Expirable
  infer_instance

/-- What `Consume` checks on the row it has locked, at a reading of the clock, and the
payload that it opens. -/
def openPayload (cryptor : Cryptor aead) (j : AuditExportJob) (now : Timestamp) :
    Except ExportError Bytes :=
  if j.downloadedAt.isSome then .error .consumed
  else if j.expiresAt ≤ now then .error .expired
  else if j.status ≠ .ready then .error .notReady
  else match j.keyVersion with
    | none => .error .notReady
    | some version =>
      if j.payloadCipher.getD [] = [] ∨ j.nonce.getD [] = [] then .error .notReady
      else match cryptor.decryptBytes ⟨j.payloadCipher.getD [], j.nonce.getD [], version.toInt⟩ with
        | .error err => .error (.crypto err)
        | .ok payload => .ok payload

/-- The rows that the update of `Consume` selects. -/
def consumable (j r : AuditExportJob) : Bool :=
  r.id = j.id && r.status = .ready && r.downloadedAt.isNone

def AuditExportJob.downloaded (at_ : Timestamp) (j : AuditExportJob) : AuditExportJob :=
  { j.erased with downloadedAt := some at_ }

/-- The metadata of the event of a download. -/
def downloadMetadata (j : AuditExportJob) : Json :=
  .obj (("format", .str j.format) :: (j.rowCount.map fun n => ("row_count", Json.num n)).toList)

/-- The rest of the transaction of `Consume` after it has locked its row. -/
def consumeJob (cryptor : Cryptor aead) (actor : ExportActor) (audit : DownloadAudit)
    (j : AuditExportJob) (now downloadedAt : Timestamp) (t : Tick) (s : ExportTables) :
    Except ExportError (Bytes × ExportTables) :=
  match openPayload cryptor j now with
  | .error err => .error err
  | .ok payload =>
    match updateOne (consumable j) (AuditExportJob.downloaded downloadedAt) s.jobs with
    | none => .error .consumed
    | some jobs =>
      match insertAdminAuditEvent (auditParams actor audit "audit.export_downloaded" j.id 200
        (downloadMetadata j)) t s.events with
      | .error err => .error (.store err)
      | .ok (_, events) => .ok (payload, ⟨jobs, events⟩)

section specs

variable {sha256 : Bytes → Bytes} {actor : ExportActor} {key id : UUID} {f : ExportFilter}
  {format : String} {synchronous : Bool} {audit : DownloadAudit} {now downloadedAt : Timestamp}
  {t : Tick} {s s' : ExportTables} {j : AuditExportJob} {cryptor : Cryptor aead} {payload : Bytes}

/-- A creation answers with the job that stands under its key, the same request, or adds a
job with its audit event. -/
theorem createJob_ok (h : createJob sha256 actor key f format synchronous audit now t s =
      .ok (j, s')) :
    CreateOk actor key f format audit ∧ JobOk actor f (requestFingerprint sha256 f format) ∧
    ((lookup jobKey (actor.kind, actor.subject, key) s.jobs = some j ∧
        j.requestFingerprint = requestFingerprint sha256 f format ∧ s' = s) ∨
      (lookup jobKey (actor.kind, actor.subject, key) s.jobs = none ∧ (∀ r ∈ s.jobs, r.id ≠ j.id) ∧
        j = newJob actor key f format synchronous
          (requestFingerprint sha256 f format) now (t.ids 1) ∧
        ∃ e, s' = ⟨s.jobs ++ [j], { s.events with audit := s.events.audit ++ [e] }⟩)) := by
  simp only [createJob] at h
  split at h
  · cases h
  next hok =>
    split at h
    · cases h
    next hjob =>
      refine ⟨not_not.mp hok, not_not.mp hjob, ?_⟩
      split at h
      next r hr =>
        split at h
        next hsame =>
          cases h
          exact .inl ⟨hr, hsame, rfl⟩
        · cases h
      next hnone =>
        split at h
        · cases h
        next hfresh =>
          split at h
          · cases h
          next e events he =>
            cases h
            refine .inr ⟨hnone, fun r hr hid => hfresh ⟨r, hr, hid⟩, rfl, e, ?_⟩
            obtain ⟨-, rfl, rfl⟩ := insertAdminAuditEvent_ok he
            rfl

/-- A payload is opened before the expiry of a ready job that was not downloaded. -/
theorem openPayload_ok (h : openPayload cryptor j now = .ok payload) :
    j.downloadedAt = none ∧ now < j.expiresAt ∧
    j.status = .ready ∧ ∃ version, j.keyVersion = some version ∧
      cryptor.decryptBytes ⟨j.payloadCipher.getD [], j.nonce.getD [],
        version.toInt⟩ = .ok payload := by
  simp only [openPayload] at h
  split at h
  · cases h
  next hdownloaded =>
    split at h
    · cases h
    next hexpires =>
      split at h
      · cases h
      next hready =>
        split at h
        · cases h
        next version hversion =>
          split at h
          · cases h
          split at h
          · cases h
          next q hq =>
            cases h
            exact ⟨by simpa using hdownloaded, Int.not_le.mp hexpires, not_not.mp hready,
              version, hversion, hq⟩

/-- A download erases its payload and records itself. -/
theorem consumeJob_ok (h : consumeJob cryptor actor audit j now downloadedAt t s =
      .ok (payload, s')) :
    openPayload cryptor j now = .ok payload ∧ s.jobs.countP (consumable j) = 1 ∧
      s' = ⟨update (consumable j) (AuditExportJob.downloaded downloadedAt) s.jobs,
        { s.events with audit := s.events.audit ++
          [auditRow (auditParams actor audit "audit.export_downloaded" j.id 200
            (downloadMetadata j)) t] }⟩ := by
  simp only [consumeJob] at h
  split at h
  · cases h
  next q hq =>
    split at h
    · cases h
    next jobs hjobs =>
      obtain ⟨hone, rfl⟩ := updateOne_eq_some.mp hjobs
      split at h
      · cases h
      next e events he =>
        cases h
        obtain ⟨-, rfl, rfl⟩ := insertAdminAuditEvent_ok he
        exact ⟨hq, hone, rfl⟩

end specs

/-- What `Consume` requires before its transaction. -/
def ConsumeOk (actor : ExportActor) (audit : DownloadAudit) : Prop :=
  actor.subject ≠ "" ∧ audit.requestId ≠ "" ∧ audit.method ≠ "" ∧ audit.routeTemplate ≠ ""

instance (actor : ExportActor) (audit : DownloadAudit) : Decidable (ConsumeOk actor audit) := by
  unfold ConsumeOk
  infer_instance

end Tenancit.Auditops
