import Mathlib.Data.Prod.Lex
import Mathlib.Data.String.Basic
import Tenancit.Httpapi.AdminSession
import Tenancit.Lib.Calendar
import Tenancit.Lib.Latest

/-!
`httpapi/operational_reports.go`: the reports of operators and their tools, an append-only
table, and the health page that shows the last report of each kind and source.
-/
namespace Tenancit.Httpapi

open Adminauth Encoding Service Store Table Text
open Program.Tx (ofExcept)

inductive ReportKind where
  | backup
  | restore
  | rewrap
  | migration
  deriving DecidableEq

namespace ReportKind

def text : ReportKind → String
  | backup => "backup"
  | restore => "restore"
  | rewrap => "rewrap"
  | migration => "migration"

def parse (s : String) : Option ReportKind :=
  [backup, restore, rewrap, migration].find? fun k => k.text = s

end ReportKind

inductive ReportStatus where
  | healthy
  | degraded
  | failed
  deriving DecidableEq

namespace ReportStatus

def text : ReportStatus → String
  | healthy => "healthy"
  | degraded => "degraded"
  | failed => "failed"

def parse (s : String) : Option ReportStatus :=
  [healthy, degraded, failed].find? fun x => x.text = s

end ReportStatus

/-- A row of `operational_reports`. -/
structure OperationalReport where
  id : UUID
  kind : ReportKind
  source : String
  status : ReportStatus
  occurredAt : Timestamp
  freshUntil : Timestamp
  receivedAt : Timestamp
  idempotencyKey : String
  payloadHash : Bytes
  credentialVersion : String

/-- The body of a report, with its time in UTC. -/
structure OperationalReportBody where
  kind : String
  source : String
  status : String
  occurredAt : Nanoseconds
  freshForSeconds : Int

/-- A letter of either case or a digit. -/
def alphabetic (c : Char) : Bool := isLower c || ('A' ≤ c && c ≤ 'Z') || isDigit c

/-- `^[A-Za-z0-9][A-Za-z0-9._:-]{0,127}$` -/
def operationalIdentifier (s : String) : Bool :=
  match s.toList with
  | [] => false
  | c :: cs =>
    alphabetic c && cs.length ≤ 127 && cs.all fun c => alphabetic c || c ∈ ['.', '_', ':', '-']

/-- A time as its clock shows it in UTC. -/
def utcTime (t : Nanoseconds) : ZonedTime :=
  let (year, month, day) := civil (t / (86400 * second))
  let seconds := (t / second % 86400).toNat
  { year := year.toNat
    month := month
    day := day
    hour := seconds / 3600
    minute := seconds / 60 % 60
    second := seconds % 60
    nanosecond := Fin.ofNat _ (t % second).toNat
    offset := 0 }

/-- What the fingerprint of a report is taken of. -/
def OperationalReportBody.payload (b : OperationalReportBody) : Bytes :=
  (Json.obj [("kind", .str b.kind), ("source", .str b.source), ("status", .str b.status),
    ("occurred_at", .str (utcTime b.occurredAt).text),
    ("fresh_for_seconds", .num b.freshForSeconds)]).marshal

def OperationalReportBody.trimmed (b : OperationalReportBody) : OperationalReportBody :=
  { b with kind := trimSpace b.kind, source := trimSpace b.source, status := trimSpace b.status }

/-- The zero `time.Time`. -/
def zeroTime : Nanoseconds := -62135596800 * second

/-- `validOperationalReport`: the kind and the status of a report that is accepted at `now`. -/
def validOperationalReport (b : OperationalReportBody)
    (idempotencyKey : String) (now : Nanoseconds) : Option (ReportKind × ReportStatus) :=
  match ReportKind.parse b.kind, ReportStatus.parse b.status with
  | some kind, some status =>
    if operationalIdentifier b.source ∧ operationalIdentifier idempotencyKey ∧
        60 ≤ b.freshForSeconds ∧ b.freshForSeconds ≤ 7 * 24 * 60 * 60 ∧
        b.occurredAt ≠ zeroTime ∧ b.occurredAt ≤ now + 300 * second ∧
        now - 30 * 86400 * second ≤ b.occurredAt
    then some (kind, status) else none
  | _, _ => none

/-- The arguments of the `INSERT`. -/
structure OperationalReportParams where
  kind : ReportKind
  source : String
  status : ReportStatus
  occurredAt : Timestamp
  freshUntil : Timestamp
  idempotencyKey : String
  payloadHash : Bytes
  credentialVersion : String

/-- The check constraints of `operational_reports`. -/
def ReportOk (arg : OperationalReportParams) : Prop :=
  btrim arg.source ≠ "" ∧ arg.source.length ≤ 128 ∧ arg.occurredAt < arg.freshUntil ∧
    btrim arg.idempotencyKey ≠ "" ∧ arg.idempotencyKey.length ≤ 128 ∧
    btrim arg.credentialVersion ≠ ""

instance (arg : OperationalReportParams) : Decidable (ReportOk arg) := by
  unfold ReportOk
  infer_instance

/-- `INSERT … ON CONFLICT (source, idempotency_key) DO NOTHING`: no row where the key is
taken. -/
def insertOperationalReport (arg : OperationalReportParams) (t : Tick)
    (rows : List OperationalReport) :
    Except PgError (Option OperationalReport × List OperationalReport) :=
  let row : OperationalReport :=
    ⟨t.ids 0, arg.kind, arg.source, arg.status, arg.occurredAt, arg.freshUntil, t.clock,
    arg.idempotencyKey, arg.payloadHash, arg.credentialVersion⟩
  if ¬ReportOk arg then .error .checkViolation
  else if ∃ x ∈ rows, x.source = arg.source ∧ x.idempotencyKey =
    arg.idempotencyKey then .ok (none, rows)
  else if ∃ x ∈ rows, x.id = row.id then .error .uniqueViolation
  else .ok (some row, rows ++ [row])

def getOperationalReport (source idempotencyKey : String) (rows : List OperationalReport) :
    Except PgError OperationalReport :=
  Queries.one (rows.find? fun x => x.source = source && x.idempotencyKey = idempotencyKey)

/-- A status as it stands at a time; a report that is no longer fresh has none of its own. -/
inductive EffectiveStatus where
  | stale
  | current (status : ReportStatus)
  deriving DecidableEq

def EffectiveStatus.text : EffectiveStatus → String
  | stale => "stale"
  | current status => status.text

def effectiveReportStatus (status : ReportStatus) (freshUntil : Timestamp) (now : Nanoseconds) :
    EffectiveStatus :=
  if ¬now < freshUntil * 1000 then .stale else .current status

structure OperationalReportView where
  report : OperationalReport
  effectiveStatus : EffectiveStatus

def reportView (now : Nanoseconds) (x : OperationalReport) : OperationalReportView :=
  ⟨x, effectiveReportStatus x.status x.freshUntil now⟩

def OperationalReportView.json (v : OperationalReportView) : Json :=
  .obj [("id", v.report.id.json), ("kind", .str v.report.kind.text),
    ("source", .str v.report.source),
    ("status", .str v.report.status.text), ("effective_status", .str v.effectiveStatus.text),
    ("occurred_at", v.report.occurredAt.json), ("fresh_until", v.report.freshUntil.json),
    ("received_at", v.report.receivedAt.json),
    ("credential_version", .str v.report.credentialVersion)]

def uncached (r : Response) : Response :=
  { r with headers := ("Cache-Control", "private, no-store") :: r.headers }

/-- The credential of reporters: its hash, empty where none is set, and its version. -/
structure ReportCredential where
  tokenHash : String
  version : String

def setOperationsReportCredential (sha256 : Bytes → Bytes) (token version : String) :
    ReportCredential :=
  if trimSpace token = "" ∨ trimSpace version = "" then ⟨"", ""⟩
  else ⟨hashAPIKey sha256 (trimSpace token), trimSpace version⟩

/-- `requireOperationsReporter` -/
def requireOperationsReporter (sha256 : Bytes → Bytes) (credential : ReportCredential)
    (bearer : String) : Except Response Unit :=
  if credential.tokenHash = "" then .error (writeError 503 "operations_reporting_unavailable")
  else if constantTimeCredentialMatch sha256 credential.tokenHash bearer then .ok ()
  else .error (writeError 401 "invalid_operations_credential")

/-- The arguments of the `INSERT` for an accepted body. -/
def reportParams (sha256 : Bytes → Bytes) (version idempotencyKey : String)
    (b : OperationalReportBody) (x : ReportKind × ReportStatus) : OperationalReportParams where
  kind := x.1
  source := b.source
  status := x.2
  occurredAt := timestamp b.occurredAt
  freshUntil := timestamp (b.occurredAt + b.freshForSeconds * second)
  idempotencyKey := idempotencyKey
  payloadHash := sha256 b.payload
  credentialVersion := version

/-- `createOperationalReport` behind its middleware. -/
def createOperationalReport (sha256 : Bytes → Bytes) (credential : ReportCredential)
    (bearer idempotencyKey : String) (body : Except Response OperationalReportBody)
    (now : Nanoseconds) :
    Tx (List OperationalReport) Response Response := do
  ofExcept (requireOperationsReporter sha256 credential bearer)
  let body ← ofExcept (body.map OperationalReportBody.trimmed)
  let key := trimSpace idempotencyKey
  match validOperationalReport body key now with
  | none => Program.Tx.fail (badRequest "invalid_operational_report")
  | some valid =>
    let inserted ← (run
      (insertOperationalReport (reportParams sha256 credential.version key body valid))).mapErr
      fun _ => writeInternalError
    match inserted with
    | some row => pure (uncached (writeJSON 201 (reportView now row).json))
    | none =>
      let row ← (read (getOperationalReport body.source key)).mapErr fun _ => writeInternalError
      if row.payloadHash ≠ sha256 body.payload
        then Program.Tx.fail (conflict "idempotency_conflict")
      else pure (uncached (writeJSON 200 (reportView now row).json))

/-- `ORDER BY kind, source, occurred_at DESC, id DESC` -/
def reportOrder (x : OperationalReport) : String ×ₗ String ×ₗ Timestampᵒᵈ ×ₗ UUIDᵒᵈ :=
  toLex (x.kind.text,
    toLex (x.source, toLex (OrderDual.toDual x.occurredAt, OrderDual.toDual x.id)))

/-- `SELECT DISTINCT ON (kind, source)`: the reports on the health page. -/
def latestReports (rows : List OperationalReport) : List OperationalReport :=
  latest (fun x => (x.kind, x.source)) reportOrder rows

/-- `telemetry.Status` -/
inductive HealthStatus where
  | healthy
  | degraded
  | unavailable
  deriving DecidableEq

structure ComponentStatus where
  name : String
  status : HealthStatus
  latencyMS : Int

/-- A probe and what it found. -/
structure ProbeResult where
  name : String
  critical : Bool
  failed : Bool
  latencyMS : Int

/-- `telemetry.EvaluateReadiness` -/
def evaluateReadiness (probes : List ProbeResult) : HealthStatus × List ComponentStatus :=
  (probes.foldl (fun status p => if !p.failed then status else if p.critical then .unavailable
      else if status = .healthy then .degraded else status) .healthy,
    probes.map fun p =>
      ⟨p.name, if !p.failed then .healthy else if p.critical then .unavailable else .degraded,
      max 0 p.latencyMS⟩)

structure OperationalQueueView where
  webhookPending : Nat
  webhookRetry : Nat
  webhookDeadLetter : Nat
  openCircuits : Nat

def operationalQueues (clock : Timestamp) (s : EventTables) : OperationalQueueView where
  webhookPending := s.deliveries.countP fun d => d.status = .pending || d.status = .delivering
  webhookRetry := s.deliveries.countP fun d => d.status = .retry
  webhookDeadLetter := s.deliveries.countP fun d => d.status = .deadLetter
  openCircuits := s.targets.countP fun t => t.circuitOpenUntil.any fun u => clock < u

structure OperationalHealthView where
  status : HealthStatus
  checkedAt : Nanoseconds
  components : List ComponentStatus
  reports : List OperationalReportView
  queues : OperationalQueueView

/-- `operationalHealth`: `clock` is that of the database at the query of the queues. -/
def operationalHealth (probes : List ProbeResult) (now : Nanoseconds) (clock : Timestamp)
    (rows : List OperationalReport) (s : EventTables) : OperationalHealthView :=
  let readiness := evaluateReadiness probes
  let reports := (latestReports rows).map (reportView now)
  let queues := operationalQueues clock s
  let degraded := reports.any (fun v => v.effectiveStatus ≠ .current .healthy) ||
    decide (queues.webhookDeadLetter > 0 ∨ queues.openCircuits > 0)
  { status := if readiness.1 = .healthy ∧ degraded then .degraded else readiness.1
    checkedAt := now
    components := readiness.2
    reports := reports
    queues := queues }

end Tenancit.Httpapi
