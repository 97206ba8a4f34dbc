import Tenancit.Auditops.Export
import Tenancit.Lib.Runs

/-!
Export jobs under concurrent requests and workers. The transactions that create, claim,
finish, fail and expire jobs take effect at their commit, and wait for a row that a download
has locked; a generation goes on between such transactions, with what it has read; a
download holds its row locked from its first read to its end. Other transactions write and
remove audit events at any time.
-/
namespace Tenancit.Auditops

open Encoding Crypto Store Queries Table

/-- How far `process` has come, of the job with the given identifier. -/
inductive Generation where
  | started (id : UUID) (filter : ExportFilter) (format : String)
  | generated (id : UUID) (payload : Bytes) (rows : Nat)
  | encrypted (id : UUID) (e : Encrypted) (rows : Nat)
  | failing (id : UUID) (code : String)
  | ended

/-- A download: the row it has read and locked. -/
inductive Download where
  | opened (actor : ExportActor) (audit : DownloadAudit) (job : AuditExportJob)
  | ended

def Download.held : Download → Option UUID
  | opened _ _ job => some job.id
  | ended => none

/-- A payload that a download has returned, and the reading of the clock it was checked at. -/
structure Returned where
  job : UUID
  payload : Bytes
  reading : Timestamp

/-- The committed tables, the generations and downloads so far, the events that each
generation has read, and the payloads returned. -/
structure World where
  tables : ExportTables
  generations : List Generation := []
  downloads : List Download := []
  snapshots : List (UUID × List AdminAuditEvent) := []
  returned : List Returned := []

/-- A download has the row of the job locked. -/
def World.Locked (w : World) (id : UUID) : Prop := ∃ d ∈ w.downloads, d.held = some id

instance (w : World) (id : UUID) : Decidable (w.Locked id) :=
  inferInstanceAs (Decidable (∃ d ∈ w.downloads, d.held = some id))

inductive Label where
  | create (actor : ExportActor) (key : UUID) (f : ExportFilter)
      (format : String) (synchronous : Bool)
      (audit : DownloadAudit) (now : Timestamp) (t : Tick)
  | claim (id : UUID) (now : Timestamp)
  | generate (n : Nat)
  | generationFails (n : Nat)
  | archiveFails (n : Nat)
  | encrypt (n server : Nat) (random : Nat → UInt8)
  | encryptionFails (n : Nat)
  | finish (n : Nat) (now : Timestamp)
  | fail (n : Nat) (now : Timestamp)
  | crash (n : Nat)
  | expire (now : Timestamp) (unseen : List UUID)
  | lock (actor : ExportActor) (id : UUID) (audit : DownloadAudit)
  | consume (n server : Nat) (now downloadedAt : Timestamp) (t : Tick)
  | rollback (n : Nat)
  | others (events : EventTables)

variable {Key : Type} {aead : Aead Key}

/-- One step. A worker claims a job that nobody has locked, whichever is then the oldest;
`Expire` misses the rows inserted after its statement began; a request that fails changes
nothing. -/
def step (sha256 : Bytes → Bytes) (int2 : Int → Option Int16) (servers : Nat → Cryptor aead)
    (w : World) : Label → Option World
  | .create actor key f format synchronous audit now t =>
    match createJob sha256 actor key f format synchronous audit now t w.tables with
    | .error _ => some w
    | .ok (job, s) =>
      if w.Locked job.id then none
      else if synchronous = true ∧ job.status = .processing then
        some { w with tables := s, generations := w.generations ++ [.started job.id f format] }
      else some { w with tables := s }
  | .claim id now => match lookup AuditExportJob.id id w.tables.jobs with
    | none => none
    | some j =>
      if Claimable now j ∧ ¬w.Locked id then
        some { w with
          tables :=
            { w.tables with jobs := update (fun r => r.id = id) (setStarted now) w.tables.jobs }
          generations := w.generations ++ [.started id j.filters j.format] }
      else none
  | .generate n => match w.generations[n]? with
    | some (.started id f format) =>
      let events := w.tables.events.audit
      match generate f format events with
      | none => some { w with
          generations := w.generations.set n (.failing id "generation_failed")
          snapshots := w.snapshots ++ [(id, events)] }
      | some (payload, rows) => some { w with
          generations := w.generations.set n (.generated id payload rows)
          snapshots := w.snapshots ++ [(id, events)] }
    | _ => none
  | .generationFails n => match w.generations[n]? with
    | some (.started id _ _) =>
      some { w with generations := w.generations.set n (.failing id "generation_failed") }
    | _ => none
  | .archiveFails n => match w.generations[n]? with
    | some (.generated id _ _) =>
      some { w with generations := w.generations.set n (.failing id "archive_failed") }
    | _ => none
  | .encrypt n server random => match w.generations[n]? with
    | some (.generated id payload rows) =>
      some { w with
        generations :=
          w.generations.set n (.encrypted id ((servers server).encryptBytes random payload) rows) }
    | _ => none
  | .encryptionFails n => match w.generations[n]? with
    | some (.generated id _ _) =>
      some { w with generations := w.generations.set n (.failing id "encryption_failed") }
    | _ => none
  | .finish n now => match w.generations[n]? with
    | some (.encrypted id e rows) =>
      if w.Locked id then none
      else match finishJob int2 id rows e now w.tables.jobs with
        | none => some { w with generations := w.generations.set n .ended }
        | some jobs => some { w with
            tables := { w.tables with jobs := jobs }
            generations := w.generations.set n .ended }
    | _ => none
  | .fail n now => match w.generations[n]? with
    | some (.failing id code) =>
      if w.Locked id then none
      else some { w with
        tables := { w.tables with jobs := failJob id code now w.tables.jobs }
        generations := w.generations.set n .ended }
    | _ => none
  | .crash n => some { w with generations := w.generations.set n .ended }
  | .expire now unseen =>
    if ∃ j ∈ w.tables.jobs, Expirable now j ∧ j.id ∉ unseen ∧ w.Locked j.id then none
    else some { w with tables := { w.tables with
      jobs :=
        update (fun j => decide (Expirable now j ∧ j.id ∉ unseen))
          AuditExportJob.erased w.tables.jobs } }
  | .lock actor id audit =>
    if ¬ConsumeOk actor audit then some w
    else match findJob actor id w.tables with
      | none => some w
      | some j =>
        if w.Locked j.id then none
        else some { w with downloads := w.downloads ++ [.opened actor audit j] }
  | .consume n server now downloadedAt t => match w.downloads[n]? with
    | some (.opened actor audit j) =>
      match consumeJob (servers server) actor audit j now downloadedAt t w.tables with
      | .error _ => some { w with downloads := w.downloads.set n .ended }
      | .ok (payload, s) => some { w with
          tables := s
          downloads := w.downloads.set n .ended
          returned := w.returned ++ [⟨j.id, payload, now⟩] }
    | _ => none
  | .rollback n => some { w with downloads := w.downloads.set n .ended }
  | .others events => some { w with tables := { w.tables with events := events } }

/-- What never changes of a job. -/
def AuditExportJob.origin (j : AuditExportJob) : AuditExportJob :=
  { j with
    status := .pending
    rowCount := none
    payloadCipher := none
    nonce := none
    keyVersion := none
    failureCode := none
    startedAt := none
    completedAt := none
    downloadedAt := none }

end Tenancit.Auditops
