import Tenancit.Idempotency.Store
import Tenancit.Lib.Locks
import Tenancit.Lib.OnceTable

/-!
`internal/idempotency` statement by statement, in any order of any number of transactions. Whoever
inserts a record keeps others with its key waiting until the transaction ends, and so does a
cleanup that has deleted one; a transaction that finds a record reads it with the next statement,
on which the record may be gone. The log has what is committed, answered and cleaned up.
-/
namespace Tenancit.Idempotency

open Encoding Crypto Store Table Locks OnceTable

variable {Key : Type} {aead : Aead Key}

/-- What is stored and replayed of a mutation. -/
structure Answer where
  fingerprint : Bytes
  expiresAt : Timestamp
  status : Int
  contentType : String
  body : Bytes

def Answer.replay (a : Answer) : Replay := ⟨a.status, a.contentType, a.body⟩

/-- What a request is told that has found a record, or found that it is gone. -/
structure Reply where
  fingerprint : Bytes
  now : Timestamp
  result : Except IdempotencyError Replay

/-- A request as a process handles it. -/
structure Attempt (aead : Aead Key) where
  request : Request
  cryptor : Cryptor aead

inductive Phase where
  | begun
  /-- The record is inserted, and nobody else sees it. -/
  | claimed (row : AdminIdempotencyRecord)
  /-- There was a record, at a reading of the application clock. -/
  | conflicted (now : Timestamp)
  /-- `Complete` has stored the answer with the record. -/
  | completed (row : AdminIdempotencyRecord) (answer : Answer)
  | ended

structure Session (aead : Aead Key) where
  attempt : Attempt aead
  phase : Phase

/-- The record that the transaction has inserted. -/
def Session.row? (s : Session aead) : Option AdminIdempotencyRecord :=
  match s.phase with
  | .claimed row | .completed row _ => some row
  | _ => none

def Session.heldKey (s : Session aead) : Option RecordKey := s.row?.map recordKey

def Session.heldId (s : Session aead) : Option UUID := s.row?.map AdminIdempotencyRecord.id

/-- A transaction of `CleanupExpired`, with the records that it has deleted while it is open. -/
structure Cleanup where
  now : Timestamp
  ids : List UUID

abbrev LogEntry := Event RecordKey Answer Reply Timestamp

structure World (aead : Aead Key) where
  records : Records := []
  sessions : List (Session aead) := []
  cleanups : List Cleanup := []
  log : List LogEntry := []

inductive Label (aead : Aead Key) where
  | open_ (attempt : Attempt aead)
  | claim (n : Nat) (now : Timestamp) (t : Tick)
  | complete (n : Nat) (status : Int) (contentType : String) (body : Bytes) (t : Tick)
  | commit (n : Nat)
  | replay (n : Nat)
  | rollback (n : Nat)
  | cleanup (now : Timestamp) (limit : Nat)
  | cleanupCommit (m : Nat)
  | cleanupRollback (m : Nat)

namespace World

/-- Records that an open cleanup has deleted. -/
def deleted (w : World aead) : List UUID := w.cleanups.flatMap Cleanup.ids

/-- Nobody's open transaction has inserted or deleted a record of the key, or one with the
identifier. -/
def Free (w : World aead) (key : RecordKey) (id : UUID) : Prop :=
  (∀ s ∈ w.sessions, s.heldKey ≠ some key ∧ s.heldId ≠ some id) ∧
    id ∉ w.deleted ∧ ∀ r ∈ w.records, recordKey r = key → r.id ∉ w.deleted

instance (w : World aead) (key : RecordKey) (id : UUID) : Decidable (w.Free key id) :=
  inferInstanceAs (Decidable (_ ∧ _ ∧ _))

def setPhase (w : World aead) (n : Nat) (s : Session aead) (phase : Phase) : World aead :=
  { w with sessions := w.sessions.set n { s with phase } }

/-- The insert of `Begin`, which waits while the key is not free. -/
def claim (w : World aead) (n : Nat) (now : Timestamp) (t : Tick) : Option (World aead) :=
  match w.sessions[n]? with
  | some ⟨a, .begun⟩ =>
    if w.Free a.request.recordKey (t.ids 0) then
      match claimRecord a.request now t w.records with
      | .error _ => some (w.setPhase n ⟨a, .begun⟩ .ended)
      | .ok (affected, _) => some (w.setPhase n ⟨a, .begun⟩
          (if affected = 1 then .claimed (claimRow a.request now (t.ids 0)) else .conflicted now))
    else none
  | _ => none

/-- `Complete`, in the transaction of the record. -/
def complete (w : World aead) (n : Nat) (status : Int) (contentType : String) (body : Bytes)
    (t : Tick) : Option (World aead) :=
  match w.sessions[n]? with
  | some ⟨a, .claimed row⟩ =>
    if 200 ≤ status ∧ status ≤ 299 ∧ body ≠ [] ∧ Text.octetLength contentType ≤ 128 then
      if (w.records ++ [row]).countP (fun r => Completes a.request r) = 1 then
        some (w.setPhase n ⟨a, .claimed row⟩ (.completed
          (if Completes a.request row then completeRow (a.cryptor.encryptBytes t.random body) status
            contentType t.clock row else row)
          ⟨row.requestFingerprint, row.expiresAt, status, contentType, body⟩))
      else some (w.setPhase n ⟨a, .claimed row⟩ .ended)
    else some (w.setPhase n ⟨a, .claimed row⟩ .ended)
  | _ => none

def commit (w : World aead) (n : Nat) : Option (World aead) :=
  match w.sessions[n]? with
  | some ⟨a, .completed row answer⟩ => some { w.setPhase n ⟨a, .completed row answer⟩ .ended with
      records := w.records ++ [row], log := w.log ++ [.executed (recordKey row) answer] }
  | _ => none

/-- The select of `Begin`, which waits for a cleanup that has deleted the record; whatever it finds,
the transaction is rolled back. -/
def replay (w : World aead) (n : Nat) : Option (World aead) :=
  match w.sessions[n]? with
  | some ⟨a, .conflicted now⟩ =>
    if ∀ r ∈ w.records, recordKey r = a.request.recordKey → r.id ∉ w.deleted then
      let result := match findRecord w.records a.request.recordKey with
        | none => .error (.store .noRows)
        | some r => replayRecord a.cryptor a.request now r
      some { w.setPhase n ⟨a, .conflicted now⟩ .ended with
        log := w.log ++ [.answered a.request.recordKey ⟨a.request.fingerprint, now, result⟩] }
    else none
  | _ => none

/-- An error at any step. -/
def rollback (w : World aead) (n : Nat) : Option (World aead) :=
  w.sessions[n]?.map fun s => w.setPhase n s .ended

/-- The delete of `CleanupExpired`, which skips the records that are locked. -/
def cleanup (w : World aead) (now : Timestamp) (limit : Nat) : Option (World aead) :=
  match cleanupExpired now limit (w.records.filter fun r => r.id ∉ w.deleted) with
  | .error _ => none
  | .ok (_, rest) => some { w with cleanups := w.cleanups ++ [⟨now,
      ((w.records.filter fun r => r.id ∉ w.deleted).map AdminIdempotencyRecord.id).filter fun id =>
        id ∉ rest.map AdminIdempotencyRecord.id⟩] }

def cleanupCommit (w : World aead) (m : Nat) : Option (World aead) :=
  w.cleanups[m]?.map fun c => { w with
    records := delete (fun r => r.id ∈ c.ids) w.records
    cleanups := w.cleanups.eraseIdx m
    log := w.log ++ [.removed c.now ((w.records.filter fun r => r.id ∈ c.ids).map recordKey)] }

def step (w : World aead) : Label aead → Option (World aead)
  -- what is not valid is refused before the transaction
  | .open_ a =>
    if a.request.Valid then some { w with sessions := w.sessions ++ [⟨a, .begun⟩] } else none
  | .claim n now t => w.claim n now t
  | .complete n status contentType body t => w.complete n status contentType body t
  | .commit n => w.commit n
  | .replay n => w.replay n
  | .rollback n => w.rollback n
  | .cleanup now limit => w.cleanup now limit
  | .cleanupCommit m => w.cleanupCommit m
  | .cleanupRollback m => some { w with cleanups := w.cleanups.eraseIdx m }

end World

end Tenancit.Idempotency
