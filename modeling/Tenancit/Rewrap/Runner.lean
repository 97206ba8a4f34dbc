import Tenancit.Lib.Locks
import Tenancit.Rewrap.Preflight
import Tenancit.Values.Maintenance

/-!
`internal/rewrap/runner.go` as a machine that takes one step for each statement it sends,
next to writers of values and to maintenance. A transaction locks the rows it writes until
it ends; its writes are seen by others once it commits. A campaign may fail or crash at any
step, which rolls its transaction back and gives up its locks.
-/
namespace Tenancit.Rewrap

open Encoding Crypto Store Service Queries Values

variable {Key : Type} {aead : Aead Key}

/-- A statement of a writer: it stores a text for a field, or deletes a value. -/
inductive ValueWrite {Key : Type} (aead : Aead Key) where
  | store (cryptor : Cryptor aead) (resourceId : UUID) (field : ResourceField)
      (text : String) (ticks : List Tick)
  | remove (resourceId fieldId : UUID) (t : Tick)

namespace ValueWrite

/-- The row it writes. -/
def key : ValueWrite aead → UUID × UUID
  | store _ resourceId field _ _ => (resourceId, field.id)
  | remove resourceId fieldId _ => (resourceId, fieldId)

def apply (c : Catalog) : ValueWrite aead → Option Catalog
  | store cryptor resourceId field text ticks =>
    match storeField cryptor resourceId field text ticks c with
    | .ok (_, _, c') => some c'
    | .error _ => none
  | remove resourceId fieldId t => match deleteResourceValue resourceId fieldId t c with
    | .ok (_, c') => some c'
    | .error _ => none

/-- What it means for the plain map. -/
def record (o : PlainValues) : ValueWrite aead → PlainValues
  | store _ resourceId field text _ => o.write resourceId field.id text
  | remove resourceId fieldId _ => o.clear resourceId fieldId

/-- The fields and cryptors it relies on. -/
def Ready (c : Catalog) : ValueWrite aead → Prop
  | store _ _ field _ _ => ∃ f ∈ c.fields, f.id = field.id ∧ f.isSecret = field.isSecret
  | remove .. => True

instance (c : Catalog) : (x : ValueWrite aead) → Decidable (x.Ready c)
  | store _ _ field _ _ =>
    inferInstanceAs (Decidable (∃ f ∈ c.fields, f.id = field.id ∧ f.isSecret = field.isSecret))
  | remove .. => inferInstanceAs (Decidable True)

/-- The statements of a transaction, in their order. -/
def applyAll (c : Catalog) : List (ValueWrite aead) → Option Catalog
  | [] => some c
  | x :: xs => (x.apply c).bind fun c' => applyAll c' xs

def recordAll (o : PlainValues) (xs : List (ValueWrite aead)) : PlainValues := xs.foldl record o

end ValueWrite

/-- The local state of `Run`. -/
structure Campaign {Key : Type} (aead : Aead Key) where
  cryptor : Cryptor aead
  config : Config
  summary : Summary
  lastProgress : Timestamp

/-- Where a run of `Run` stands. -/
inductive Phase {Key : Type} (aead : Aead Key) where
  | idle
  | acquiring (run : Campaign aead)
  | holding (run : Campaign aead)
  | preflighted (run : Campaign aead)
  | looping (run : Campaign aead)
  /-- Inside the transaction of a batch: the rows to do, and those done with their new form. -/
  | inBatch (run : Campaign aead) (todo : List TenantResourceValue)
      (done : List (TenantResourceValue × Encrypted))
  | batched (run : Campaign aead) (processed : Nat)
  | counted (run : Campaign aead)
  | finished (run : Campaign aead) (err : Option RewrapError)

/-- A run as it begins. -/
def newCampaign (cryptor : Cryptor aead) (config : Config) (jobID : UUID) (clock : Timestamp) :
    Campaign aead where
  cryptor := cryptor
  config := config
  summary := ⟨jobID, config.targetVersion, config.dryRun, 0, 0, 0, 0, 0, [], clock, none⟩
  lastProgress := clock

inductive Owner where
  | writer (n : Nat)
  | campaign (n : Nat)
  deriving DecidableEq

/-- The committed tables with the plain map of what writers committed, and the open
transactions. -/
structure World {Key : Type} (aead : Aead Key) where
  catalog : Catalog
  plain : PlainValues
  locks : List (Owner × (UUID × UUID)) := []
  writers : Nat → List (ValueWrite aead) := fun _ => []
  campaigns : Nat → Phase aead := fun _ => .idle
  advisory : Option Nat := none

/-- A step of a campaign: the next statement of `Run`, or its end. -/
inductive CampaignStep {Key : Type} (aead : Aead Key) where
  | start (cryptor : Cryptor aead) (config : Config) (clock : Timestamp)
  | acquire
  | preflight
  | countDryRun (clock : Timestamp)
  | evidence (found : Bool) (clock : Timestamp)
  | select
  | row (t : Tick)
  | commitBatch (clock : Timestamp)
  | count (clock : Timestamp)
  | report (published : Bool) (clock : Timestamp)
  | fail (err : RewrapError)
  | crash

inductive Label {Key : Type} (aead : Aead Key) where
  | maintain (m : Maintenance) (ticks : List Tick)
  | createResource (now : Timestamp) (arg : CreateTenantResourceParams) (t : Tick)
  | write (n : Nat) (x : ValueWrite aead)
  | commitWriter (n : Nat)
  | rollbackWriter (n : Nat)
  | campaign (n : Nat) (x : CampaignStep aead)

/-- The cryptors a label brings into use. -/
def Label.cryptors : Label aead → List (Cryptor aead)
  | write _ (.store cryptor _ _ _ _) => [cryptor]
  | campaign _ (.start cryptor _ _) => [cryptor]
  | _ => []

namespace World

/-- What row and foreign key locks allow a transaction to change beside those who hold them. -/
def Undisturbed (locks : List (Owner × (UUID × UUID))) (c c' : Catalog) : Prop :=
  ∀ x ∈ locks, findValue c' x.2.1 x.2.2 = findValue c x.2.1 x.2.2 ∧
    ∀ f ∈ c.fields, f.id = x.2.2 → ∃ f' ∈ c'.fields, f'.id = f.id ∧ f'.isSecret = f.isSecret

instance (locks : List (Owner × (UUID × UUID))) (c c' : Catalog) :
    Decidable (Undisturbed locks c c') := by
  unfold Undisturbed
  infer_instance

/-- A campaign in a phase of its own. -/
def setPhase (w : World aead) (n : Nat) (p : Phase aead) : World aead :=
  { w with campaigns := Function.update w.campaigns n p }

/-- The end of a campaign: its transaction is over, its connections are closed. -/
def leave (w : World aead) (n : Nat) (p : Phase aead) : World aead :=
  { w.setPhase n p with
    locks := Locks.release w.locks (.campaign n)
    advisory := if w.advisory = some n then none else w.advisory }

/-- The row of a batch in its new form; the row version replaces the one that was locked. -/
def replaceRow (targetVersion : Int) (c : Catalog) (x : TenantResourceValue × Encrypted) :
    Catalog :=
  { c with values := Table.update (fun v => v.id = x.1.id) (rewrite targetVersion x.2) c.values }

/-- The tables as the transaction of a batch sees them, and as it leaves them. -/
def withRows (targetVersion : Int) (c : Catalog) (done : List (TenantResourceValue × Encrypted)) :
    Catalog :=
  done.foldl (replaceRow targetVersion) c

/-- One row of a batch, in the transaction that has done others before. -/
def processRow (run : Campaign aead) (t : Tick) (c : Catalog)
    (done : List (TenantResourceValue × Encrypted)) (row : TenantResourceValue) :
    Except RewrapError Encrypted := do
  authenticateRow run.cryptor row
  let rewrapped ← rewrapRow run.cryptor t.random row
  if (withRows run.config.targetVersion c done).values.countP (sameRow row) = 1 then .ok rewrapped
  else .error .casConflict

/-- What `Run` does between two batches. -/
def afterCount (w : World aead) (n : Nat) (run : Campaign aead) (processed : Nat)
    (clock : Timestamp) : World aead :=
  let left := remaining run.config.targetVersion w.catalog
  let run := { run with summary := { run.summary with remaining := left } }
  if left = 0 then w.setPhase n (.counted run)
  else if processed = 0 then
    let run :=
      { run with summary := { run.summary with lockedRetries := run.summary.lockedRetries + 1 } }
    if run.config.noProgressTimeout ≤ clock - run.lastProgress
      then w.leave n (.finished run (some .noProgress))
    else w.setPhase n (.looping run)
  else w.setPhase n (.looping run)

/-- One step of campaign `n`; nothing where `Run` does not take it in this phase. -/
def campaignStep (w : World aead) (n : Nat) : CampaignStep aead → Option (World aead)
  | .start cryptor config clock => match w.campaigns n with
    | .idle | .finished _ _ => match checkConfig cryptor config with
      | .error e =>
        some (w.setPhase n
          (.finished (newCampaign cryptor config (config.jobID.getD UUID.nil) clock) (some e)))
      | .ok (config, jobID) =>
        some (w.setPhase n (.acquiring (newCampaign cryptor config jobID clock)))
    | _ => none
  | .acquire => match w.campaigns n with
    | .acquiring run =>
      if w.advisory = none then some { w.setPhase n (.holding run) with advisory := some n }
      else some (w.leave n (.finished run (some .campaignLocked)))
    | _ => none
  | .preflight => match w.campaigns n with
    | .holding run =>
      match preflight run.cryptor run.config.targetVersion run.summary w.catalog with
      | (summary, none) => some (w.setPhase n (.preflighted { run with summary := summary }))
      | (summary, some e) => some (w.leave n (.finished { run with summary := summary } (some e)))
    | _ => none
  | .countDryRun clock => match w.campaigns n with
    | .preflighted run =>
      if run.config.dryRun then
        let summary := { run.summary with
          remaining := remaining run.config.targetVersion w.catalog
          completedAt := some clock }
        some (w.leave n (.finished { run with summary := summary } none))
      else none
    | _ => none
  | .evidence found clock => match w.campaigns n with
    | .preflighted run =>
      if run.config.dryRun then none
      else if found then some (w.setPhase n (.looping { run with lastProgress := clock }))
      else some (w.leave n (.finished run (some .safetyEvidence)))
    | _ => none
  | .select => match w.campaigns n with
    | .looping run =>
      let rows := selectBatch run.config.targetVersion run.config.batchSize.toNat
        (fun v => !decide (Locks.Free w.locks (.campaign n) (valueKey v))) w.catalog
      some { w.setPhase n (.inBatch run rows []) with
        locks := Locks.acquire w.locks (.campaign n) (rows.map valueKey) }
    | _ => none
  | .row t => match w.campaigns n with
    | .inBatch run (row :: todo) done => match processRow run t w.catalog done row with
      | .ok rewrapped => some (w.setPhase n (.inBatch run todo (done ++ [(row, rewrapped)])))
      | .error e => some (w.leave n (.finished run (some e)))
    | _ => none
  | .commitBatch clock => match w.campaigns n with
    | .inBatch run [] done =>
      let moved := if done = [] then run else { run with
        summary := { run.summary with
          batches := run.summary.batches + 1
          rewrapped := run.summary.rewrapped + done.length }
        lastProgress := clock }
      some { w.setPhase n (.batched moved done.length) with
        catalog := withRows run.config.targetVersion w.catalog done
        locks := Locks.release w.locks (.campaign n) }
    | _ => none
  | .count clock => match w.campaigns n with
    | .batched run processed => some (w.afterCount n run processed clock)
    | _ => none
  | .report published clock => match w.campaigns n with
    | .counted run =>
      let run := { run with summary := { run.summary with completedAt := some clock } }
      some (w.leave n (.finished run (if published then none else some .report)))
    | _ => none
  | .fail err => match w.campaigns n with
    | .idle | .finished _ _ => none
    | .acquiring run | .holding run | .preflighted run | .looping run | .inBatch
      run _ _ | .batched run _
    | .counted run => some (w.leave n (.finished run (some err)))
  | .crash => some (w.leave n .idle)

/-- One step of the system. -/
def step (w : World aead) : Label aead → Option (World aead)
  | .maintain m ticks =>
    let c' := m.body.after ticks w.catalog
    if Undisturbed w.locks w.catalog c' then some { w with
      catalog := c', plain := forget c' w.plain } else none
  | .createResource now arg t => match createTenantResource now arg t w.catalog with
    | .ok (res, c') =>
      some { w with catalog := c', plain := w.plain.link res.id arg.sourceResourceId }
    | .error _ => some w
  | .write n x =>
    if Locks.Free w.locks (.writer n) x.key ∧ x.Ready w.catalog then
      some { w with
        locks := Locks.acquire w.locks (.writer n) [x.key]
        writers := Function.update w.writers n (w.writers n ++ [x]) }
    else none
  | .commitWriter n => match ValueWrite.applyAll w.catalog (w.writers n) with
    | some c' => some { w with
        catalog := c'
        plain := ValueWrite.recordAll w.plain (w.writers n)
        locks := Locks.release w.locks (.writer n)
        writers := Function.update w.writers n [] }
    | none => none
  | .rollbackWriter n => some { w with
      locks := Locks.release w.locks (.writer n)
      writers := Function.update w.writers n [] }
  | .campaign n x => w.campaignStep n x

end World

end Tenancit.Rewrap
