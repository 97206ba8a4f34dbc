import Tenancit.Httpapi.Audit
import Tenancit.Lib.Locks
import Tenancit.Lib.Runs
import Tenancit.Settings.Registry

/-!
`settings/postgres.go` and the two handlers over it. A read of the settings is two
statements, each on the tables as they stand then: the revision, and the stored values. An
update is one transaction, which locks the row of the revision first and takes effect at
its commit.
-/
namespace Tenancit.Settings

open Encoding Store Table Text Httpapi

/-- A row of `admin_settings`. -/
structure Setting where
  key : String
  value : String
  updatedAt : Timestamp
  updatedByKind : String
  updatedByIssuer : Option String
  updatedBySubject : String

/-- `admin_settings_revision` and `admin_settings`, with the tables of the audit trail. -/
structure SettingsTables where
  revision : Int
  settings : List Setting
  events : EventTables

structure Snapshot where
  revision : Int
  values : Values
  definitions : List Definition

structure Actor where
  kind : String
  issuer : String
  subject : String

inductive UpdateError where
  | incompleteContext
  | revisionConflict
  | invalidSettings (e : SettingsError)
  | database

def settingsETag (revision : Int) : String := "\"settings-" ++ toString revision ++ "\""

/-- `strings.TrimPrefix` -/
def trimPrefix (start cs : List Char) : List Char :=
  if start.isPrefixOf cs then cs.drop start.length else cs

@[irreducible] def parseSettingsETag (value : String) : Option Int :=
  let quote : Char → Bool := fun c => c = '"'
  let cs := trim quote (trimPrefix "W/".toList (trim quote (trimSpace value).toList))
  if "settings-".toList.isPrefixOf cs
    then atoi (String.ofList (cs.drop "settings-".length)) else none

def readValues (rows : List Setting) :
    Values := fun key => (lookup Setting.key key rows).map Setting.value

/-- The defaults, overlaid with the stored values. -/
def inForce (stored : Values) : Values := fun key => (stored key).or (defaults key)

def readSnapshot (revision : Int) (rows : List Setting) : Snapshot :=
  ⟨revision, inForce (readValues rows), definitions⟩

/-- What an update writes into the row of a setting. -/
def Setting.overwritten (at_ : Timestamp) (actor : Actor) (value : String) (r : Setting) :
    Setting :=
  { r with
    value := value
    updatedAt := at_
    updatedByKind := actor.kind
    updatedByIssuer := optionalString actor.issuer
    updatedBySubject := actor.subject }

/-- Insert a setting or overwrite the one that stands; nothing where a check fails. -/
def upsertSetting (at_ : Timestamp) (actor : Actor) (rows : List Setting)
    (entry : String × String) : Option (List Setting) :=
  if btrim entry.1 = "" ∨ btrim entry.2 = "" then none
  else if ∃ r ∈ rows, r.key = entry.1 then
    some (update (fun r => r.key = entry.1) (Setting.overwritten at_ actor entry.2) rows)
  else some (rows ++
    [⟨entry.1, entry.2, at_, actor.kind, optionalString actor.issuer, actor.subject⟩])

/-- The part of `Update` behind the comparison of the revisions. -/
def writeSettings (updates : Updates) (actor : Actor) (currentRevision : Int)
    (updatedAt : Timestamp) (rows : List Setting) : Except UpdateError (Snapshot × List Setting) :=
  let current := readValues rows
  match validate updates current with
  | .error e => .error (.invalidSettings e)
  | .ok normalized =>
    match normalized.foldlM (upsertSetting updatedAt actor) rows with
    | none => .error .database
    | some written =>
      let nextRevision := (currentRevision + 1).bmod (2 ^ 64)
      if nextRevision ≤ 0 then .error .database
      else .ok (⟨nextRevision, inForce (withEntries normalized current), definitions⟩, written)

def UpdateError.answer : UpdateError → Response
  | revisionConflict => writeError 412 "settings_revision_conflict"
  | invalidSettings _ => writeError 400 "invalid_settings"
  | incompleteContext => writeInternalError
  | database => writeInternalError

/-- An update past the parsing of its request. -/
structure SettingsUpdate where
  request : AdminRequest
  actor : Actor
  expectedRevision : Int
  updates : Updates

def SettingsUpdate.auditEntry (u : SettingsUpdate) (snapshot : Snapshot) : AuditEntry where
  action := "settings.updated"
  targetType := "settings"
  targetId := "global"
  routeTemplate := "/v1/admin/settings"
  status := 200
  metadata :=
    .obj [("changed_keys",
      .arr (((u.updates.entries.map Prod.fst).insertionSort fun a b => a ≤ b).map .str)),
    ("revision", .num snapshot.revision)]

/-- How far a `Get` has come. -/
inductive Get where
  | revisionRead (revision : Int)
  | returned (snapshot : Snapshot)
  | failed

/-- How far an update has come; `written` holds the rows its commit would leave. -/
inductive Call where
  | begun (u : SettingsUpdate)
  | locked (u : SettingsUpdate) (currentRevision : Int)
  | written (u : SettingsUpdate) (snapshot : Snapshot) (rows : List Setting)
  | succeeded (u : SettingsUpdate) (snapshot : Snapshot)
  | failed (answer : Response)

/-- The lock on the row of the revision. -/
def Call.held : Call → Option Unit
  | locked .. => some ()
  | written .. => some ()
  | _ => none

structure World where
  tables : SettingsTables
  gets : List Get := []
  calls : List Call := []

/-- What `updateSettings` does before its first statement. -/
def openUpdate (r : AdminRequest) (ifMatch : String) (updates : Updates) : Call :=
  match parseSettingsETag ifMatch with
  | none => .failed (writeError 428 "settings_if_match_required")
  | some expectedRevision => match r.principal with
    | none => .failed (writeError 401 "admin_auth_required")
    | some p =>
      if expectedRevision ≤ 0 ∨ p.kind.text = "" ∨ p.subject = ""
        then .failed UpdateError.incompleteContext.answer
      else .begun ⟨r, ⟨p.kind.text, p.issuer, p.subject⟩, expectedRevision, updates⟩

inductive Label where
  | get
  | getValues (n : Nat)
  | getFails (n : Nat)
  | update (r : AdminRequest) (ifMatch : String) (updates : Updates)
  | lock (n : Nat)
  | write (n : Nat) (updatedAt : Timestamp)
  | commit (n : Nat) (ts : List Tick)
  | rollback (n : Nat)
  | others (events : EventTables)

/-- One step. A transaction that finds the row of the revision locked waits; one that fails
before its commit is rolled back; other transactions write the audit trail at any time. -/
def step (w : World) : Label → Option World
  | .get => some { w with gets := w.gets ++ [.revisionRead w.tables.revision] }
  | .getValues n => match w.gets[n]? with
    | some (.revisionRead revision) =>
      some { w with gets := w.gets.set n (.returned (readSnapshot revision w.tables.settings)) }
    | _ => none
  | .getFails n => match w.gets[n]? with
    | some (.revisionRead _) => some { w with gets := w.gets.set n .failed }
    | _ => none
  | .update r ifMatch updates => some { w with calls := w.calls ++ [openUpdate r ifMatch updates] }
  | .lock n => match w.calls[n]? with
    | some (.begun u) =>
      if ∃ c ∈ w.calls, c.held = some () then none
      else if w.tables.revision ≠ u.expectedRevision then
        some { w with calls := w.calls.set n (.failed UpdateError.revisionConflict.answer) }
      else some { w with calls := w.calls.set n (.locked u w.tables.revision) }
    | _ => none
  | .write n updatedAt => match w.calls[n]? with
    | some (.locked u revision) =>
      match writeSettings u.updates u.actor revision updatedAt w.tables.settings with
      | .error e => some { w with calls := w.calls.set n (.failed e.answer) }
      | .ok (snapshot, rows) => some { w with calls := w.calls.set n (.written u snapshot rows) }
    | _ => none
  | .commit n ts => match w.calls[n]? with
    | some (.written u snapshot rows) =>
      match insertAdminAuditSuccess u.request (u.auditEntry snapshot) ts w.tables.events with
      | .error answer => some { w with calls := w.calls.set n (.failed answer) }
      | .ok (_, _, events) => some { w with
          tables := ⟨snapshot.revision, rows, events⟩
          calls := w.calls.set n (.succeeded u snapshot) }
    | _ => none
  | .rollback n => match w.calls[n]? with
    | some (.begun _) | some (.locked ..) | some (.written ..) =>
      some { w with calls := w.calls.set n (.failed writeInternalError) }
    | _ => none
  | .others events => some { w with tables := { w.tables with events := events } }

/-- The migrated database: revision 1 and no setting. -/
def migrated (events : EventTables) : World where
  tables := ⟨1, [], events⟩

end Tenancit.Settings
