import Tenancit.Crypto
import Tenancit.Lib.Locks
import Tenancit.Lib.Runs
import Tenancit.Lib.Table
import Tenancit.Store.Schema

/-!
Administrative sessions (`adminauth/{session,postgres,governance}.go`): their rows, the
statements on them, the policies of their expiry, and the machine of concurrent requests.
Creation, authentication and logout are one statement each; a revocation by an
administrator is a transaction, whose statement finds its rows first and then reaches them
one by one, waiting for those that others have locked.
-/
namespace Tenancit.Adminauth

open Encoding Crypto Store Table Text

/-- A reading of the application's clock, or a `time.Duration`. -/
abbrev Nanoseconds := Int

/-- A reading as a `timestamptz` keeps it. -/
def timestamp (t : Nanoseconds) : Timestamp := t / 1000

def second : Nanoseconds := 1000000000

/-- `base64.RawURLEncoding` -/
def base64Digit (n : Nat) : Char :=
  "ABCDEFGHIJKLMNOPQRSTUVWXYZabcdefghijklmnopqrstuvwxyz0123456789-_".toList.getD n '='

def rawURLEncode : Bytes → List Char
  | a :: b :: c :: rest =>
    let n := a.toNat * 65536 + b.toNat * 256 + c.toNat
    base64Digit (n / 262144) :: base64Digit (n / 4096 % 64) :: base64Digit (n / 64 % 64) ::
      base64Digit (n % 64) ::
      rawURLEncode rest
  | [a, b] =>
    let n := a.toNat * 1024 + b.toNat * 4
    [base64Digit (n / 4096), base64Digit (n / 64 % 64), base64Digit (n % 64)]
  | [a] => [base64Digit (a.toNat / 4), base64Digit (a.toNat % 4 * 16)]
  | [] => []

def credentialBytes : Nat := 32

/-- The octets of a random source from a position on. -/
def drop (n : Nat) (random : Nat → UInt8) : Nat → UInt8 := fun i => random (n + i)

def randomCredential (random : Nat → UInt8) : String :=
  String.ofList (rawURLEncode ((List.range credentialBytes).map random))

def hashCredential (sha256 : Bytes → Bytes) (value : String) : String :=
  hexEncode (sha256 (utf8 value))

theorem hashCredential_injective {sha256 : Bytes → Bytes} (h : Function.Injective sha256) :
    Function.Injective (hashCredential sha256) :=
  fun _ _ he => utf8_injective (h (hexEncode_injective he))

/-- A row of `admin_sessions`. -/
structure AdminSession where
  id : UUID
  tokenHash : String
  csrfTokenHash : String
  csrfTokenCipher : Bytes
  csrfNonce : Bytes
  csrfKeyVersion : Int16
  actorIssuer : String
  actorSubject : String
  actorLabel : Option String
  roles : List String
  permissions : List String
  createdAt : Timestamp
  lastUsedAt : Timestamp
  expiresAt : Timestamp
  idleExpiresAt : Timestamp
  revokedAt : Option Timestamp
  deriving DecidableEq

/-- The check constraints of `admin_sessions`. -/
def SessionOk (s : AdminSession) : Prop :=
  s.tokenHash ≠ "" ∧ s.csrfTokenHash ≠ "" ∧ s.csrfTokenCipher ≠ [] ∧ s.csrfNonce ≠ [] ∧
  0 < s.csrfKeyVersion ∧
    s.actorIssuer ≠ "" ∧ s.actorSubject ≠ "" ∧ s.roles ≠ [] ∧ s.permissions ≠ [] ∧
    s.createdAt < s.expiresAt ∧ s.createdAt < s.idleExpiresAt ∧ s.idleExpiresAt ≤ s.expiresAt ∧
    s.createdAt ≤ s.lastUsedAt ∧ ∀ t ∈ s.revokedAt, s.createdAt ≤ t

instance (s : AdminSession) : Decidable (SessionOk s) := by
  unfold SessionOk
  infer_instance

structure SessionIdentity where
  issuer : String
  subject : String
  label : String
  roles : List String
  permissions : List String

def optionalLabel (value : String) : Option String :=
  if trimSpace value = "" then none else some (trimSpace value)

/-- What the policy in force says, absolute and idle; nothing where it cannot be loaded. -/
abbrev Policy := Option (Nanoseconds × Nanoseconds)

def policyFor (policy : Policy) : Option (Nanoseconds × Nanoseconds) :=
  policy.filter fun x => !decide (x.1 ≤ 0 ∨ x.2 ≤ 0 ∨ x.1 < x.2)

theorem policyFor_eq_some {policy : Policy} {absoluteTTL idleTTL : Nanoseconds} :
    policyFor policy = some (absoluteTTL, idleTTL) ↔
      policy = some (absoluteTTL, idleTTL) ∧ 0 < absoluteTTL ∧ 0 < idleTTL ∧
      idleTTL ≤ absoluteTTL := by
  simp only [policyFor, Option.filter_eq_some_iff, Bool.not_eq_true', decide_eq_false_iff_not,
    not_or, Int.not_le, Int.not_lt]

variable {Key : Type} {aead : Aead Key}

/-- The row that `Create` inserts. The token, the CSRF token and the nonce of its cipher
are read from the random source one after the other. -/
def newSession (sha256 : Bytes → Bytes) (cryptor : Cryptor aead) (identity : SessionIdentity)
    (policy : Policy) (random : Nat → UInt8) (now : Nanoseconds) (id : UUID) :
    Option AdminSession :=
  if trimSpace identity.issuer = "" ∨ trimSpace identity.subject = "" ∨ identity.roles = [] ∨
    identity.permissions = []
  then none
  else (policyFor policy).map fun ttl =>
    let csrfToken := randomCredential (drop credentialBytes random)
    let csrfEncrypted := cryptor.encrypt (drop (2 * credentialBytes) random) csrfToken
    { id := id
      tokenHash := hashCredential sha256 (randomCredential random)
      csrfTokenHash := hashCredential sha256 csrfToken
      csrfTokenCipher := csrfEncrypted.cipher
      csrfNonce := csrfEncrypted.nonce
      csrfKeyVersion := Int16.ofInt csrfEncrypted.keyVersion
      actorIssuer := identity.issuer
      actorSubject := identity.subject
      actorLabel := optionalLabel identity.label
      roles := identity.roles
      permissions := identity.permissions
      createdAt := timestamp now
      lastUsedAt := timestamp now
      expiresAt := timestamp (now + ttl.1)
      idleExpiresAt := timestamp (now + ttl.2)
      revokedAt := none }

/-- `CreateAdminSession` -/
def insertSession (row : AdminSession) (rows : List AdminSession) : Option (List AdminSession) :=
  if ¬SessionOk row ∨ ∃ r ∈ rows, r.id = row.id ∨ r.tokenHash = row.tokenHash then none
    else some (rows ++ [row])

/-- The row that an authentication at a reading finds. -/
def Usable (tokenHash : String) (usedAt : Timestamp) (r : AdminSession) : Prop :=
  r.tokenHash = tokenHash ∧ r.revokedAt = none ∧ usedAt < r.expiresAt ∧ usedAt < r.idleExpiresAt

instance (tokenHash : String) (usedAt : Timestamp) (r : AdminSession) :
    Decidable (Usable tokenHash usedAt r) := by
  unfold Usable
  infer_instance

def AdminSession.touched (usedAt : Timestamp) (idleSeconds : Int32) (r : AdminSession) :
    AdminSession :=
  { r with
    lastUsedAt := max r.lastUsedAt usedAt
    idleExpiresAt := min r.expiresAt (usedAt + Timestamp.seconds idleSeconds.toInt) }

/-- `AuthenticateAdminSession` -/
def authenticateSession (tokenHash : String) (usedAt : Timestamp) (idleSeconds : Int32)
    (rows : List AdminSession) : Option (AdminSession × List AdminSession) :=
  match rows.find? fun r => Usable tokenHash usedAt r with
  | none => none
  | some r =>
    if SessionOk (r.touched usedAt idleSeconds) then
      some (r.touched usedAt idleSeconds,
        update (fun x => x.id = r.id) (AdminSession.touched usedAt idleSeconds) rows)
    else none

/-- The idle timeout as the statement is told it. -/
def idleSeconds (idleTTL : Nanoseconds) : Int32 := Int32.ofInt (idleTTL / second)

def AdminSession.revoked (t : Timestamp) (r : AdminSession) : AdminSession :=
  { r with revokedAt := some t }

/-- `RevokeAdminSession` -/
def revokeSession (id : UUID) (revokedAt : Timestamp) (rows : List AdminSession) :
    Option (List AdminSession) :=
  match lookup AdminSession.id id rows with
  | none => none
  | some r =>
    if r.revokedAt = none ∧ SessionOk (r.revoked revokedAt) then
      some (update (fun x => x.id = id) (AdminSession.revoked revokedAt) rows)
    else none

/-- Which sessions an administrator revokes, never the session the request came with. -/
inductive Target where
  | other (id current : UUID)
  | principal (issuer subject : String) (current : UUID)
  deriving DecidableEq

def Target.Covers : Target → AdminSession → Prop
  | .other id current, r => r.id = id ∧ id ≠ current
  | .principal issuer subject current, r =>
    r.actorIssuer = issuer ∧ r.actorSubject = subject ∧ r.id ≠ current

instance (t : Target) (r : AdminSession) : Decidable (t.Covers r) := by
  unfold Target.Covers
  split <;> infer_instance

/-- The session is in use at a reading. -/
def AdminSession.Live (at_ : Timestamp) (r : AdminSession) : Prop :=
  r.revokedAt = none ∧ at_ < r.expiresAt ∧ at_ < r.idleExpiresAt

instance (at_ : Timestamp) (r : AdminSession) : Decidable (r.Live at_) := by
  unfold AdminSession.Live
  infer_instance

/-- The transaction of a revocation: the sessions there were when its statement began,
those it has still to reach, and those it has marked and locked. -/
structure Revocation where
  target : Target
  revokedAt : Timestamp
  present : List UUID
  pending : List UUID
  marked : List UUID

inductive RevocationState where
  | running (r : Revocation)
  | committed (r : Revocation)
  | ended

/-- What a statement that took effect has done. -/
inductive Entry where
  | created (session : AdminSession) (at_ idleTTL : Nanoseconds)
  | authenticated (id : UUID) (at_ idleTTL : Nanoseconds)
  | revoked (id : UUID)
  deriving DecidableEq

/-- The committed rows, the revocations so far, and what has taken effect, in order. -/
structure World where
  sessions : List AdminSession := []
  revocations : List RevocationState := []
  log : List Entry := []

/-- A transaction has marked the session and not ended. -/
def World.Locked (w : World) (id : UUID) : Prop := ∃ x ∈ w.revocations, match x with
  | .running r => id ∈ r.marked
  | _ => False

instance (x : RevocationState) (id : UUID) : Decidable (match x with
    | .running r => id ∈ r.marked
    | _ => False) := by
  split <;> infer_instance

instance (w : World) (id : UUID) : Decidable (w.Locked id) :=
  inferInstanceAs (Decidable (∃ x ∈ w.revocations, match x with
    | .running r => id ∈ r.marked
    | _ => False))

inductive Label where
  | create (server : Nat) (identity : SessionIdentity) (policy : Policy) (random : Nat → UInt8)
      (now : Nanoseconds) (id : UUID)
  | authenticate (token : String) (policy : Policy) (now : Nanoseconds)
  | logout (id : UUID) (now : Nanoseconds)
  | revokeOther (id current : UUID) (now : Nanoseconds)
  | revokePrincipal (issuer subject : String) (current : UUID) (now : Nanoseconds)
  | mark (n : Nat)
  | commit (n : Nat)
  | rollback (n : Nat)

/-- What the statement of a revocation finds. -/
def openRevocation (target : Target) (now : Nanoseconds) (sessions : List AdminSession) :
    Revocation where
  target := target
  revokedAt := timestamp now
  present := sessions.map AdminSession.id
  pending := (sessions.filter fun r => target.Covers r ∧ r.Live (timestamp now)).map AdminSession.id
  marked := []

def beginRevocation (target : Target) (now : Nanoseconds) (w : World) : World :=
  { w with revocations := w.revocations ++ [.running (openRevocation target now w.sessions)] }

/-- A row is reached: it is marked if it is still in use, and a check that fails ends the
transaction. -/
def Revocation.reach (r : Revocation) (s : AdminSession) (pending : List UUID) : RevocationState :=
  if ¬(r.target.Covers s ∧ s.Live r.revokedAt) then .running { r with pending := pending }
  else if SessionOk (s.revoked r.revokedAt) then
    .running { r with pending := pending, marked := r.marked ++ [s.id] }
  else .ended

/-- The revocation of one session that was not in use is rolled back. -/
def Revocation.Missed (r : Revocation) : Prop := match r.target with
  | .other .. => r.marked = []
  | .principal .. => False

instance (r : Revocation) : Decidable r.Missed := by
  unfold Revocation.Missed
  split <;> infer_instance

/-- `Create` -/
def createSession (sha256 : Bytes → Bytes) (cryptor : Cryptor aead) (identity : SessionIdentity)
    (policy : Policy) (random : Nat → UInt8) (now : Nanoseconds) (id : UUID) (w : World) :
    Option (AdminSession × World) :=
  match newSession sha256 cryptor identity policy random now id, policyFor policy with
  | some row, some (_, idleTTL) => (insertSession row w.sessions).map fun sessions =>
    (row, { w with sessions := sessions, log := w.log ++ [.created row now idleTTL] })
  | _, _ => none

/-- One step. A statement waits for a row that a revocation has locked, and a statement that
fails changes nothing. -/
def step (sha256 : Bytes → Bytes) (servers : Nat → Cryptor aead) (w : World) : Label → Option World
  | .create server identity policy random now id =>
    match createSession sha256 (servers server) identity policy random now id w with
    | none => some w
    | some (_, w') => some w'
  | .authenticate token policy now =>
    if trimSpace token = "" then some w
    else match policyFor policy with
      | none => some w
      | some (_, idleTTL) =>
        match authenticateSession (hashCredential sha256 token) (timestamp now)
          (idleSeconds idleTTL) w.sessions with
        | none => some w
        | some (row, sessions) =>
          if w.Locked row.id then none
          else some { w with
            sessions := sessions, log := w.log ++ [.authenticated row.id now idleTTL] }
  | .logout id now =>
    if w.Locked id then none
    else match revokeSession id (timestamp now) w.sessions with
      | none => some w
      | some sessions => some { w with sessions := sessions, log := w.log ++ [.revoked id] }
  | .revokeOther id current now =>
    if id = current then some w else some (beginRevocation (.other id current) now w)
  | .revokePrincipal issuer subject current now =>
    if trimSpace issuer = "" ∨ trimSpace subject = "" then some w
    else some (beginRevocation (.principal (trimSpace issuer) (trimSpace subject) current) now w)
  | .mark n => match w.revocations[n]? with
    | some (.running r) => match r.pending with
      | [] => none
      | id :: pending =>
        if w.Locked id then none
        else (lookup AdminSession.id id w.sessions).map fun s => { w with
          revocations := w.revocations.set n (r.reach s pending) }
    | _ => none
  | .commit n => match w.revocations[n]? with
    | some (.running r) =>
      if r.pending ≠ [] then none
      else if r.Missed then some { w with revocations := w.revocations.set n .ended }
      else some { w with
        sessions := update (fun s => s.id ∈ r.marked) (AdminSession.revoked r.revokedAt) w.sessions
        revocations := w.revocations.set n (.committed r)
        log := w.log ++ r.marked.map .revoked }
    | _ => none
  | .rollback n => match w.revocations[n]? with
    | some (.running _) => some { w with revocations := w.revocations.set n .ended }
    | _ => none

end Tenancit.Adminauth
