import Tenancit.Adminauth.Validity

/-!
The OIDC login (`adminauth/{oidc_flow,oidc_postgres}.go`): its attempts, its stages, and the
machine of concurrent logins. The provider is outside: an exchange answers with any claims.
-/
namespace Tenancit.Adminauth

open Encoding Crypto Store Table Text

/-- A row of `oidc_login_attempts`. -/
structure LoginAttempt where
  stateHash : String
  nonceHash : String
  pkceVerifierCipher : Bytes
  cipherNonce : Bytes
  keyVersion : Int16
  redirectAfter : String
  createdAt : Timestamp
  expiresAt : Timestamp
  consumedAt : Option Timestamp

/-- The check constraints of `oidc_login_attempts`. -/
def AttemptOk (a : LoginAttempt) : Prop :=
  a.stateHash ≠ "" ∧ a.nonceHash ≠ "" ∧ a.pkceVerifierCipher ≠ [] ∧
  a.cipherNonce ≠ [] ∧ 0 < a.keyVersion ∧
    a.redirectAfter.toList.head? = some '/' ∧ a.createdAt < a.expiresAt ∧
    ∀ t ∈ a.consumedAt, a.createdAt ≤ t

instance (a : LoginAttempt) : Decidable (AttemptOk a) := by
  unfold AttemptOk
  infer_instance

inductive Role where
  | viewer
  | operator
  | securityAdmin
  deriving DecidableEq

def Role.text : Role → String
  | viewer => "viewer"
  | operator => "operator"
  | securityAdmin => "security_admin"

def Role.permissions : Role → List String
  | viewer => ["admin.read"]
  | operator =>
    ["admin.read", "tenant.write", "resource.write", "api_client.manage", "integration.manage"]
  | securityAdmin =>
    ["admin.read", "audit.read", "audit.export", "audit.manage", "api_client.manage",
      "integration.manage", "resource.write", "secret.reveal", "session.manage", "settings.manage",
      "tenant.hard_delete", "tenant.write"]

structure OIDCConfig where
  issuer : String
  roleMappings : List (String × Role)

structure OIDCClaims where
  issuer : String
  subject : String
  label : String
  nonce : String
  roleValues : List String

/-- The stages at which a login fails. -/
inductive FlowFailure where
  | state
  | pkce
  | exchange
  | identity
  | nonce
  | roles
  | session
  deriving DecidableEq

def FlowFailure.stage : FlowFailure → String
  | state => "state"
  | pkce => "pkce"
  | exchange => "exchange"
  | identity => "identity"
  | nonce => "nonce"
  | roles => "roles"
  | session => "session"

/-- `strings.TrimSuffix(value, "/")` -/
def trimSlash (value : String) : String :=
  if value.toList.getLast? = some '/' then String.ofList value.toList.dropLast else value

/-- An issuer up to surrounding space and a trailing slash. -/
def normalizedIssuer (issuer : String) : String := trimSlash (trimSpace issuer)

def validateOIDCIdentity (expectedIssuer actualIssuer subject : String) : Bool :=
  normalizedIssuer actualIssuer = normalizedIssuer expectedIssuer && trimSpace subject ≠ ""

def validateNonce (sha256 : Bytes → Bytes) (expectedHash actual : String) : Bool :=
  actual ≠ "" && expectedHash = hashCredential sha256 actual

/-- The roles that the values map to, each once; none is a failure. -/
def mapRoles (values : List String) (mappings : List (String × Role)) : Option (List Role) :=
  let roles := (values.filterMap fun value => mappings.lookup value).eraseDups
  if roles = [] then none else some roles

def permissionsForRoles (roles : List Role) : List String :=
  (roles.flatMap Role.permissions).eraseDups

def loginAttemptTTL : Nanoseconds := 600 * second

variable {Key : Type} {aead : Aead Key}

/-- The secrets that `Start` draws, and its reading. -/
structure Start where
  state : String
  nonce : String
  verifier : String
  now : Nanoseconds

def newStart (random : Nat → UInt8) (now : Nanoseconds) : Start where
  state := randomCredential random
  nonce := randomCredential (drop credentialBytes random)
  verifier := randomCredential (drop (2 * credentialBytes) random)
  now := now

def newAttempt (sha256 : Bytes → Bytes) (cryptor : Cryptor aead) (random : Nat → UInt8)
    (redirectAfter : String) (s : Start) : LoginAttempt :=
  let encrypted := cryptor.encrypt (drop (3 * credentialBytes) random) s.verifier
  { stateHash := hashCredential sha256 s.state
    nonceHash := hashCredential sha256 s.nonce
    pkceVerifierCipher := encrypted.cipher
    cipherNonce := encrypted.nonce
    keyVersion := Int16.ofInt encrypted.keyVersion
    redirectAfter := redirectAfter
    createdAt := timestamp s.now
    expiresAt := timestamp (s.now + loginAttemptTTL)
    consumedAt := none }

/-- The row that `ConsumeLoginAttempt` deletes. -/
def Consumable (stateHash : String) (now : Timestamp) (a : LoginAttempt) : Prop :=
  a.stateHash = stateHash ∧ now < a.expiresAt ∧ a.consumedAt = none

instance (stateHash : String) (now : Timestamp) (a : LoginAttempt) :
    Decidable (Consumable stateHash now a) := by
  unfold Consumable
  infer_instance

/-- What `Complete` does between the deletion of its attempt and the creation of the session;
`response` is what the provider answers to the code and the verifier. -/
def identify (sha256 : Bytes → Bytes) (config : OIDCConfig) (cryptor : Cryptor aead)
    (attempt : LoginAttempt) (response : Option OIDCClaims) :
    Except FlowFailure (OIDCClaims × SessionIdentity) :=
  match cryptor.decrypt ⟨attempt.pkceVerifierCipher, attempt.cipherNonce,
    attempt.keyVersion.toInt⟩ with
  | .error _ => .error .pkce
  | .ok _ => match response with
    | none => .error .exchange
    | some claims =>
      if ¬validateOIDCIdentity config.issuer claims.issuer claims.subject then .error .identity
      else if ¬validateNonce sha256 attempt.nonceHash claims.nonce then .error .nonce
      else match mapRoles claims.roleValues config.roleMappings with
        | none => .error .roles
        | some roles =>
          .ok (claims, ⟨claims.issuer, claims.subject, claims.label, roles.map Role.text,
            permissionsForRoles roles⟩)

/-- An attempt that a `Complete` has found and deleted: the number of its `Start`, the row,
the state of the callback, and the reading. -/
structure Found where
  start : Nat
  attempt : LoginAttempt
  state : String
  now : Nanoseconds

/-- How far a `Complete` has come. -/
inductive Completion where
  | consumed (f : Found)
  | identified (f : Found) (claims : OIDCClaims) (identity : SessionIdentity)
  | completed (f : Found) (claims : OIDCClaims) (session : AdminSession)
  | failed (start : Option Nat) (failure : FlowFailure)

/-- The `Start` whose attempt the call has found. -/
def Completion.start : Completion → Option Nat
  | .consumed f => some f.start
  | .identified f _ _ => some f.start
  | .completed f _ _ => some f.start
  | .failed start _ => start

/-- The sessions, the attempts with the numbers of their `Start`s, the `Start`s that have
stored an attempt, and the calls of `Complete`. -/
structure LoginWorld where
  sessions : World := {}
  attempts : List (Nat × LoginAttempt) := []
  starts : List Start := []
  calls : List Completion := []

/-- The other statements on sessions. -/
def Label.IsCreate : Label → Prop
  | .create .. => True
  | _ => False

instance (l : Label) : Decidable l.IsCreate := by
  unfold Label.IsCreate
  split <;> infer_instance

/-- The redirect of a `start` is what `safeRedirectAfter` gives, none where it refuses. -/
inductive LoginLabel where
  | start (server : Nat) (redirectAfter : Option String) (random : Nat → UInt8) (now : Nanoseconds)
  | consume (state code : String) (now : Nanoseconds)
  | exchange (n server : Nat) (response : Option OIDCClaims)
  | createSession (n server : Nat) (policy : Policy) (random : Nat → UInt8)
      (now : Nanoseconds) (id : UUID)
  | session (l : Label)

/-- One step. The statements that store and delete an attempt are atomic; a `Complete` that
is abandoned takes no further step. -/
def loginStep (sha256 : Bytes → Bytes) (config : OIDCConfig) (servers : Nat → Cryptor aead)
    (w : LoginWorld) : LoginLabel → Option LoginWorld
  | .start server redirectAfter random now => match redirectAfter with
    | none => some w
    | some redirect =>
      let s := newStart random now
      let attempt := newAttempt sha256 (servers server) random redirect s
      if ¬AttemptOk attempt ∨ ∃ x ∈ w.attempts, x.2.stateHash = attempt.stateHash then some w
      else some { w with
        attempts := w.attempts ++ [(w.starts.length, attempt)]
        starts := w.starts ++ [s] }
  | .consume state code now =>
    if trimSpace state = "" ∨ trimSpace code = "" then some w
    else
      let stateHash := hashCredential sha256 (trimSpace state)
      match w.attempts.find? fun x => Consumable stateHash (timestamp now) x.2 with
      | none => some { w with calls := w.calls ++ [.failed none .state] }
      | some (start, attempt) => some { w with
          attempts := delete (fun x => Consumable stateHash (timestamp now) x.2) w.attempts
          calls := w.calls ++ [.consumed ⟨start, attempt, trimSpace state, now⟩] }
  | .exchange n server response => match w.calls[n]? with
    | some (.consumed f) => match identify sha256 config (servers server) f.attempt response with
      | .error failure => some { w with calls := w.calls.set n (.failed (some f.start) failure) }
      | .ok (claims, identity) =>
        some { w with calls := w.calls.set n (.identified f claims identity) }
    | _ => none
  | .createSession n server policy random now id => match w.calls[n]? with
    | some (.identified f claims identity) =>
      match createSession sha256 (servers server) identity policy random now id w.sessions with
      | none => some { w with calls := w.calls.set n (.failed (some f.start) .session) }
      | some (session, sessions) => some { w with
          sessions := sessions
          calls := w.calls.set n (.completed f claims session) }
    | _ => none
  | .session l =>
    if l.IsCreate then none else (step sha256 servers w.sessions l).map fun sessions => { w with
      sessions := sessions }

end Tenancit.Adminauth
