import Tenancit.Adminauth.Login
import Tenancit.Httpapi.Audit
import Tenancit.Service.ApiClientPolicy

/-!
Who an administrative request comes from and what it may do (`httpapi/{admin_session,principal}.go`
and the end of `adminauth/session.go`): the authentication by a session cookie or by the
break-glass token, the proof against cross-site requests, and the permissions.
-/
namespace Tenancit.Adminauth

open Encoding Crypto Store Text

variable {Key : Type} {aead : Aead Key}

/-- `SessionIdentity` of a session that has been authenticated. -/
structure AuthenticatedIdentity extends SessionIdentity where
  sessionId : UUID
  csrfTokenHash : String
  csrfToken : String
  expiresAt : Timestamp
  idleExpiresAt : Timestamp

def identityFromSession (cryptor : Cryptor aead) (stored : AdminSession) :
    Option AuthenticatedIdentity :=
  match cryptor.decrypt ⟨stored.csrfTokenCipher, stored.csrfNonce, stored.csrfKeyVersion.toInt⟩ with
  | .error _ => none
  | .ok csrfToken => some
      { issuer := stored.actorIssuer
        subject := stored.actorSubject
        label := stored.actorLabel.getD ""
        roles := stored.roles
        permissions := stored.permissions
        sessionId := stored.id
        csrfTokenHash := stored.csrfTokenHash
        csrfToken := csrfToken
        expiresAt := stored.expiresAt
        idleExpiresAt := stored.idleExpiresAt }

/-- `SessionManager.Authenticate`: the identity, where there is one, and the rows after the
statement, which has taken effect also where the CSRF token does not decrypt. -/
def authenticate (sha256 : Bytes → Bytes) (cryptor : Cryptor aead) (policy : Policy)
    (token : String) (now : Nanoseconds) (rows : List AdminSession) :
    Option AuthenticatedIdentity × List AdminSession :=
  if trimSpace token = "" then (none, rows)
  else match policyFor policy with
    | none => (none, rows)
    | some (_, idleTTL) =>
      match authenticateSession (hashCredential sha256 token) (timestamp now)
        (idleSeconds idleTTL) rows with
      | none => (none, rows)
      | some (stored, rows') => (identityFromSession cryptor stored, rows')

def ValidateCSRF (sha256 : Bytes → Bytes) (expectedHash presented : String) : Prop :=
  expectedHash ≠ "" ∧ presented ≠ "" ∧ expectedHash = hashCredential sha256 presented

instance (sha256 : Bytes → Bytes) (expectedHash presented : String) :
    Decidable (ValidateCSRF sha256 expectedHash presented) :=
  inferInstanceAs (Decidable (_ ∧ _ ∧ _))

end Tenancit.Adminauth

namespace Tenancit.Httpapi

open Encoding Crypto Store Text Adminauth Service

inductive AdminPermission where
  | adminRead
  | auditRead
  | auditExport
  | auditManage
  | apiClientManage
  | integrationManage
  | resourceWrite
  | secretReveal
  | sessionManage
  | settingsManage
  | tenantHardDelete
  | tenantWrite
  deriving DecidableEq

def permissionsByRole : Role → List AdminPermission
  | .viewer => [.adminRead]
  | .operator => [.adminRead, .tenantWrite, .resourceWrite, .apiClientManage, .integrationManage]
  | .securityAdmin =>
    [.adminRead, .auditRead, .auditExport, .auditManage, .apiClientManage, .integrationManage,
      .resourceWrite, .secretReveal, .sessionManage, .settingsManage,
      .tenantHardDelete, .tenantWrite]

/-- `principal`, whole. The break-glass principal has no session. -/
structure AdminPrincipal extends Principal where
  sessionId : Option UUID
  roles : List Role
  csrfTokenHash : String
  permissions : List AdminPermission

def roleNamed (role : String) : Option Role :=
  if role = "viewer" then some .viewer
  else if role = "operator" then some .operator
  else if role = "security_admin" then some .securityAdmin
  else none

/-- The text of a session's identifier is never empty. -/
def newOIDCPrincipal (issuer subject label : String) (sessionId : UUID) (roles : List Role) :
    Option AdminPrincipal :=
  if trimSpace issuer = "" ∨ trimSpace subject = "" ∨ roles = [] then none
  else some
    { kind := .oidcUser
      issuer := trimSpace issuer
      subject := trimSpace subject
      label := trimSpace label
      sessionId := some sessionId
      roles := roles.eraseDups
      csrfTokenHash := ""
      permissions := roles.eraseDups.flatMap permissionsByRole }

def principalFromSessionIdentity (identity : AuthenticatedIdentity) : Option AdminPrincipal := do
  let roles ← identity.roles.mapM roleNamed
  let value ← newOIDCPrincipal identity.issuer identity.subject identity.label
    identity.sessionId roles
  pure { value with csrfTokenHash := identity.csrfTokenHash }

def newBreakGlassPrincipal (version : String) : AdminPrincipal where
  kind := .breakGlass
  issuer := ""
  subject := "admin-token:" ++ trimSpace version
  label := ""
  sessionId := none
  roles := []
  csrfTokenHash := ""
  permissions := [.adminRead, .auditRead]

/-- The configuration of the administrative interface. `parseURL` is `url.Parse`: scheme and
host. The hash of the break-glass token is empty where it is disabled. -/
structure AdminConfig {Key : Type} (aead : Aead Key) extends Server aead where
  adminOrigin : String
  breakGlassTokenHash : String
  breakGlassVersion : String
  adminTokenHash : String
  parseURL : String → Option (String × String)

/-- What the middlewares read of a request: the bearer token, empty where there is none, the
session cookie, and the headers and the parameter that decide about its origin. -/
structure RequestHead where
  requestId : String
  method : String
  bearer : String
  cookie : Option String
  reveal : String
  origin : String
  referer : String
  csrfToken : String

/-- The response of `RequireAdminSession` and `RequireAdminIdentity` to strangers. -/
def adminAuthRequired : Response := writeError 401 "admin_auth_required"

variable {Key : Type} {aead : Aead Key}

def constantTimeCredentialMatch (sha256 : Bytes → Bytes) (expectedHash token : String) : Prop :=
  expectedHash ≠ "" ∧ token ≠ "" ∧ hashAPIKey sha256 token = expectedHash

instance (sha256 : Bytes → Bytes) (expectedHash token : String) :
    Decidable (constantTimeCredentialMatch sha256 expectedHash token) :=
  inferInstanceAs (Decidable (_ ∧ _ ∧ _))

/-- `RequireAdminSession`: the principal, or the answer, and the sessions afterwards. -/
def requireAdminSession (cfg : AdminConfig aead) (policy : Policy) (now : Nanoseconds)
    (head : RequestHead) (rows : List AdminSession) :
    Except Response AdminPrincipal × List AdminSession :=
  match head.cookie with
  | none => (.error adminAuthRequired, rows)
  | some token =>
    match authenticate cfg.sha256 cfg.cryptor policy token now rows with
    | (none, rows') => (.error adminAuthRequired, rows')
    | (some identity, rows') => match principalFromSessionIdentity identity with
      | none => (.error (writeError 403 "admin_role_invalid"), rows')
      | some value => (.ok value, rows')

/-- `RequireAdminIdentity`: a bearer token is the break-glass token or nothing. -/
def requireAdminIdentity (cfg : AdminConfig aead) (policy : Policy) (now : Nanoseconds)
    (head : RequestHead) (rows : List AdminSession) :
    Except Response AdminPrincipal × List AdminSession :=
  if head.bearer = "" then requireAdminSession cfg policy now head rows
  else if constantTimeCredentialMatch cfg.sha256 cfg.breakGlassTokenHash head.bearer then
    (.ok (newBreakGlassPrincipal cfg.breakGlassVersion), rows)
  else (.error adminAuthRequired, rows)

def requiresCSRF (head : RequestHead) : Bool :=
  if head.method = "GET" ∨ head.method = "HEAD" ∨ head.method = "OPTIONS"
    then head.reveal = "true" else true

/-- The request names the origin of the administrative interface, by `Origin` or, without
it, by `Referer`. -/
def sameRequestOrigin (cfg : AdminConfig aead) (head : RequestHead) : Bool :=
  let expected := trimSlash cfg.adminOrigin
  let origin := trimSlash (trimSpace head.origin)
  if origin ≠ "" then origin = expected
  else if trimSpace head.referer = "" then false
  else match cfg.parseURL (trimSpace head.referer) with
    | none => false
    | some (scheme, host) => scheme ++ "://" ++ host = expected

/-- The proof that a request of a session was not forged by another site. -/
def CSRFProof (cfg : AdminConfig aead) (head : RequestHead) (value : AdminPrincipal) : Prop :=
  sameRequestOrigin cfg head = true ∧ ValidateCSRF cfg.sha256 value.csrfTokenHash head.csrfToken

instance (cfg : AdminConfig aead) (head : RequestHead) (value : AdminPrincipal) :
    Decidable (CSRFProof cfg head value) :=
  inferInstanceAs (Decidable (_ ∧ _))

/-- `RequireAdminCSRF`: the answer to a request that needs a proof and has none. -/
def requireAdminCSRF (cfg : AdminConfig aead) (head : RequestHead) (value : AdminPrincipal) :
    Except Response Unit :=
  if requiresCSRF head = false then .ok ()
  else if value.kind = .breakGlass then .ok ()
  else if value.kind = .oidcUser ∧ CSRFProof cfg head value then .ok ()
  else .error (writeError 403 "csrf_invalid")

def requireAdminPermission (permission : AdminPermission) (value : AdminPrincipal) :
    Except Response Unit :=
  if permission ∈ value.permissions then .ok ()
    else .error (writeError 403 "insufficient permission")

def sharedAdminPermissions : List AdminPermission :=
  [.adminRead, .auditRead, .auditExport, .auditManage, .apiClientManage, .integrationManage,
   .resourceWrite, .secretReveal,
    .sessionManage, .settingsManage, .tenantHardDelete, .tenantWrite]

/-- The principal of the shared token, which `newPrincipal` makes. -/
def sharedAdminPrincipal : AdminPrincipal where
  kind := .sharedAdminToken
  issuer := ""
  subject := "primary"
  label := ""
  sessionId := none
  roles := []
  csrfTokenHash := ""
  permissions := sharedAdminPermissions

/-- `RequireAdminToken`, which takes the place of `RequireAdminIdentity` where there are no
sessions. -/
def requireAdminToken (cfg : AdminConfig aead) (head : RequestHead) :
    Except Response AdminPrincipal :=
  if head.bearer = "" ∨ hashAPIKey cfg.sha256 head.bearer ≠ cfg.adminTokenHash then
    .error (writeError 401 "invalid admin token")
  else .ok sharedAdminPrincipal

/-- `requireSecretRevealPermission` -/
def requireSecretRevealPermission (head : RequestHead) (value : AdminPrincipal) :
    Except Response Unit :=
  if head.reveal ≠ "true" then .ok () else requireAdminPermission .secretReveal value

section principals

variable {cfg : AdminConfig aead} {policy : Policy} {now : Nanoseconds} {head : RequestHead}
  {rows : List AdminSession} {p : AdminPrincipal}

theorem newOIDCPrincipal_ok {issuer subject label : String} {sessionId : UUID} {roles : List Role}
    (h : newOIDCPrincipal issuer subject label sessionId roles = some p) :
    p.kind = .oidcUser ∧ p.issuer ≠ "" := by
  unfold newOIDCPrincipal at h
  split at h
  · cases h
  next hne =>
    cases h
    exact ⟨rfl, fun hissuer => hne (.inl hissuer)⟩

theorem requireAdminSession_oidc (h : (requireAdminSession cfg policy now head rows).1 = .ok p) :
    p.kind = .oidcUser ∧ p.issuer ≠ "" := by
  unfold requireAdminSession at h
  split at h
  · cases h
  split at h
  · cases h
  split at h
  · cases h
  next value hvalue =>
    cases h
    obtain ⟨roles, -, hvalue⟩ := Option.bind_eq_some_iff.mp hvalue
    obtain ⟨v, hv, heq⟩ := Option.bind_eq_some_iff.mp hvalue
    cases heq
    have hoidc := newOIDCPrincipal_ok hv
    exact ⟨hoidc.1, hoidc.2⟩

/-- A principal has an issuer exactly if it is an OIDC user. -/
theorem requireAdminIdentity_issuer (h :
      (requireAdminIdentity cfg policy now head rows).1 = .ok p) :
    p.kind = .oidcUser ↔ p.issuer ≠ "" := by
  unfold requireAdminIdentity at h
  split at h
  · have hoidc := requireAdminSession_oidc h
    exact iff_of_true hoidc.1 hoidc.2
  split at h
  · cases h
    simp [newBreakGlassPrincipal]
  · cases h

theorem requireAdminToken_issuer (h : requireAdminToken cfg head = .ok p) :
    p.kind = .oidcUser ↔ p.issuer ≠ "" := by
  unfold requireAdminToken at h
  split at h
  · cases h
  · cases h
    simp [sharedAdminPrincipal]

end principals

section sessions

variable {cfg : AdminConfig aead} {policy : Policy} {now : Nanoseconds} {head : RequestHead}
  {rows : List AdminSession}

/-- A session is touched: its use and its idle expiry, nothing else. -/
def Touched (r r' : AdminSession) : Prop :=
  ∃ used idle, r' = { r with lastUsedAt := used, idleExpiresAt := idle }

/-- The row belongs to the session that the cookie of the request stands for. -/
def Own (sha256 : Bytes → Bytes) (head : RequestHead) (rows : List AdminSession)
    (r : AdminSession) : Prop :=
  ∃ x ∈ rows, x.id = r.id ∧ head.cookie.map (hashCredential sha256) = some x.tokenHash

/-- Every row stands as it was, but for the session of the request, which may be touched. -/
def SessionsKept (sha256 : Bytes → Bytes) (head : RequestHead) (rows rows' : List AdminSession) :
    Prop :=
  List.Forall₂ (fun r r' => r' = r ∨ Own sha256 head rows r ∧ Touched r r') rows rows'

theorem SessionsKept.refl (sha256 : Bytes → Bytes) (head : RequestHead) (rows : List AdminSession) :
    SessionsKept sha256 head rows rows :=
  List.forall₂_same.mpr fun _ _ => .inl rfl

theorem authenticateSession_eq_some {tokenHash : String} {usedAt : Timestamp} {idle : Int32}
    {r : AdminSession} {rows' : List AdminSession}
    (h : authenticateSession tokenHash usedAt idle rows = some (r, rows')) :
    ∃ x ∈ rows, Usable tokenHash usedAt x ∧ r = x.touched usedAt idle ∧
      rows' = Table.update (fun y => y.id = x.id) (AdminSession.touched usedAt idle) rows := by
  unfold authenticateSession at h
  split at h
  · cases h
  next x hx =>
    split at h
    · cases h
      exact ⟨x, List.mem_of_find?_eq_some hx, by simpa using List.find?_some hx, rfl, rfl⟩
    · cases h

/-- An authentication touches the session of its token and no other. -/
theorem sessionsKept_authenticate {token : String} (htoken : head.cookie = some token) :
    SessionsKept cfg.sha256 head rows
      (authenticate cfg.sha256 cfg.cryptor policy token now rows).2 := by
  unfold authenticate
  split
  · exact .refl _ _ _
  split
  · exact .refl _ _ _
  split
  · exact .refl _ _ _
  next x rows' h =>
    obtain ⟨x, hx, husable, -, rfl⟩ := authenticateSession_eq_some h
    show List.Forall₂ _ rows (rows.map _)
    refine List.forall₂_map_right_iff.mpr (List.forall₂_same.mpr fun r _ => ?_)
    split
    next hid =>
      exact .inr ⟨⟨x, hx, (of_decide_eq_true hid).symm, by rw [htoken, husable.1]; rfl⟩, _, _, rfl⟩
    · exact .inl rfl

theorem sessionsKept_requireAdminSession :
    SessionsKept cfg.sha256 head rows (requireAdminSession cfg policy now head rows).2 := by
  unfold requireAdminSession
  split
  · exact .refl _ _ _
  next token htoken =>
    have hkept : SessionsKept cfg.sha256 head rows
        (authenticate cfg.sha256 cfg.cryptor policy token now rows).2 :=
      sessionsKept_authenticate htoken
    split
    next h => rwa [h] at hkept
    next h =>
      rw [h] at hkept
      split
      · exact hkept
      · exact hkept

/-- To find out who calls touches the session of the caller and no other. -/
theorem sessionsKept_requireAdminIdentity :
    SessionsKept cfg.sha256 head rows (requireAdminIdentity cfg policy now head rows).2 := by
  unfold requireAdminIdentity
  split
  · exact sessionsKept_requireAdminSession
  · split
    · exact .refl _ _ _
    · exact .refl _ _ _

end sessions

end Tenancit.Httpapi
