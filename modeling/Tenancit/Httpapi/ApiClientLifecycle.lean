import Tenancit.Httpapi.AdminActions

/-! The handlers of `httpapi/api_client_lifecycle.go`. -/
namespace Tenancit.Httpapi

open Encoding Crypto Store Service
open Program.Tx (draw require ofExcept)

variable {Key : Type} {aead : Aead Key}

/-- The client before and after the change. -/
def Change.updateAPIClient (id : UUID) (in_ : ApiClientPolicyInput) :
    Tx ClientTables Response (ApiClient × ApiClient) := do
  let previous ← readOr404 (Queries.getAPIClient id)
  let now ← draw writeInternalError
  require (previous.status = .active ∧ now.clock < previous.expiresAt)
    (conflict "client_must_rotate")
  let updated ← (run (Queries.updateAPIClientPolicy ⟨id, in_.name, in_.rpmLimit,
    in_.expiresAt⟩)).mapErr fun
    | .uniqueViolation => conflict "api_client_name_conflict"
    | _ => writeInternalError
  (run (Queries.replaceAPIClientScopes id in_.scopes)).mapErr fun _ => writeInternalError
  pure (previous, updated)

def updateAPIClient (audit : Auditor) (r : AdminRequest) (id : Option UUID)
    (body : Except Response ApiClientPolicyInput) : Tx Database Response Response := do
  let id ← ofExcept (parseID id)
  let in_ ← ofExcept body
  let now ← draw writeInternalError
  let in_ ← ofExcept (checkPolicy now.clock in_)
  auditedMutation audit r (fun _ => onClients (Change.updateAPIClient id in_))
    (fun x => some ⟨"api_client.policy_updated", "api_client", id.text,
      "/v1/admin/api-clients/{id}", 200,
      .ofMap [("before", .ofMap [("name", .str x.1.name), ("rpm_limit", .num x.1.rpmLimit.toInt),
          ("expires_at", Timestamp.json x.1.expiresAt)]),
        ("after", .ofMap [("name", .str in_.name), ("scopes", scopesJson in_.scopes),
          ("rpm_limit", .num in_.rpmLimit.toInt),
          ("expires_at", .str (rfc3339 false in_.expiresAt))])]⟩)
    (fun _ => pure ()) (fun x _ now => writeJSON 200 (newAPIClientView x.2 in_.scopes now))

def checkGrace (graceSeconds : Int32) : Except Response Int32 :=
  if graceSeconds < 0 ∨ 86400 < graceSeconds then .error (badRequest "invalid_rotation_grace")
    else .ok graceSeconds

/-- Keep the token that is superseded, for a grace. -/
def Change.savePrevious (now : Timestamp) (id : UUID) (keyHash : String) (graceSeconds : Int32) :
    Tx ClientTables Response Unit :=
  if 0 < graceSeconds then do
    let read ← draw writeInternalError
    (run (Queries.savePreviousAPIClientToken now id keyHash
      (read.clock + Timestamp.seconds graceSeconds.toInt))).mapErr fun _ => writeInternalError
  else pure ()

/-- The rotated client and its new token. -/
def Change.rotateAPIClient (sha256 : Bytes → Bytes) (id : UUID) (graceSeconds : Int32)
    (now : Timestamp) : Tx ClientTables Response (ApiClient × String) := do
  let t ← draw writeInternalError
  let token := generateAPIToken t.random
  let current ← readOr404 (Queries.getAPIClient id)
  require (current.status = .active) (conflict "client_must_rotate")
  Change.savePrevious now id current.keyHash graceSeconds
  let rotated ← (run (Queries.rotateAPIClientToken id (hashAPIKey sha256 token)
    (apiTokenPreview token))).mapErr
    fun _ => writeInternalError
  pure (rotated, token)

def rotateAPIClient (audit : Auditor) (s : Server aead) (r : AdminRequest) (id : Option UUID)
    (body : Except Response Int32) : Tx Database Response Response := do
  let id ← ofExcept (parseID id)
  let graceSeconds ← ofExcept (body >>= checkGrace)
  let request ← ofExcept
    (prepareAdminIdempotency s.sha256 r "POST /v1/admin/api-clients/{id}/rotate"
    (.obj [("client_id", id.json), ("input", .obj [("grace_seconds", .num graceSeconds.toInt)])])
      adminSecretTTL)
  idempotentMutation audit s.cryptor r request true
    (fun now => onClients (Change.rotateAPIClient s.sha256 id graceSeconds now))
    (fun _ =>
      ⟨"api_client.rotated", "api_client", id.text, "/v1/admin/api-clients/{id}/rotate", 201,
      .ofMap [("grace_seconds", .num graceSeconds.toInt)]⟩)
    (fun c => do
      let scopes ← onClients ((read (Queries.listAPIClientScopes id)).mapErr
        fun _ => writeInternalError)
      let now ← draw writeInternalError
      pure (createAPIClientResponse c.1 scopes now.clock c.2))

/-- The client before and after the change; a client that is revoked is revoked again. -/
def Change.revokeAPIClient (id : UUID) : Tx ClientTables Response (ApiClient × ApiClient) := do
  let current ← readOr404 (Queries.getAPIClient id)
  let revoked ← (run (Queries.setAPIClientStatusRevoked id)).mapErr fun _ => writeInternalError
  pure (current, revoked)

def revokeAPIClient (audit : Auditor) (r : AdminRequest) (id : Option UUID) :
    Tx Database Response Response := do
  let id ← ofExcept (parseID id)
  auditedMutation audit r (fun _ => onClients (Change.revokeAPIClient id))
    (fun x => if x.1.status = .revoked then none else
      some ⟨"api_client.revoked", "api_client", id.text, "/v1/admin/api-clients/{id}/revoke", 200,
        .ofMap [("from", .str x.1.status.text), ("to", .str "revoked")]⟩)
    (fun _ =>
      onClients ((read (Queries.listAPIClientScopes id)).mapErr fun _ => writeInternalError))
    (fun x scopes now => writeJSON 200 (newAPIClientView x.2 scopes now))

def Change.deleteAPIClient (id : UUID) : Tx ClientTables Response ApiClient := do
  let current ← readOr404 (Queries.getAPIClient id)
  require (current.status = .revoked) (conflict "client_not_revoked")
  let deleted ← (run (Queries.deleteAPIClient id)).mapErr fun _ => writeInternalError
  require (deleted ≠ 0) writeNotFound
  pure current

def deleteAPIClient (audit : Auditor) (r : AdminRequest) (id : Option UUID) :
    Tx Database Response Response := do
  let id ← ofExcept (parseID id)
  auditedMutation audit r (fun _ => onClients (Change.deleteAPIClient id))
    (fun c => some ⟨"api_client.deleted", "api_client", id.text, "/v1/admin/api-clients/{id}", 204,
      .ofMap [("name", .str c.name)]⟩)
    (fun _ => pure ()) (fun _ _ _ => noContent)

end Tenancit.Httpapi
