import Tenancit.Httpapi.Audit
import Tenancit.Service.ApiClientPolicy
import Tenancit.Service.Provision

/-!
The handlers of `httpapi/admin.go`. A path parameter that does not parse is `none`, a body
that does not decode is the answer `decodeJSON` wrote. The statements of a handler on the
catalogue stand under the handler's name in `Change`.
-/
namespace Tenancit.Httpapi

open Encoding Crypto Store Service
open Program.Tx (draw require ofExcept)

variable {Key : Type} {aead : Aead Key}

def orError {α : Type} (e : Response) : Option α → Except Response α
  | some a => .ok a
  | none => .error e

theorem parse_eq_ok {α : Type} {e : Response} {o : Option α} {a : α} :
    orError e o = .ok a ↔ o = some a := by
  cases o <;> simp [orError]

/-- `parseID` -/
def parseID (id : Option UUID) : Except Response UUID := orError (badRequest "bad id") id

def tenantJson (t : Tenant) : Json :=
  .obj [("id", t.id.json), ("slug", .str t.slug), ("name", .str t.name),
  ("status", .str t.status.text), ("created_at", Timestamp.json t.createdAt),
  ("updated_at", Timestamp.json t.updatedAt)]

def domainJson (d : TenantDomain) : Json := .obj [("id", d.id.json), ("tenant_id", d.tenantId.json),
  ("hostname", .str d.hostname), ("created_at", Timestamp.json d.createdAt)]

def definitionJson (d : ResourceDefinition) : Json := .obj [("id", d.id.json), ("key", .str d.key),
  ("name", .str d.name), ("description", .str d.description), ("icon", .str d.icon),
  ("status", .str d.status.text), ("created_at", Timestamp.json d.createdAt),
  ("updated_at", Timestamp.json d.updatedAt)]

def fieldJson (f : ResourceField) : Json := .obj [("id", f.id.json),
  ("resource_definition_id", f.resourceDefinitionId.json), ("key", .str f.key),
  ("label", .str f.label),
  ("hint", .str f.hint), ("data_type", .str f.dataType), ("required", .bool f.required),
  ("is_secret", .bool f.isSecret), ("sort_order", .num f.sortOrder.toInt)]

def resourceJson (r : TenantResource) : Json :=
  .obj [("id", r.id.json), ("tenant_id", r.tenantId.json),
  ("resource_definition_id", r.resourceDefinitionId.json), ("status", .str r.status.text),
  ("created_at", Timestamp.json r.createdAt), ("updated_at", Timestamp.json r.updatedAt),
  ("alias", .str r.resourceAlias), ("source_resource_id", Json.opt UUID.json r.sourceResourceId),
  ("display_name", .str r.displayName)]

section tenants

structure CreateTenantBody where
  slug : String
  name : String

/-- The slug and the name that are stored. -/
def checkCreateTenant (b : CreateTenantBody) : Except Response CreateTenantBody :=
  let (slug, slugOK) := normalizeTenantSlug b.slug
  let name := Text.trimSpace b.name
  if slugOK = false then .error (badRequest "invalid tenant slug")
  else if name = "" then .error (badRequest "slug and name required")
  else .ok ⟨slug, name⟩

def Change.createTenant (b : CreateTenantBody) (now : Timestamp) : Tx Catalog Response Tenant :=
  (run (Queries.createTenant now b.slug b.name)).mapErr fun
    | .uniqueViolation => conflict "a tenant with this slug already exists"
    | _ => writeInternalError

def createTenant (audit : Auditor) (s : Server aead) (r : AdminRequest)
    (body : Except Response CreateTenantBody) : Tx Database Response Response := do
  let b ← ofExcept (body >>= checkCreateTenant)
  let request ← ofExcept (prepareAdminIdempotency s.sha256 r "POST /v1/admin/tenants"
    (.obj [("Slug", .str b.slug), ("Name", .str b.name)]) adminMutationTTL)
  idempotentMutation audit s.cryptor r request false (fun now =>
    onCatalog (Change.createTenant b now))
    (fun t => ⟨"tenant.created", "tenant", t.id.text, "/v1/admin/tenants", 201,
      .ofMap [("slug", .str t.slug), ("name", .str t.name)]⟩)
    (fun t => pure (tenantJson t))

def checkHostname (emptyMessage : Option String) (raw : String) : Except Response String :=
  if emptyMessage.isSome ∧ raw = "" then .error (badRequest (emptyMessage.getD ""))
  else if canonicalHostname raw = "" then .error (badRequest "invalid hostname")
  else .ok (canonicalHostname raw)

def Change.addDomain (id : UUID) (hostname : String) (now : Timestamp) :
    Tx Catalog Response TenantDomain :=
  (run (Queries.addTenantDomain now id hostname)).mapErr fun
    | .uniqueViolation => conflict "this hostname is already mapped to a tenant"
    | .foreignKeyViolation => writeNotFound
    | _ => writeInternalError

def addDomain (audit : Auditor) (r : AdminRequest) (id : Option UUID)
    (body : Except Response String) : Tx Database Response Response := do
  let id ← ofExcept (parseID id)
  let hostname ← ofExcept (body >>= checkHostname (some "hostname required"))
  auditedMutation audit r (fun now => onCatalog (Change.addDomain id hostname now))
    (fun d => some ⟨"domain.added", "domain", d.id.text, "/v1/admin/tenants/{id}/domains", 201,
      .ofMap [("tenant_id", id.json), ("hostname", .str hostname)]⟩)
    (fun _ => pure ()) (fun d _ _ => writeJSON 201 (domainJson d))

end tenants

section definitions

structure CreateDefinitionBody where
  key : String
  name : String
  description : String
  icon : String

def checkCreateDefinition (b : CreateDefinitionBody) : Except Response CreateDefinitionBody :=
  let (key, keyOK) := normalizeDefinitionKey b.key
  let name := Text.trimSpace b.name
  if keyOK = false then .error (badRequest "invalid definition key")
  else if name = "" then .error (badRequest "key and name required")
  else .ok { b with key := key, name := name }

def Change.createDefinition (b : CreateDefinitionBody) (now : Timestamp) :
    Tx Catalog Response ResourceDefinition :=
  (run (Queries.createDefinition now b.key b.name b.description b.icon)).mapErr fun
    | .uniqueViolation => conflict "a definition with this key already exists"
    | _ => writeInternalError

def createDefinition (audit : Auditor) (r : AdminRequest)
    (body : Except Response CreateDefinitionBody) : Tx Database Response Response := do
  let b ← ofExcept (body >>= checkCreateDefinition)
  auditedMutation audit r (fun now => onCatalog (Change.createDefinition b now))
    (fun d => some ⟨"definition.created", "resource_definition", d.id.text,
      "/v1/admin/resource-definitions",
      201, .ofMap [("key", .str d.key), ("name", .str d.name)]⟩)
    (fun _ => pure ()) (fun d _ _ => writeJSON 201 (definitionJson d))

structure AddFieldBody where
  key : String
  label : String
  hint : String
  dataType : String
  required : Bool
  isSecret : Bool
  sortOrder : Int32

/-- A field whose data type is left out is a string. -/
def checkAddField (id : UUID) (b : AddFieldBody) : Except Response Queries.AddFieldParams :=
  let (key, keyOK) := normalizeDefinitionKey b.key
  if keyOK = false then .error (badRequest "invalid field key")
  else .ok ⟨id, key, b.label, b.hint, if b.dataType = "" then "string" else b.dataType, b.required,
    b.isSecret, b.sortOrder⟩

def Change.addField (arg : Queries.AddFieldParams) : Tx Catalog Response ResourceField :=
  (run (Queries.addField arg)).mapErr fun
    | .uniqueViolation => conflict "a field with this key already exists"
    | .foreignKeyViolation => writeNotFound
    | _ => writeInternalError

def addField (audit : Auditor) (r : AdminRequest) (id : Option UUID)
    (body : Except Response AddFieldBody) : Tx Database Response Response := do
  let id ← ofExcept (parseID id)
  let arg ← ofExcept (body >>= checkAddField id)
  auditedMutation audit r (fun _ => onCatalog (Change.addField arg))
    (fun f => some ⟨"definition.field_added", "resource_field", f.id.text,
      "/v1/admin/resource-definitions/{id}/fields", 201, .ofMap [("definition_id", id.json),
        ("field_key", .str f.key), ("is_secret", .bool f.isSecret)]⟩)
    (fun _ => pure ()) (fun f _ _ => writeJSON 201 (fieldJson f))

end definitions

section resources

structure CreateResourceBody where
  name : String
  resourceAlias : String
  definitionKey : String
  sourceResourceId : Option UUID
  values : StringMap

def checkCreateResource (b : CreateResourceBody) : Except Response CreateResourceBody :=
  if b.definitionKey = "" then .error (badRequest "definitionKey required") else .ok b

/-- The payload the fingerprint of a provisioning covers. -/
def createResourcePayload (tenantId : UUID) (b : CreateResourceBody) : Json :=
  .obj [("tenant_id", tenantId.json),
    ("input", .obj [("name", .str b.name), ("alias", .str b.resourceAlias),
    ("definitionKey", .str b.definitionKey),
    ("sourceResourceId", Json.opt UUID.json b.sourceResourceId),
    ("values", .ofMap (b.values.map fun v => (v.1, .str v.2)))])]

/-- `writeProvisionError` -/
def writeProvisionError : ServiceError → Response
  | .unknownTenant => writeNotFound
  | .resourceAliasExists => conflict ServiceError.resourceAliasExists.text
  | .unknownDefinition => badRequest ServiceError.unknownDefinition.text
  | .inactiveDefinition => badRequest ServiceError.inactiveDefinition.text
  | .missingRequiredField key => badRequest (ServiceError.missingRequiredField key).text
  | .invalidFieldValue key => badRequest (ServiceError.invalidFieldValue key).text
  | .invalidResourceAlias => badRequest ServiceError.invalidResourceAlias.text
  | .invalidResourceName => badRequest ServiceError.invalidResourceName.text
  | .invalidResourceSource => badRequest ServiceError.invalidResourceSource.text
  | _ => writeInternalError

def provisionInput (tenantId : UUID) (b : CreateResourceBody) : ProvisionResourceInput :=
  ⟨b.name, b.resourceAlias, b.definitionKey, b.sourceResourceId, tenantId, b.values⟩

def Change.createResource (cryptor : Cryptor aead) (tenantId : UUID) (b : CreateResourceBody)
    (now : Timestamp) : Tx Catalog Response TenantResource :=
  (provisionResourceInTx now cryptor (provisionInput tenantId b)).mapErr writeProvisionError

def createResource (audit : Auditor) (s : Server aead) (r : AdminRequest) (id : Option UUID)
    (body : Except Response CreateResourceBody) : Tx Database Response Response := do
  let tenantId ← ofExcept (parseID id)
  let b ← ofExcept (body >>= checkCreateResource)
  let request ← ofExcept (prepareAdminIdempotency s.sha256 r "POST /v1/admin/tenants/{id}/resources"
    (createResourcePayload tenantId b) adminMutationTTL)
  idempotentMutation audit s.cryptor r request false
    (fun now => onCatalog (Change.createResource s.cryptor tenantId b now))
    (fun res =>
      ⟨"resource.provisioned", "resource", res.id.text, "/v1/admin/tenants/{id}/resources", 201,
      .ofMap [("tenant_id", tenantId.json), ("definition_key", .str b.definitionKey),
        ("alias", .str res.resourceAlias), ("field_names", .arr (b.values.map fun v => .str v.1))]⟩)
    (fun res => pure (resourceJson res))

def Change.duplicateResource (cryptor : Cryptor aead) (tenantId resourceId : UUID)
    (resourceAlias : String) (now : Timestamp) : Tx Catalog Response TenantResource :=
  (duplicateResourceInTx now cryptor tenantId resourceId resourceAlias).mapErr fun
    | .unknownResource => writeNotFound
    | err => writeProvisionError err

def parseResourceID (id : Option UUID) : Except Response UUID :=
  orError (badRequest "bad resource id") id

def duplicateResource (audit : Auditor) (s : Server aead) (r : AdminRequest)
    (id resourceId : Option UUID) (body : Except Response String) :
    Tx Database Response Response := do
  let tenantId ← ofExcept (parseID id)
  let resourceId ← ofExcept (parseResourceID resourceId)
  let resourceAlias ← ofExcept body
  let request ← ofExcept (prepareAdminIdempotency s.sha256 r
    "POST /v1/admin/tenants/{id}/resources/{resourceId}/duplicate"
    (.obj [("tenant_id", tenantId.json), ("resource_id", resourceId.json),
      ("alias", .str resourceAlias)])
    adminMutationTTL)
  idempotentMutation audit s.cryptor r request false
    (fun now =>
      onCatalog (Change.duplicateResource s.cryptor tenantId resourceId resourceAlias now))
    (fun duplicate => ⟨"resource.duplicated", "resource", duplicate.id.text,
      "/v1/admin/tenants/{id}/resources/{resourceId}/duplicate", 201,
      .ofMap [("tenant_id", tenantId.json),
        ("source_resource_id", resourceId.json), ("alias", .str duplicate.resourceAlias)]⟩)
    (fun duplicate => pure (resourceJson duplicate))

end resources

section clients

structure ApiClientPolicyInput where
  name : String
  scopes : List String
  rpmLimit : Int32
  expiresAt : Timestamp

/-- The policy a request gives, checked at a reading of the application clock. -/
def checkPolicy (now : Timestamp) (in_ : ApiClientPolicyInput) :
    Except Response ApiClientPolicyInput :=
  let in_ := { in_ with name := Text.trimSpace in_.name }
  if in_.name = "" then .error (badRequest "name required")
  else match validateAPIClientPolicy now in_.scopes in_.rpmLimit in_.expiresAt with
    | .error err => .error (badRequest err.text)
    | .ok () => .ok in_

def scopesJson (scopes : List String) : Json := .arr (scopes.map .str)

/-- `newAPIClientView` -/
def newAPIClientView (client : ApiClient) (scopes : List String) (now : Timestamp) : Json :=
  .obj ([("id", client.id.json), ("name", .str client.name),
    ("key_preview", .str client.tokenPreview),
    ("scopes", scopesJson scopes), ("rpm_limit", .num client.rpmLimit.toInt),
    ("expires_at", Timestamp.json client.expiresAt)] ++
    (client.lastUsedAt.toList.map fun t => ("last_used_at", Timestamp.json t)) ++
    (client.revokedAt.toList.map fun t => ("revoked_at", Timestamp.json t)) ++
    [("status", .str (effectiveAPIClientStatus client.status client.expiresAt now)),
      ("created_at", Timestamp.json client.createdAt),
      ("updated_at", Timestamp.json client.updatedAt)])

def createAPIClientResponse (client : ApiClient) (scopes : List String) (now : Timestamp)
    (token : String) : Json :=
  .obj [("client", newAPIClientView client scopes now), ("token", .str token)]

/-- The client and its token, which is not stored. -/
def Change.createAPIClient (sha256 : Bytes → Bytes) (in_ : ApiClientPolicyInput) (now : Timestamp) :
    Tx ClientTables Response (ApiClient × String) := do
  let t ← draw writeInternalError
  let token := generateAPIToken t.random
  let c ← (run (Queries.createAPIClient now
      ⟨in_.name, hashAPIKey sha256 token, apiTokenPreview token, in_.rpmLimit,
       in_.expiresAt⟩)).mapErr fun
    | .uniqueViolation => conflict "api_client_name_conflict"
    | _ => writeInternalError
  (run (Queries.replaceAPIClientScopes c.id in_.scopes)).mapErr fun _ => writeInternalError
  pure (c, token)

def createAPIClient (audit : Auditor) (s : Server aead) (r : AdminRequest)
    (body : Except Response ApiClientPolicyInput) : Tx Database Response Response := do
  let in_ ← ofExcept body
  let now ← draw writeInternalError
  let in_ ← ofExcept (checkPolicy now.clock in_)
  let request ← ofExcept (prepareAdminIdempotency s.sha256 r "POST /v1/admin/api-clients"
    (.obj [("name", .str in_.name), ("scopes", scopesJson in_.scopes),
      ("rpm_limit", .num in_.rpmLimit.toInt),
      ("expires_at", Timestamp.json in_.expiresAt)]) adminSecretTTL)
  idempotentMutation audit s.cryptor r request true
    (fun now => onClients (Change.createAPIClient s.sha256 in_ now))
    (fun c => ⟨"api_client.created", "api_client", c.1.id.text, "/v1/admin/api-clients", 201,
      .ofMap [("name", .str c.1.name), ("scopes", scopesJson in_.scopes),
        ("rpm_limit", .num in_.rpmLimit.toInt),
        ("expires_at", .str (rfc3339 false in_.expiresAt))]⟩)
    (fun c => do
      let now ← draw writeInternalError
      pure (createAPIClientResponse c.1 in_.scopes now.clock c.2))

end clients

end Tenancit.Httpapi
