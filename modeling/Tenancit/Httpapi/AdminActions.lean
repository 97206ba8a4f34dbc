import Tenancit.Httpapi.Admin

/-!
The handlers of `httpapi/admin_actions.go`: changes and deletions of what the handlers of
`Tenancit.Httpapi.Admin` create.
-/
namespace Tenancit.Httpapi

open Encoding Crypto Store Service
open Program.Tx (draw require ofExcept)

variable {Key : Type} {aead : Aead Key}

/-- Read a row that has to be there; whatever stops the read is answered as its absence. -/
def readOr404 {δ α : Type} (q : δ → Except PgError α) : Tx δ Response α :=
  (read q).mapErr fun _ => writeNotFound

/-- Delete a row that has to be there. -/
def deleteOr404 (q : Tick → Catalog → Except PgError (Nat × Catalog)) (onForeignKey : Response) :
    Tx Catalog Response Unit := do
  let n ← (run q).mapErr fun
    | .foreignKeyViolation => onForeignKey
    | _ => writeInternalError
  require (n ≠ 0) writeNotFound

def parseStatus (raw : String) : Except Response Status :=
  orError (badRequest "status must be active|inactive") (Status.parse raw)

def parseDomainID (id : Option UUID) : Except Response UUID :=
  orError (badRequest "bad domain id") id

def parseFieldID (id : Option UUID) : Except Response UUID := orError (badRequest "bad field id") id

section resources

structure ResourceIdentityBody where
  name : String
  resourceAlias : String

/-- The identity that is stored. A name that is too long is reported as an alias. -/
def checkResourceIdentity (b : ResourceIdentityBody) : Except Response ResourceIdentityBody :=
  match normalizeResourceIdentity b.name b.resourceAlias with
  | .error _ => .error (badRequest "invalid resource alias")
  | .ok (name, resourceAlias) =>
    if resourceAlias = "" then .error (badRequest "invalid resource alias")
    else if name = "" then .error (badRequest "invalid resource name")
    else .ok ⟨name, resourceAlias⟩

/-- The resource before and after the change. -/
def Change.updateResourceIdentity (tenantId resourceId : UUID) (b : ResourceIdentityBody)
    (now : Timestamp) :
    Tx Catalog Response (TenantResource × TenantResource) := do
  let previous ← readOr404 (Queries.getTenantResource resourceId tenantId)
  let resource ← (run (Queries.updateTenantResourceIdentity now resourceId tenantId
    b.resourceAlias b.name)).mapErr fun
    | .noRows => writeNotFound
    | .uniqueViolation => conflict "resource alias already exists"
    | _ => writeInternalError
  pure (previous, resource)

def identityJson (r : TenantResource) : Json :=
  .ofMap [("name", .str r.displayName), ("alias", .str r.resourceAlias)]

def updateResourceIdentity (audit : Auditor) (r : AdminRequest) (id resourceId : Option UUID)
    (body : Except Response ResourceIdentityBody) : Tx Database Response Response := do
  let tenantId ← ofExcept (parseID id)
  let resourceId ← ofExcept (parseResourceID resourceId)
  let b ← ofExcept (body >>= checkResourceIdentity)
  auditedMutation audit r (fun now =>
    onCatalog (Change.updateResourceIdentity tenantId resourceId b now))
    (fun x => some ⟨"resource.updated", "resource", resourceId.text,
      "/v1/admin/tenants/{id}/resources/{resourceId}", 200, .ofMap [("tenant_id", tenantId.json),
        ("before", identityJson x.1), ("after", identityJson x.2)]⟩)
    (fun _ => pure ()) (fun x _ _ => writeJSON 200 (resourceJson x.2))

def fieldRoute : String := "/v1/admin/tenants/{id}/resources/{resourceId}/fields/{fieldKey}"

def fieldMetadata (tenantId : UUID) (f : ResourceField) : Json :=
  .ofMap [("tenant_id", tenantId.json), ("field_key", .str f.key), ("is_secret", .bool f.isSecret)]

def Change.updateResourceField (cryptor : Cryptor aead) (in_ : UpdateResourceFieldInput) :
    Tx Catalog Response ResourceField :=
  (updateResourceFieldInTx cryptor in_).mapErr fun
    | .unknownResource => writeNotFound
    | .unknownResourceField => badRequest "unknown resource field"
    | .missingRequiredField key => badRequest (ServiceError.missingRequiredField key).text
    | .invalidFieldValue key => badRequest (ServiceError.invalidFieldValue key).text
    | _ => writeInternalError

def updateResourceField (audit : Auditor) (s : Server aead) (r : AdminRequest)
    (id resourceId : Option UUID) (fieldKey : String) (body : Except Response String) :
    Tx Database Response Response := do
  let tenantId ← ofExcept (parseID id)
  let resourceId ← ofExcept (parseResourceID resourceId)
  let fieldKey ← ofExcept (if fieldKey = "" then .error (badRequest "field key required")
    else .ok fieldKey)
  let value ← ofExcept body
  auditedMutation audit r
    (fun _ =>
      onCatalog (Change.updateResourceField s.cryptor ⟨fieldKey, resourceId, tenantId, value⟩))
    (fun f => some ⟨"resource.field_updated", "resource", resourceId.text, fieldRoute, 204,
      fieldMetadata tenantId f⟩)
    (fun _ => pure ()) (fun _ _ _ => noContent)

def Change.clearResourceFieldOverride (in_ : UpdateResourceFieldInput) :
    Tx Catalog Response ResourceField :=
  (clearResourceFieldOverrideInTx in_).mapErr fun
    | .unknownResource => writeNotFound
    | .unknownResourceField => badRequest "field cannot inherit from source"
    | .invalidResourceSource => badRequest "field cannot inherit from source"
    | .missingRequiredField key => badRequest (ServiceError.missingRequiredField key).text
    | _ => writeInternalError

def clearResourceFieldOverride (audit : Auditor) (r : AdminRequest) (id resourceId : Option UUID)
    (fieldKey : String) : Tx Database Response Response := do
  let tenantId ← ofExcept (parseID id)
  let resourceId ← ofExcept (parseResourceID resourceId)
  auditedMutation audit r
    (fun _ => onCatalog (Change.clearResourceFieldOverride ⟨fieldKey, resourceId, tenantId, ""⟩))
    (fun f => some ⟨"resource.field_override_cleared", "resource", resourceId.text, fieldRoute, 204,
      fieldMetadata tenantId f⟩)
    (fun _ => pure ()) (fun _ _ _ => noContent)

def Change.setResourceStatus (tenantId resourceId : UUID) (status : Status) (now : Timestamp) :
    Tx Catalog Response (TenantResource × TenantResource) := do
  let previous ← readOr404 (Queries.getTenantResource resourceId tenantId)
  let resource ← (run (Queries.setTenantResourceStatus now resourceId tenantId status)).mapErr fun
    | .noRows => writeNotFound
    | .uniqueViolation => conflict "an active resource of this type already exists"
    | _ => writeInternalError
  pure (previous, resource)

def setResourceStatus (audit : Auditor) (r : AdminRequest) (id resourceId : Option UUID)
    (body : Except Response String) : Tx Database Response Response := do
  let tenantId ← ofExcept (parseID id)
  let resourceId ← ofExcept (parseResourceID resourceId)
  let status ← ofExcept (body >>= parseStatus)
  auditedMutation audit r (fun now =>
    onCatalog (Change.setResourceStatus tenantId resourceId status now))
    (fun x => some ⟨"resource.status_changed", "resource", resourceId.text,
      "/v1/admin/tenants/{id}/resources/{resourceId}/status", 200,
      .ofMap [("tenant_id", tenantId.json),
        ("from", .str x.1.status.text), ("to", .str x.2.status.text)]⟩)
    (fun _ => pure ()) (fun x _ _ => writeJSON 200 (resourceJson x.2))

def Change.deleteResource (tenantId resourceId : UUID) : Tx Catalog Response TenantResource := do
  let resource ← readOr404 (Queries.getTenantResource resourceId tenantId)
  deleteOr404 (Queries.deleteTenantResource resourceId tenantId)
    (conflict "resource_has_linked_dependents")
  pure resource

def deleteResource (audit : Auditor) (r : AdminRequest) (id resourceId : Option UUID) :
    Tx Database Response Response := do
  let tenantId ← ofExcept (parseID id)
  let resourceId ← ofExcept (parseResourceID resourceId)
  auditedMutation audit r (fun _ => onCatalog (Change.deleteResource tenantId resourceId))
    (fun x => some ⟨"resource.deleted", "resource", resourceId.text,
      "/v1/admin/tenants/{id}/resources/{resourceId}", 204, .ofMap [("tenant_id", tenantId.json),
        ("definition_id", x.resourceDefinitionId.json)]⟩)
    (fun _ => pure ()) (fun _ _ _ => noContent)

end resources

section tenants

structure UpdateTenantBody where
  name : String
  slug : String
  status : String

/-- The name, the slug and the status that are stored; a status left out is `active`. -/
def checkUpdateTenant (b : UpdateTenantBody) : Except Response (String × String × Status) :=
  let (slug, slugOK) := normalizeTenantSlug b.slug
  let name := Text.trimSpace b.name
  if slugOK = false then .error (badRequest "invalid tenant slug")
  else if name = "" then .error (badRequest "name and slug required")
  else (parseStatus (if b.status = "" then "active" else b.status)).map
    fun status => (name, slug, status)

def Change.updateTenant (id : UUID) (b : String × String × Status) (now : Timestamp) :
    Tx Catalog Response (Tenant × Tenant) := do
  let previous ← readOr404 (Queries.getTenant id)
  let t ← (run (Queries.updateTenant now id b.1 b.2.1 b.2.2)).mapErr fun
    | .noRows => writeNotFound
    | .uniqueViolation => conflict "a tenant with this slug already exists"
    | _ => writeInternalError
  pure (previous, t)

def tenantMetadata (t : Tenant) : Json :=
  .ofMap [("name", .str t.name), ("slug", .str t.slug), ("status", .str t.status.text)]

def updateTenant (audit : Auditor) (r : AdminRequest) (id : Option UUID)
    (body : Except Response UpdateTenantBody) : Tx Database Response Response := do
  let id ← ofExcept (parseID id)
  let b ← ofExcept (body >>= checkUpdateTenant)
  auditedMutation audit r (fun now => onCatalog (Change.updateTenant id b now))
    (fun x => some ⟨"tenant.updated", "tenant", id.text, "/v1/admin/tenants/{id}", 200,
      .ofMap [("before", tenantMetadata x.1), ("after", tenantMetadata x.2)]⟩)
    (fun _ => pure ()) (fun x _ _ => writeJSON 200 (tenantJson x.2))

/-- The tenant that goes and what goes with it. -/
def Change.deleteTenant (id : UUID) : Tx Catalog Response (Tenant × Nat × Nat) := do
  let tenant ← readOr404 (Queries.getTenant id)
  let children ← (read (Queries.countTenantChildren id)).mapErr fun _ => writeInternalError
  deleteOr404 (Queries.deleteTenant id) writeInternalError
  pure (tenant, children)

def deleteTenant (audit : Auditor) (r : AdminRequest) (id : Option UUID) :
    Tx Database Response Response := do
  let id ← ofExcept (parseID id)
  auditedMutation audit r (fun _ => onCatalog (Change.deleteTenant id))
    (fun x => some ⟨"tenant.deleted", "tenant", id.text, "/v1/admin/tenants/{id}", 204,
      .ofMap [("slug", .str x.1.slug), ("domain_count", .num x.2.1),
        ("resource_count", .num x.2.2)]⟩)
    (fun _ => pure ()) (fun _ _ _ => noContent)

def Change.updateDomain (tenantId domainId : UUID) (hostname : String) :
    Tx Catalog Response (TenantDomain × TenantDomain) := do
  let previous ← readOr404 (Queries.getTenantDomain domainId tenantId)
  let d ← (run (Queries.updateTenantDomain domainId tenantId hostname)).mapErr fun
    | .uniqueViolation => conflict "this hostname is already mapped to a tenant"
    | .noRows => writeNotFound
    | _ => writeInternalError
  pure (previous, d)

def domainRoute : String := "/v1/admin/tenants/{id}/domains/{domainId}"

def updateDomain (audit : Auditor) (r : AdminRequest) (id domainId : Option UUID)
    (body : Except Response String) : Tx Database Response Response := do
  let tenantId ← ofExcept (parseID id)
  let domainId ← ofExcept (parseDomainID domainId)
  let hostname ← ofExcept (body >>= checkHostname none)
  auditedMutation audit r (fun _ => onCatalog (Change.updateDomain tenantId domainId hostname))
    (fun x => some ⟨"domain.updated", "domain", domainId.text, domainRoute, 200,
      .ofMap [("tenant_id", tenantId.json),
      ("previous_hostname", .str x.1.hostname), ("hostname", .str hostname)]⟩)
    (fun _ => pure ()) (fun x _ _ => writeJSON 200 (domainJson x.2))

def Change.deleteDomain (tenantId domainId : UUID) : Tx Catalog Response TenantDomain := do
  let d ← readOr404 (Queries.getTenantDomain domainId tenantId)
  deleteOr404 (Queries.removeTenantDomain domainId tenantId) writeInternalError
  pure d

def deleteDomain (audit : Auditor) (r : AdminRequest) (id domainId : Option UUID) :
    Tx Database Response Response := do
  let tenantId ← ofExcept (parseID id)
  let domainId ← ofExcept (parseDomainID domainId)
  auditedMutation audit r (fun _ => onCatalog (Change.deleteDomain tenantId domainId))
    (fun d => some ⟨"domain.deleted", "domain", domainId.text, domainRoute, 204,
      .ofMap [("tenant_id", tenantId.json),
      ("hostname", .str d.hostname)]⟩)
    (fun _ => pure ()) (fun _ _ _ => noContent)

end tenants

section definitions

def Change.setDefinitionStatus (id : UUID) (status : Status) (now : Timestamp) :
    Tx Catalog Response (ResourceDefinition × ResourceDefinition) := do
  let previous ← readOr404 (Queries.getDefinition id)
  let d ← (run (Queries.setDefinitionStatus now id status)).mapErr fun
    | .noRows => writeNotFound
    | _ => writeInternalError
  pure (previous, d)

def setDefinitionStatus (audit : Auditor) (r : AdminRequest) (id : Option UUID)
    (body : Except Response String) : Tx Database Response Response := do
  let id ← ofExcept (parseID id)
  let status ← ofExcept (body >>= parseStatus)
  auditedMutation audit r (fun now => onCatalog (Change.setDefinitionStatus id status now))
    (fun x => some ⟨"definition.status_changed", "resource_definition", id.text,
      "/v1/admin/resource-definitions/{id}/status", 200,
      .ofMap [("from", .str x.1.status.text), ("to", .str x.2.status.text)]⟩)
    (fun _ => pure ()) (fun x _ _ => writeJSON 200 (definitionJson x.2))

structure UpdateDefinitionBody where
  name : String
  description : String

def checkUpdateDefinition (b : UpdateDefinitionBody) : Except Response UpdateDefinitionBody :=
  let b : UpdateDefinitionBody := ⟨Text.trimSpace b.name, Text.trimSpace b.description⟩
  if b.name = "" then .error (badRequest "name required") else .ok b

def Change.updateDefinition (id : UUID) (b : UpdateDefinitionBody) (now : Timestamp) :
    Tx Catalog Response (ResourceDefinition × ResourceDefinition) := do
  let previous ← readOr404 (Queries.getDefinition id)
  let d ← (run (Queries.updateDefinition now id b.name b.description)).mapErr fun
    | .noRows => writeNotFound
    | _ => writeInternalError
  pure (previous, d)

def definitionMetadata (d : ResourceDefinition) : Json :=
  .ofMap [("name", .str d.name), ("description", .str d.description)]

def updateDefinition (audit : Auditor) (r : AdminRequest) (id : Option UUID)
    (body : Except Response UpdateDefinitionBody) : Tx Database Response Response := do
  let id ← ofExcept (parseID id)
  let b ← ofExcept (body >>= checkUpdateDefinition)
  auditedMutation audit r (fun now => onCatalog (Change.updateDefinition id b now))
    (fun x => some ⟨"definition.updated", "resource_definition", id.text,
      "/v1/admin/resource-definitions/{id}",
      200, .ofMap [("before", definitionMetadata x.1), ("after", definitionMetadata x.2)]⟩)
    (fun _ => pure ()) (fun x _ _ => writeJSON 200 (definitionJson x.2))

def Change.deleteDefinition (id : UUID) : Tx Catalog Response ResourceDefinition := do
  let d ← readOr404 (Queries.getDefinition id)
  deleteOr404 (Queries.deleteDefinition id) (conflict "definition_in_use")
  pure d

def deleteDefinition (audit : Auditor) (r : AdminRequest) (id : Option UUID) :
    Tx Database Response Response := do
  let id ← ofExcept (parseID id)
  auditedMutation audit r (fun _ => onCatalog (Change.deleteDefinition id))
    (fun d => some ⟨"definition.deleted", "resource_definition", id.text,
      "/v1/admin/resource-definitions/{id}",
      204, .ofMap [("key", .str d.key), ("name", .str d.name)]⟩)
    (fun _ => pure ()) (fun _ _ _ => noContent)

structure UpdateFieldBody where
  label : String
  required : Bool

def Change.updateField (definitionId fieldId : UUID) (b : UpdateFieldBody) :
    Tx Catalog Response (ResourceField × ResourceField) := do
  let previous ← readOr404 (Queries.getResourceField fieldId definitionId)
  let f ← (run (Queries.updateField fieldId definitionId b.label b.required)).mapErr fun
    | .noRows => writeNotFound
    | _ => writeInternalError
  pure (previous, f)

def definitionFieldRoute : String := "/v1/admin/resource-definitions/{id}/fields/{fieldId}"

def presentationJson (f : ResourceField) : Json :=
  .ofMap [("label", .str f.label), ("required", .bool f.required)]

def updateField (audit : Auditor) (r : AdminRequest) (id fieldId : Option UUID)
    (body : Except Response UpdateFieldBody) : Tx Database Response Response := do
  let definitionId ← ofExcept (parseID id)
  let fieldId ← ofExcept (parseFieldID fieldId)
  let b ← ofExcept body
  auditedMutation audit r
    (fun _ => onCatalog (Change.updateField definitionId fieldId { b with
      label := Text.trimSpace b.label }))
    (fun x => some ⟨"definition.field_updated", "resource_field", fieldId.text,
      definitionFieldRoute, 200,
      .ofMap [("definition_id", definitionId.json), ("field_key", .str x.1.key),
        ("before", presentationJson x.1), ("after", presentationJson x.2)]⟩)
    (fun _ => pure ()) (fun x _ _ => writeJSON 200 (fieldJson x.2))

def Change.deleteField (definitionId fieldId : UUID) : Tx Catalog Response ResourceField := do
  let f ← readOr404 (Queries.getResourceField fieldId definitionId)
  deleteOr404 (Queries.removeField fieldId definitionId)
    (conflict "field is in use by tenant resources")
  pure f

def deleteField (audit : Auditor) (r : AdminRequest) (id fieldId : Option UUID) :
    Tx Database Response Response := do
  let definitionId ← ofExcept (parseID id)
  let fieldId ← ofExcept (parseFieldID fieldId)
  auditedMutation audit r (fun _ => onCatalog (Change.deleteField definitionId fieldId))
    (fun f => some ⟨"definition.field_deleted", "resource_field", fieldId.text,
      definitionFieldRoute, 204,
      .ofMap [("definition_id", definitionId.json), ("field_key", .str f.key)]⟩)
    (fun _ => pure ()) (fun _ _ _ => noContent)

end definitions

end Tenancit.Httpapi
