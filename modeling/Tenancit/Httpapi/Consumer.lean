import Tenancit.Httpapi.Admin

/-! `handleConsumerWriteValue` of `httpapi/consumer.go`. -/
namespace Tenancit.Httpapi

open Encoding Crypto Store Service
open Program.Tx (draw require ofExcept)

variable {Key : Type} {aead : Aead Key}

/-- The resource a consumer names, read before the transaction begins. -/
def consumerTarget (slug resourceAlias fieldKey : String) :
    Tx Catalog Response (Tenant × TenantResource) := do
  let tenant ← (read (Queries.getTenantBySlug slug)).mapErr fun _ =>
    writeError 404 "tenant not found"
  let resource ← (read (Queries.getActiveResourceByTenantAndAlias tenant.id resourceAlias)).mapErr
    fun _ => writeError 404 "resource not found"
  let fields ← (read (Queries.listFields resource.resourceDefinitionId)).mapErr
    fun _ => writeInternalError
  match Table.lookup ResourceField.key fieldKey fields with
  | none => Program.Tx.fail (badRequest "unknown resource field")
  | some field => do
    require (field.isSecret = false) (writeError 403 "secret fields cannot be written by consumers")
    pure (tenant, resource)

def Change.consumerWriteValue (cryptor : Cryptor aead) (in_ : UpdateResourceFieldInput) :
    Tx Catalog Response ResourceField :=
  (updateResourceFieldInTx cryptor in_).mapErr fun
    | .unknownResource => writeError 404 "resource not found"
    | .missingRequiredField key => badRequest (ServiceError.missingRequiredField key).text
    | .invalidFieldValue key => badRequest (ServiceError.invalidFieldValue key).text
    | _ => writeInternalError

/-- Neither an audit entry nor an event is written. -/
def handleConsumerWriteValue (s : Server aead) (slug resourceAlias fieldKey : String)
    (body : Except Response String) : Tx Database Response Response := do
  ofExcept (if slug = "" ∨ resourceAlias = "" ∨ fieldKey = "" then
    .error (badRequest "slug, alias and fieldKey required") else .ok ())
  let value ← ofExcept body
  let target ← onDomain (onCatalog (consumerTarget slug resourceAlias fieldKey))
  let _ ← draw writeInternalError
  let _ ← onDomain (onCatalog (Change.consumerWriteValue s.cryptor ⟨fieldKey,
    target.2.id, target.1.id, value⟩))
  let _ ← draw writeInternalError
  pure noContent

end Tenancit.Httpapi
