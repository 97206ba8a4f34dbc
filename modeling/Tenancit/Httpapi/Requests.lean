import Tenancit.Httpapi.ApiClientLifecycle
import Tenancit.Httpapi.Consumer

/-!
The mutating routes of `httpapi/server.go` on tenants, domains, definitions, fields,
resources, values and API clients, and what the server does with a request to one of them:
its transaction commits, or it is rolled back and the database stays as it was.
-/
namespace Tenancit.Httpapi

open Encoding Crypto Store Service

inductive Request where
  | createTenant (r : AdminRequest) (body : Except Response CreateTenantBody)
  | updateTenant (r : AdminRequest) (id : Option UUID) (body : Except Response UpdateTenantBody)
  | deleteTenant (r : AdminRequest) (id : Option UUID)
  | addDomain (r : AdminRequest) (id : Option UUID) (body : Except Response String)
  | updateDomain (r : AdminRequest) (id domainId : Option UUID) (body : Except Response String)
  | deleteDomain (r : AdminRequest) (id domainId : Option UUID)
  | createResource (r : AdminRequest) (id : Option UUID) (body : Except Response CreateResourceBody)
  | updateResourceIdentity (r : AdminRequest) (id resourceId : Option UUID)
      (body : Except Response ResourceIdentityBody)
  | duplicateResource (r : AdminRequest) (id resourceId : Option UUID)
      (body : Except Response String)
  | setResourceStatus (r : AdminRequest) (id resourceId : Option UUID)
      (body : Except Response String)
  | updateResourceField (r : AdminRequest) (id resourceId : Option UUID) (fieldKey : String)
      (body : Except Response String)
  | clearResourceFieldOverride (r : AdminRequest) (id resourceId : Option UUID) (fieldKey : String)
  | deleteResource (r : AdminRequest) (id resourceId : Option UUID)
  | createDefinition (r : AdminRequest) (body : Except Response CreateDefinitionBody)
  | updateDefinition (r : AdminRequest) (id : Option UUID)
      (body : Except Response UpdateDefinitionBody)
  | setDefinitionStatus (r : AdminRequest) (id : Option UUID) (body : Except Response String)
  | deleteDefinition (r : AdminRequest) (id : Option UUID)
  | addField (r : AdminRequest) (id : Option UUID) (body : Except Response AddFieldBody)
  | updateField (r : AdminRequest) (id fieldId : Option UUID)
      (body : Except Response UpdateFieldBody)
  | deleteField (r : AdminRequest) (id fieldId : Option UUID)
  | createAPIClient (r : AdminRequest) (body : Except Response ApiClientPolicyInput)
  | updateAPIClient (r : AdminRequest) (id : Option UUID)
      (body : Except Response ApiClientPolicyInput)
  | rotateAPIClient (r : AdminRequest) (id : Option UUID) (body : Except Response Int32)
  | revokeAPIClient (r : AdminRequest) (id : Option UUID)
  | deleteAPIClient (r : AdminRequest) (id : Option UUID)
  | consumerWriteValue (slug resourceAlias fieldKey : String) (body : Except Response String)

variable {Key : Type} {aead : Aead Key}

/-- The handler of a request, which audits as given. -/
def Request.handlerBy (audit : Auditor) (s : Server aead) : Request → Tx Database Response Response
  | .createTenant r body => Httpapi.createTenant audit s r body
  | .updateTenant r id body => Httpapi.updateTenant audit r id body
  | .deleteTenant r id => Httpapi.deleteTenant audit r id
  | .addDomain r id body => Httpapi.addDomain audit r id body
  | .updateDomain r id domainId body => Httpapi.updateDomain audit r id domainId body
  | .deleteDomain r id domainId => Httpapi.deleteDomain audit r id domainId
  | .createResource r id body => Httpapi.createResource audit s r id body
  | .updateResourceIdentity r id resourceId body =>
    Httpapi.updateResourceIdentity audit r id resourceId body
  | .duplicateResource r id resourceId body =>
    Httpapi.duplicateResource audit s r id resourceId body
  | .setResourceStatus r id resourceId body => Httpapi.setResourceStatus audit r id resourceId body
  | .updateResourceField r id resourceId fieldKey body =>
    Httpapi.updateResourceField audit s r id resourceId fieldKey body
  | .clearResourceFieldOverride r id resourceId fieldKey =>
    Httpapi.clearResourceFieldOverride audit r id resourceId fieldKey
  | .deleteResource r id resourceId => Httpapi.deleteResource audit r id resourceId
  | .createDefinition r body => Httpapi.createDefinition audit r body
  | .updateDefinition r id body => Httpapi.updateDefinition audit r id body
  | .setDefinitionStatus r id body => Httpapi.setDefinitionStatus audit r id body
  | .deleteDefinition r id => Httpapi.deleteDefinition audit r id
  | .addField r id body => Httpapi.addField audit r id body
  | .updateField r id fieldId body => Httpapi.updateField audit r id fieldId body
  | .deleteField r id fieldId => Httpapi.deleteField audit r id fieldId
  | .createAPIClient r body => Httpapi.createAPIClient audit s r body
  | .updateAPIClient r id body => Httpapi.updateAPIClient audit r id body
  | .rotateAPIClient r id body => Httpapi.rotateAPIClient audit s r id body
  | .revokeAPIClient r id => Httpapi.revokeAPIClient audit r id
  | .deleteAPIClient r id => Httpapi.deleteAPIClient audit r id
  | .consumerWriteValue slug resourceAlias fieldKey body =>
    Httpapi.handleConsumerWriteValue s slug resourceAlias fieldKey body

/-- The handler of a request. -/
def Request.handler (s : Server aead) (x : Request) : Tx Database Response Response :=
  x.handlerBy insertAdminAuditSuccess s

/-- Serve a request: the ticks stand for what its statements read, in their order. -/
def serve (s : Server aead) (request : Request) (ticks : List Tick) (d : Database) :
    Program.Outcome Response Database :=
  Program.transact (request.handler s) ticks d

/-- One request of a run, with the server that takes it. -/
structure Served {Key : Type} (aead : Aead Key) where
  server : Server aead
  request : Request
  ticks : List Tick

/-- The database after a request. -/
def Served.after (x : Served aead) (d : Database) : Database :=
  (serve x.server x.request x.ticks d).store

/-- The step of a run of requests. -/
def Served.Step (d : Database) (x : Served aead) (d' : Database) : Prop := d' = x.after d

theorem Served.committed {x : Served aead} {d : Database}
    (h : (serve x.server x.request x.ticks d).committed = true) :
    ∃ res ts', x.request.handler x.server x.ticks d = .ok (res, ts', x.after d) :=
  Program.transact_committed h

/-- A request that does not commit changes nothing. -/
theorem Served.rolled_back {x : Served aead} {d : Database}
    (h : (serve x.server x.request x.ticks d).committed = false) : x.after d = d :=
  Program.transact_rolled_back h

end Tenancit.Httpapi
