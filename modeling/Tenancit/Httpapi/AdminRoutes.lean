import Tenancit.Httpapi.AdminRead
import Tenancit.Httpapi.AdminSession
import Tenancit.Httpapi.CatalogRequests

/-!
The routes of `/v1/admin` in `httpapi/server.go` on tenants, domains, definitions, fields,
resources, values and API clients, and the chain of middlewares before them: who calls, the proof
against cross-site requests, the permission of the route, and `AuditAdminFailures` around all
of it.
-/
namespace Tenancit.Httpapi

open Encoding Crypto Store Text Adminauth Service
open Program.Tx (ofExcept)

/-- A line of `Routes`, with the prefix of its group. -/
structure Route where
  method : String
  pattern : String
  permission : AdminPermission

def Request.route : Request → Option Route
  | .createTenant .. => some ⟨"POST", "/v1/admin/tenants", .tenantWrite⟩
  | .updateTenant .. => some ⟨"PUT", "/v1/admin/tenants/{id}", .tenantWrite⟩
  | .deleteTenant .. => some ⟨"DELETE", "/v1/admin/tenants/{id}", .tenantHardDelete⟩
  | .addDomain .. => some ⟨"POST", "/v1/admin/tenants/{id}/domains", .tenantWrite⟩
  | .updateDomain .. => some ⟨"PUT", "/v1/admin/tenants/{id}/domains/{domainId}", .tenantWrite⟩
  | .deleteDomain .. => some ⟨"DELETE", "/v1/admin/tenants/{id}/domains/{domainId}", .tenantWrite⟩
  | .createResource .. => some ⟨"POST", "/v1/admin/tenants/{id}/resources", .resourceWrite⟩
  | .updateResourceIdentity .. =>
    some ⟨"PATCH", "/v1/admin/tenants/{id}/resources/{resourceId}", .resourceWrite⟩
  | .duplicateResource .. =>
    some ⟨"POST", "/v1/admin/tenants/{id}/resources/{resourceId}/duplicate", .resourceWrite⟩
  | .setResourceStatus .. =>
    some ⟨"PUT", "/v1/admin/tenants/{id}/resources/{resourceId}/status", .resourceWrite⟩
  | .updateResourceField .. =>
    some ⟨"PUT", "/v1/admin/tenants/{id}/resources/{resourceId}/fields/{fieldKey}", .resourceWrite⟩
  | .clearResourceFieldOverride .. =>
    some ⟨"DELETE", "/v1/admin/tenants/{id}/resources/{resourceId}/fields/{fieldKey}",
      .resourceWrite⟩
  | .deleteResource .. =>
    some ⟨"DELETE", "/v1/admin/tenants/{id}/resources/{resourceId}", .resourceWrite⟩
  | .createDefinition .. => some ⟨"POST", "/v1/admin/resource-definitions", .resourceWrite⟩
  | .updateDefinition .. => some ⟨"PATCH", "/v1/admin/resource-definitions/{id}", .resourceWrite⟩
  | .setDefinitionStatus .. =>
    some ⟨"PUT", "/v1/admin/resource-definitions/{id}/status", .resourceWrite⟩
  | .deleteDefinition .. => some ⟨"DELETE", "/v1/admin/resource-definitions/{id}", .resourceWrite⟩
  | .addField .. => some ⟨"POST", "/v1/admin/resource-definitions/{id}/fields", .resourceWrite⟩
  | .updateField .. =>
    some ⟨"PATCH", "/v1/admin/resource-definitions/{id}/fields/{fieldId}", .resourceWrite⟩
  | .deleteField .. =>
    some ⟨"DELETE", "/v1/admin/resource-definitions/{id}/fields/{fieldId}", .resourceWrite⟩
  | .createAPIClient .. => some ⟨"POST", "/v1/admin/api-clients", .apiClientManage⟩
  | .updateAPIClient .. => some ⟨"PATCH", "/v1/admin/api-clients/{id}", .apiClientManage⟩
  | .rotateAPIClient .. => some ⟨"POST", "/v1/admin/api-clients/{id}/rotate", .apiClientManage⟩
  | .revokeAPIClient .. => some ⟨"POST", "/v1/admin/api-clients/{id}/revoke", .apiClientManage⟩
  | .deleteAPIClient .. => some ⟨"DELETE", "/v1/admin/api-clients/{id}", .apiClientManage⟩
  | .consumerWriteValue .. => none

/-- The routes that read. A report on usage comes with what its statement finds in
`api_client_usage_daily`, to which no administrative request writes. -/
inductive AdminRead where
  | listTenants
  | getTenant (id : Option UUID)
  | listTenantDomains (id : Option UUID)
  | listTenantResources (id : Option UUID)
  | listDefinitions
  | getDefinition (id : Option UUID)
  | listAPIClients
  | listAPIClientUsage (id : Option UUID) (q : UsageQuery) (daily : List Usage.DailyUsage)
  | listAPIClientUsageOverview (q : UsageQuery) (daily : List Usage.DailyUsage)

def AdminRead.route : AdminRead → Route
  | listTenants => ⟨"GET", "/v1/admin/tenants", .adminRead⟩
  | getTenant _ => ⟨"GET", "/v1/admin/tenants/{id}", .adminRead⟩
  | listTenantDomains _ => ⟨"GET", "/v1/admin/tenants/{id}/domains", .adminRead⟩
  | listTenantResources _ => ⟨"GET", "/v1/admin/tenants/{id}/resources", .adminRead⟩
  | listDefinitions => ⟨"GET", "/v1/admin/resource-definitions", .adminRead⟩
  | getDefinition _ => ⟨"GET", "/v1/admin/resource-definitions/{id}", .adminRead⟩
  | listAPIClients => ⟨"GET", "/v1/admin/api-clients", .adminRead⟩
  | listAPIClientUsage .. => ⟨"GET", "/v1/admin/api-clients/{id}/usage", .adminRead⟩
  | listAPIClientUsageOverview .. => ⟨"GET", "/v1/admin/api-client-usage", .adminRead⟩

/-- What is called, before it is known by whom. -/
inductive AdminCall where
  | write (request : AdminRequest → Request) (route : Route)
      (sent : ∀ r, (request r).sender = some r)
      (routed : ∀ r, (request r).route = some route)
  | read (read : AdminRead)

def AdminCall.route : AdminCall → Route
  | write _ route _ _ => route
  | read r => r.route

variable {Key : Type} {aead : Aead Key}

def AdminCall.handler (s : Server aead) (r : AdminRequest) (reveal : Bool) :
    AdminCall → Tx Database Response Response
  | write request _ _ _ => (request r).handler s
  | read .listTenants => Httpapi.listTenants
  | read (.getTenant id) => Httpapi.getTenant id
  | read (.listTenantDomains id) => Httpapi.listTenantDomains id
  | read (.listTenantResources id) => Httpapi.listTenantResources s r id reveal
  | read .listDefinitions => Httpapi.listDefinitions
  | read (.getDefinition id) => Httpapi.getDefinition id
  | read .listAPIClients => Httpapi.listAPIClients
  | read (.listAPIClientUsage id q daily) => Httpapi.listAPIClientUsage id q daily
  | read (.listAPIClientUsageOverview q daily) => Httpapi.listAPIClientUsageOverview q daily

/-- A request that the router has dispatched, with the configuration it meets: `oidc` is the mode
with sessions, `now` the reading of the clock of `Authenticate`, the ticks stand for what the
statements of the handler read, and the last for the statement of `AuditAdminFailures`, where it
does not fail. -/
structure Visit {Key : Type} (aead : Aead Key) where
  cfg : AdminConfig aead
  oidc : Bool
  policy : Policy
  now : Nanoseconds
  head : RequestHead
  idempotencyKey : Option UUID
  call : AdminCall
  dispatched : head.method = call.route.method
  ticks : List Tick
  auditTick : Option Tick

structure AdminWorld where
  database : Database := {}
  sessions : List AdminSession := []

/-- `RequireAdminIdentity`, or `RequireAdminToken` where there are no sessions. -/
def Visit.identify (x : Visit aead) (rows : List AdminSession) :
    Except Response AdminPrincipal × List AdminSession :=
  if x.oidc then requireAdminIdentity x.cfg x.policy x.now x.head rows
    else (requireAdminToken x.cfg x.head, rows)

/-- The route as chi knows it before it has looked inside the group. -/
def groupPattern : String := "/v1/admin/*"

/-- A refusal, with the route as far as it is known by then. -/
def refusal (route : String) (answer : Except Response Unit) : Except (Response × String) Unit :=
  answer.mapError fun res => (res, route)

/-- `RequireAdminCSRF`, before the group of routes. -/
def Visit.passGroup (x : Visit aead) (value : AdminPrincipal) : Except Response Unit :=
  if x.oidc then requireAdminCSRF x.cfg x.head value else .ok ()

/-- The permission of the one route that has a second one. -/
def Visit.passSecrets (x : Visit aead) (value : AdminPrincipal) : Except Response Unit :=
  match x.call with
  | .read (.listTenantResources _) => requireSecretRevealPermission x.head value
  | _ => .ok ()

/-- What a caller who is known has still to pass. -/
def Visit.authorize (x : Visit aead) (value : AdminPrincipal) :
    Except (Response × String) Unit := do
  refusal groupPattern (x.passGroup value)
  refusal x.call.route.pattern (requireAdminPermission x.call.route.permission value)
  refusal x.call.route.pattern (x.passSecrets value)

/-- The actor of an audit row: kind, issuer, subject and label. -/
structure AuditActor where
  kind : String
  issuer : Option String
  subject : String
  label : Option String
  deriving DecidableEq

def Principal.actor (p : Principal) : AuditActor :=
  ⟨p.kind.text, optionalString p.issuer, p.subject, optionalString p.label⟩

/-- Who is named for a request that is refused or fails: the principal found out, else the bearer of
the shared token. -/
def Visit.failureActor (x : Visit aead) : Option AdminPrincipal → AuditActor
  | some p => p.toPrincipal.actor
  | none =>
    if x.head.bearer ≠ "" ∧ hashAPIKey x.cfg.sha256 x.head.bearer = x.cfg.adminTokenHash then
      ⟨"shared_admin_token", none, "primary", none⟩
    else ⟨"unauthenticated", none, "anonymous", none⟩

/-- The row of `AuditAdminFailures`. -/
def Visit.outcomeParams (x : Visit aead) (actor : AuditActor) (action result route : String)
    (status : Int) : Queries.InsertAdminAuditEventParams where
  requestId := x.head.requestId
  actorKind := actor.kind
  actorIssuer := actor.issuer
  actorSubject := actor.subject
  actorLabel := actor.label
  action := action
  targetType := "admin_route"
  targetId := route
  result := result
  httpMethod := x.head.method
  routeTemplate := route
  httpStatus := (Int16.ofInt status).toInt.toNat
  errorCode := none
  metadata := .obj []

/-- `InsertAdminAuditEvent` outside of a transaction: where it fails the request goes on. -/
def insertBestEffort (arg : Queries.InsertAdminAuditEventParams) (t : Option Tick)
    (s : EventTables) : EventTables :=
  match t with
  | none => s
  | some t => match Queries.insertAdminAuditEvent arg t s with
    | .ok (_, s') => s'
    | .error _ => s

/-- The row of a request of the break-glass principal that is answered without an error. -/
def Visit.breakGlassParams (x : Visit aead) (p : AdminPrincipal) (route : String) (status : Int) :=
  x.outcomeParams ⟨p.kind.text, none, p.subject, none⟩ "break_glass.request_succeeded"
    "success" route status

/-- The row of a request that is refused or fails. -/
def Visit.failureParams (x : Visit aead) (capture : Option AdminPrincipal) (route : String)
    (status : Int) :=
  if status = 401 ∨ status =
    403 then x.outcomeParams (x.failureActor capture) "admin.request_denied" "denied" route status
  else x.outcomeParams (x.failureActor capture) "admin.request_failed" "error" route status

/-- What `AuditAdminFailures` adds once the request is answered. -/
def Visit.auditOutcome (x : Visit aead) (capture : Option AdminPrincipal) (route : String)
    (status : Int) (s : EventTables) : EventTables :=
  if 400 ≤ status then insertBestEffort (x.failureParams capture route status) x.auditTick s
  else match capture with
    | some p =>
      if p.kind = .breakGlass
        then insertBestEffort (x.breakGlassParams p route status) x.auditTick s else s
    | none => s

/-- What the handler knows of its request. -/
def Visit.request (x : Visit aead) (p : AdminPrincipal) : AdminRequest :=
  ⟨x.head.requestId, some p.toPrincipal, x.head.method, x.idempotencyKey⟩

/-- The handler's run. -/
def Visit.handle (x : Visit aead) (p : AdminPrincipal) (d : Database) :
    Program.Outcome Response Database :=
  Program.transact (x.call.handler x.cfg.toServer (x.request p) (x.head.reveal = "true")) x.ticks d

/-- How far a request got: refused before or after it was known who calls, or handled. -/
inductive Passage where
  | refused (capture : Option AdminPrincipal) (res : Response) (route : String)
  | handled (p : AdminPrincipal)

def Visit.passage (x : Visit aead) (rows : List AdminSession) : Passage :=
  match (x.identify rows).1 with
  | .error res => .refused none res groupPattern
  | .ok p => match x.authorize p with
    | .error (res, route) => .refused (some p) res route
    | .ok () => .handled p

/-- The answer to a request, and what is stored afterwards. -/
def Visit.serve (x : Visit aead) (w : AdminWorld) : Response × AdminWorld :=
  let sessions := (x.identify w.sessions).2
  match x.passage w.sessions with
  | .refused capture res route =>
    (res, ⟨{ w.database with
      events := x.auditOutcome capture route res.status w.database.events }, sessions⟩)
  | .handled p =>
    let o := x.handle p w.database
    (o.answer, ⟨{ o.store with
      events :=
        x.auditOutcome (some p) x.call.route.pattern o.answer.status o.store.events }, sessions⟩)

def Visit.after (x : Visit aead) (w : AdminWorld) : AdminWorld := (x.serve w).2

def Visit.Step (w : AdminWorld) (x : Visit aead) (w' : AdminWorld) : Prop := w' = x.after w

end Tenancit.Httpapi
