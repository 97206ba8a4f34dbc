import Tenancit.Httpapi.ConsumerReads
import Tenancit.Httpapi.Pages
import Tenancit.Usage.Retention

/-!
The handlers of `httpapi/{admin_read,api_client_usage}.go`, and those of `admin.go` and
`admin_actions.go` that read. Each of their statements reads the store for itself; a listing that
reveals secrets adds an audit entry in a transaction of its own.
-/
namespace Tenancit.Httpapi

open Encoding Crypto Store Service Usage
open Program.Tx (draw ofExcept)

variable {Key : Type} {aead : Aead Key}

/-- Read the catalogue for an answer; what goes wrong is an internal error. -/
def query {α : Type} (f : Catalog → Except PgError α) : Tx Database Response α :=
  onDomain (onCatalog ((read f).mapErr fun _ => writeInternalError))

/-- Read one row for an answer. -/
def queryOne {α : Type} (f : Catalog → Except PgError α) : Tx Database Response α :=
  onDomain (onCatalog ((read f).mapErr fun
    | .noRows => writeNotFound
    | _ => writeInternalError))

/-- A query of the catalogue that succeeds draws one tick and changes nothing. -/
theorem onCatalog_query_eq_ok {ε α : Type} {fault : ε} {f : Catalog → Except ε α} {k : ε → Response}
    {a : α} {ts ts' : List Tick} {d d' : Database} :
    onDomain (onCatalog ((Program.Tx.query fault f).mapErr k)) ts d = .ok (a, ts', d') ↔
      ∃ t, ts = t :: ts' ∧ f d.domain.catalog = .ok a ∧ d' = d := by
  constructor
  · intro h
    obtain ⟨dom, hdom, rfl⟩ := Program.Tx.onPart_eq_ok.mp h
    obtain ⟨c, hc, rfl⟩ := Program.Tx.onPart_eq_ok.mp hdom
    obtain ⟨t, rfl, hf, rfl⟩ := Program.Tx.query_eq_ok.mp (Program.Tx.mapErr_eq_ok.mp hc)
    exact ⟨t, rfl, hf, rfl⟩
  · rintro ⟨t, rfl, hf, rfl⟩
    refine Program.Tx.onPart_eq_ok.mpr ⟨d'.domain,
      Program.Tx.onPart_eq_ok.mpr ⟨d'.domain.catalog, ?_, rfl⟩, rfl⟩
    exact Program.Tx.mapErr_eq_ok.mpr (Program.Tx.query_eq_ok.mpr ⟨t, rfl, hf, rfl⟩)

/-- A list that is `null` where the query has found nothing. -/
def listJson {α : Type} (json : α → Json) (rows : List α) : Json :=
  if rows = [] then .null else .arr (rows.map json)

section tenants

/-- `ListTenants` -/
def tenantsByName (c : Catalog) : List Tenant := c.tenants.insertionSort fun t u => t.name ≤ u.name

def listTenants : Tx Database Response Response := do
  let ts ← query fun c => .ok (tenantsByName c)
  pure (writeJSON 200 (listJson tenantJson ts))

def getTenant (id : Option UUID) : Tx Database Response Response := do
  let id ← ofExcept (parseID id)
  let t ← queryOne (Queries.getTenant id)
  pure (writeJSON 200 (tenantJson t))

/-- `ListTenantDomains` -/
def domainsOf (id : UUID) (c : Catalog) : List TenantDomain :=
  (c.domains.filter fun d => d.tenantId = id).insertionSort fun d e => d.hostname ≤ e.hostname

def listTenantDomains (id : Option UUID) : Tx Database Response Response := do
  let id ← ofExcept (parseID id)
  let domains ← query fun c => .ok (domainsOf id c)
  pure (writeJSON 200 (.arr (domains.map domainJson)))

end tenants

section resources

def resourceFieldValueJson (f : ResourceFieldValue) : Json := .obj [("dataType", .str f.dataType),
  ("isSecret", .bool f.isSecret), ("key", .str f.key), ("label", .str f.label),
  ("required", .bool f.required),
  ("isOverride", .bool f.isOverride), ("origin", .str f.origin.text), ("value", .str f.value)]

/-- `adminResource` -/
def adminResourceJson (b : BuiltResourceFields) : Json :=
  let r := b.header.resource
  .obj ([("id", r.id.json), ("alias", .str r.resourceAlias)] ++
    (r.sourceResourceId.toList.map fun id => ("sourceResourceId", id.json)) ++
    (if b.header.sourceAlias = "" then [] else [("sourceAlias", .str b.header.sourceAlias)]) ++
    [("linked", .bool r.sourceResourceId.isSome), ("definitionKey", .str b.header.definitionKey),
      ("definitionId", r.resourceDefinitionId.json), ("name", .str r.displayName),
      ("status", .str r.status.text),
      ("fields", .arr (b.fields.map resourceFieldValueJson))])

/-- The headers set before a listing that reveals secrets. -/
def revealHeaders (reveal : Bool) : List (String × String) :=
  if reveal then [("Cache-Control", secretResponseCacheControl)] else []

/-- The keys of the secret fields shown, each once. -/
def secretKeys (built : List BuiltResourceFields) : List String :=
  (((built.flatMap fun b => b.fields).filter fun f => f.isSecret).map fun f => f.key).eraseDups

/-- The audit entry of secrets that were revealed. -/
def revealEntry (id : UUID) (built : List BuiltResourceFields) : AuditEntry :=
  ⟨"secret.revealed", "tenant", id.text, "/v1/admin/tenants/{id}/resources", 200,
    .ofMap [("resource_ids", .arr (built.map fun b => b.header.resource.id.json)),
      ("secret_field_keys", .arr ((secretKeys built).map .str)),
      ("resource_count", .num built.length),
      ("secret_field_count", .num (secretKeys built).length)]⟩

def auditReveal (audit : Auditor) (r : AdminRequest) (id : UUID)
    (built : List BuiltResourceFields) : Tx Database Response Unit := do
  let _ ← draw writeInternalError
  onEvents (audit r (revealEntry id built))
  let _ ← draw writeInternalError
  pure ()

/-- The resources of a tenant, active or not. Where it has none, no values are read. -/
def loadResources (s : Server aead) (id : UUID) (reveal : Bool) :
    Tx Database Response (List BuiltResourceFields) := do
  let headers ← query (loadResourceHeaders id true)
  if headers = [] then pure []
  else onDomain (onCatalog ((Program.Tx.query (.store .unavailable)
    (buildResourceFieldsBatch s.cryptor headers reveal)).mapErr fun _ => writeInternalError))

def listTenantResourcesBy (audit : Auditor) (s : Server aead) (r : AdminRequest) (id : Option UUID)
    (reveal : Bool) : Tx Database Response Response := do
  let id ← ofExcept (parseID id)
  Program.Tx.mapErr (do
    let built ← loadResources s id reveal
    if reveal then auditReveal audit r id built else pure ()
    pure ((writeJSON 200 (.arr (built.map adminResourceJson))).withHeaders (revealHeaders reveal)))
    (Response.withHeaders (revealHeaders reveal))

def listTenantResources (s : Server aead) (r : AdminRequest) (id : Option UUID) (reveal : Bool) :
    Tx Database Response Response := listTenantResourcesBy insertAdminAuditSuccess s r id reveal

end resources

section definitions

/-- `ListDefinitionsWithCounts`: a definition with the number of its fields and its secret ones. -/
def definitionsWithCounts (c : Catalog) : List (ResourceDefinition × Nat × Nat) :=
  (c.definitions.insertionSort fun d e => d.name ≤ e.name).map fun d =>
    let fields := c.fields.filter fun f => f.resourceDefinitionId = d.id
    (d, fields.length, fields.countP fun f => f.isSecret)

def definitionListItemJson (x : ResourceDefinition × Nat × Nat) : Json :=
  let d := x.1
  .obj [("id", d.id.json), ("key", .str d.key), ("name", .str d.name),
    ("description", .str d.description),
    ("icon", .str d.icon), ("status", .str d.status.text),
    ("created_at", Timestamp.json d.createdAt),
    ("updated_at", Timestamp.json d.updatedAt), ("fieldCount", .num x.2.1),
    ("secretCount", .num x.2.2)]

def listDefinitions : Tx Database Response Response := do
  let ds ← query fun c => .ok (definitionsWithCounts c)
  pure (writeJSON 200 (.arr (ds.map definitionListItemJson)))

def getDefinition (id : Option UUID) : Tx Database Response Response := do
  let id ← ofExcept (parseID id)
  let definition ← queryOne (Queries.getDefinition id)
  let fields ← query (Queries.listFields definition.id)
  pure (writeJSON 200 (.obj [("definition", definitionJson definition),
    ("fields", .arr (fields.map fieldJson))]))

end definitions

section clients

/-- Read the clients for an answer. -/
def queryClients {α : Type} (f : ClientTables → Except PgError α) : Tx Database Response α :=
  onDomain (onClients ((read f).mapErr fun _ => writeInternalError))

/-- `ListAPIClients` -/
def clientsByCreation (s : ClientTables) : List ApiClient :=
  s.clients.insertionSort fun c c' => c'.createdAt ≤ c.createdAt

/-- The loop of `listAPIClients`: the scopes of each client are read by a statement of their own. -/
def apiClientViews : List ApiClient → Tx Database Response (List Json)
  | [] => pure []
  | client :: cs => do
    let scopes ← queryClients (Queries.listAPIClientScopes client.id)
    let now ← draw writeInternalError
    let out ← apiClientViews cs
    pure (newAPIClientView client scopes now.clock :: out)

def listAPIClients : Tx Database Response Response := do
  let cs ← queryClients fun s => .ok (clientsByCreation s)
  let out ← apiClientViews cs
  pure (writeJSON 200 (.arr out))

/-- The parameters of a report on usage, empty where they are not given. -/
structure UsageQuery where
  first : String
  last : String
  limit : String

/-- A day that is given, or that of a time. -/
def usageDateParam (raw : String) (fallback : Int) : Option Int :=
  if raw = "" then some (utcDay fallback) else parseDate raw

/-- The first and the last day of a report. -/
def usageWindow (q : UsageQuery) (now : Timestamp) : Except Response (Int × Int) := do
  let first ← orError (badRequest "invalid from")
    (usageDateParam q.first (addDate (now * 1000) (-1)))
  let last ← orError (badRequest "invalid usage window") (usageDateParam q.last (now * 1000))
  if last < first ∨ 366 < last - first then .error (badRequest "invalid usage window")
  else .ok (first, last)

/-- The order of a report: the latest day first, and within a day by the name of the client, the
operation and the class of the status. -/
def ReportedBefore (name : DailyUsage → String) (r r' : DailyUsage) : Prop :=
  r'.key.day < r.key.day ∨ r'.key.day = r.key.day ∧ (name r < name r' ∨ name r = name r' ∧
    (r.key.operation < r'.key.operation ∨
      r.key.operation = r'.key.operation ∧ r.key.statusClass ≤ r'.key.statusClass))

instance (name : DailyUsage → String) : DecidableRel (ReportedBefore name) := fun _ _ =>
  inferInstanceAs (Decidable (_ ∨ _))

/-- The rows of a report. -/
def usageReport (name : DailyUsage → String) (first last : Int) (limit : Nat)
    (rows : List DailyUsage) : List DailyUsage :=
  ((rows.filter fun r => first ≤ r.key.day ∧ r.key.day ≤ last).insertionSort
    (ReportedBefore name)).take limit

def dailyUsageJson (r : DailyUsage) : List (String × Json) := [("day", .str (dateText r.key.day)),
  ("api_client_id", r.key.apiClientID.json), ("operation", .str r.key.operation),
  ("status_class", .num r.key.statusClass.toInt), ("request_count", .num r.count.requests),
  ("rate_limited_count", .num r.count.rateLimited)]

/-- `daily` is what the statement finds in `api_client_usage_daily`. -/
def listAPIClientUsage (id : Option UUID) (q : UsageQuery) (daily : List DailyUsage) :
    Tx Database Response Response := do
  let id ← ofExcept (parseID id)
  let now ← draw writeInternalError
  let window ← ofExcept (usageWindow q now.clock)
  let limit ← ofExcept (orError (badRequest "invalid limit") (pageLimit 200 1000 q.limit))
  let rows ← queryClients fun _ =>
    .ok (usageReport (fun _ => "") window.1 window.2 limit (daily.filter fun r =>
      r.key.apiClientID = id))
  pure (writeJSON 200 (.arr (rows.map fun r => .obj (dailyUsageJson r))))

/-- The name of the client of a row, or its identifier where the client is deleted. -/
def usageClientName (s : ClientTables) (r : DailyUsage) : String :=
  ((Table.lookup ApiClient.id r.key.apiClientID s.clients).map ApiClient.name).getD
    r.key.apiClientID.text

def listAPIClientUsageOverview (q : UsageQuery) (daily : List DailyUsage) :
    Tx Database Response Response := do
  let now ← draw writeInternalError
  let window ← ofExcept (usageWindow q now.clock)
  let rows ← queryClients fun s =>
    .ok ((usageReport (usageClientName s) window.1 window.2 1000 daily).map
    fun r => (r, usageClientName s r))
  pure (writeJSON 200 (.arr (rows.map fun r =>
    .obj (dailyUsageJson r.1 ++ [("client_name", .str r.2)]))))

end clients

end Tenancit.Httpapi
