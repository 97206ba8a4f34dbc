import Tenancit.Service.ResourceFields
import Tenancit.Service.Identity

/-!
`service/resolve.go` and the resolve handler of `httpapi/consumer.go`: the configuration of
a tenant with its entity tag. `sha256` is a parameter. Each function reads one snapshot;
the handler reads three, one for each of its steps.
-/
namespace Tenancit.Service

open Encoding Crypto Store Queries

variable {Key : Type} {aead : Aead Key}

structure ResolvedResource where
  resourceAlias : String
  definitionKey : String
  values : List (String × String)
  deriving DecidableEq

structure ResolvedTenant where
  tenantSlug : String
  resources : List ResolvedResource
  deriving DecidableEq

inductive ResolveError where
  | notFound
  | tenantUnavailable
  | service (err : ServiceError)
  deriving DecidableEq

/-- Only an active tenant is resolved. -/
def availableTenant : Except PgError Tenant → Except ResolveError Tenant
  | .ok tenant => if tenant.status = .active then .ok tenant else .error .tenantUnavailable
  | .error .noRows => .error .notFound
  | .error err => .error (.service (.store err))

def tenantByHostname (hostname : String) (c : Catalog) : Except ResolveError Tenant :=
  let hostname := canonicalHostname hostname
  if hostname = "" then .error .notFound else availableTenant (getTenantByHostname hostname c)

def tenantBySlug (slug : String) (c : Catalog) : Except ResolveError Tenant :=
  availableTenant (getTenantBySlug slug c)

/-- `sort.Slice` by the text of the resource identifier. -/
def sortHeaders (headers : List ResourceHeader) : List ResourceHeader :=
  headers.insertionSort fun a b => a.resource.id.text ≤ b.resource.id.text

/-- The octet of `':'`. -/
abbrev colon : UInt8 := 58

/-- The octet of `'\n'`. -/
abbrev newline : UInt8 := 10

/-- The line of the tenant: `t:%s:%s:%d:%d\n`. -/
def tenantLine (t : Tenant) (resources : Nat) : Bytes :=
  utf8 "t:" ++ (utf8 t.id.text ++ colon :: (utf8 t.slug ++ colon ::
    (decimal (Timestamp.unixNano t.updatedAt) ++ colon :: (decimal resources ++ [newline]))))

/-- The line of a source, whose identifier is written as its sixteen octets: `s:%s:%d\n`. -/
def sourceLine (updatedAt : Timestamp) : Option UUID → Bytes
  | none => []
  | some source => utf8 "s:" ++ (source.octets ++ colon ::
      (decimal (Timestamp.unixNano updatedAt) ++ [newline]))

/-- The lines of a resource: `r:%s:%s:%d:d:%s:%s:%d\n` and that of its source. -/
def headerLines (h : ResourceHeader) : Bytes :=
  utf8 "r:" ++ (utf8 h.resource.id.text ++ colon :: (utf8 h.resource.status.text ++ colon ::
    (decimal (Timestamp.unixNano h.resource.updatedAt) ++ (utf8 ":d:" ++
      (utf8 h.resource.resourceDefinitionId.text ++ colon :: (utf8 h.definitionKey ++ colon ::
        (decimal (Timestamp.unixNano h.definitionUpdatedAt) ++ newline ::
          sourceLine h.sourceUpdatedAt h.resource.sourceResourceId)))))))

/-- What `computeETag` hashes. -/
def etagPreimage (t : Tenant) (headers : List ResourceHeader) : Bytes :=
  tenantLine t headers.length ++ (sortHeaders headers).flatMap headerLines

/-- The times are those of the rows, which PostgreSQL keeps in whole microseconds, as
nanoseconds. -/
def computeETag (sha256 : Bytes → Bytes) (t : Tenant) (headers : List ResourceHeader) : String :=
  "\"" ++ hexEncode (sha256 (etagPreimage t headers)) ++ "\""

/-- `IdentityETag`: what is hashed is `id:%s:%s:%d\n`. -/
def identityETag (sha256 : Bytes → Bytes) (t : Tenant) : String :=
  "\"" ++ hexEncode (sha256 (utf8 "id:" ++ (utf8 t.id.text ++ colon :: (utf8 t.slug ++ colon ::
    (decimal (Timestamp.unixNano t.updatedAt) ++ [newline]))))) ++ "\""

/-- `Resolver.Version`: the tag, and the active resources it was computed from. -/
def version (sha256 : Bytes → Bytes) (tenant : Tenant) (c : Catalog) :
    Except ServiceError (String × List ResourceHeader) :=
  match loadResourceHeaders tenant.id false c with
  | .error err => .error (.store err)
  | .ok headers => .ok (computeETag sha256 tenant headers, headers)

/-- `rr.Values[field.Key] = field.Value`, over the fields in order. -/
def fieldMap (fields : List ResourceFieldValue) : List (String × String) :=
  fields.map fun f => (f.key, f.value)

def resolveTenant (cryptor : Cryptor aead) (tenant : Tenant) (headers : List ResourceHeader)
    (c : Catalog) : Except ServiceError ResolvedTenant :=
  (buildResourceFieldsBatch cryptor headers true c).map fun built =>
    ⟨tenant.slug, built.map fun b =>
    ⟨b.header.resource.resourceAlias, b.header.definitionKey, fieldMap b.fields⟩⟩

structure ResolvedTenantResource where
  tenantSlug : String
  resourceAlias : String
  definitionKey : String
  values : List (String × String)
  deriving DecidableEq

/-- A statement of the resolver, whose own errors stand for those of the database. -/
def resolverQuery {α : Type} (f : Catalog → Except ResolveError α) : Tx Catalog ResolveError α :=
  Program.Tx.query (.service (.store .unavailable)) f

/-- A row that is missing is reported as the tenant's absence is. -/
def pgError : PgError → ResolveError
  | .noRows => .notFound
  | err => .service (.store err)

/-- A hostname that has no canonical form is not looked up. -/
def loadTenantByHostname (hostname : String) : Tx Catalog ResolveError Tenant :=
  if canonicalHostname hostname = "" then Program.Tx.fail .notFound
  else resolverQuery (tenantByHostname hostname)

/-- `ByHostnameAndAlias`: nothing where the tenant has no active resource under the alias. -/
def byHostnameAndAlias (cryptor : Cryptor aead) (hostname resourceAlias : String) :
    Tx Catalog ResolveError (Option ResolvedTenantResource) := do
  let tenant ← loadTenantByHostname hostname
  let found ← resolverQuery fun c =>
    match getActiveResourceByTenantAndAlias tenant.id resourceAlias c with
    | .ok r => .ok (some r)
    | .error .noRows => .ok none
    | .error err => .error (.service (.store err))
  match found with
  | none => pure none
  | some r => do
    let row ← resolverQuery fun c => (getResourceHeader r.id c).mapError pgError
    let built ← resolverQuery fun c =>
      (buildResourceFieldsBatch cryptor [resourceHeaderFromRow row] true c).mapError .service
    pure (some ⟨tenant.slug, row.resource.resourceAlias, row.definitionKey,
      fieldMap (built.flatMap fun b => b.fields)⟩)

/-- How a request to resolve names the tenant. -/
inductive Selector where
  | hostname (s : String)
  | tenantId (slug : String)

def selectTenant : Selector → Catalog → Except ResolveError Tenant
  | .hostname s, c => tenantByHostname s c
  | .tenantId slug, c => tenantBySlug slug c

/-- The answer of the resolve handler, before it is written out. -/
inductive ResolveAnswer where
  | failed (status : Nat) (message : String)
  | notModified (etag : String)
  | resolved (etag : String) (payload : ResolvedTenant)
  deriving DecidableEq

/-- `handleResolve` for a request with one selector: the tenant is read in `c₁`, its
resources in `c₂` and their values in `c₃`. -/
def handleResolve (sha256 : Bytes → Bytes) (cryptor : Cryptor aead) (selector : Selector)
    (ifNoneMatch : String) (c₁ c₂ c₃ : Catalog) : ResolveAnswer :=
  match selectTenant selector c₁ with
  | .error (.service _) => .failed 500 "internal error"
  | .error _ => .failed 404 "tenant not found"
  | .ok tenant =>
    match version sha256 tenant c₂ with
    | .error _ => .failed 500 "internal error"
    | .ok (etag, resources) =>
      if ifNoneMatch ≠ "" ∧ ifNoneMatch = etag then .notModified etag
      else match resolveTenant cryptor tenant resources c₃ with
        | .error _ => .failed 500 "internal error"
        | .ok res => .resolved etag res

end Tenancit.Service
