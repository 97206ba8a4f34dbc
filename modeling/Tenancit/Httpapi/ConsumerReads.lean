import Tenancit.Httpapi.Requests
import Tenancit.Service.Resolve

/-!
The handlers of `httpapi/consumer.go` that read: identify, resolve and resolve-one. Each of
their statements reads the store for itself; the middlewares in front of them read nothing
of the catalogue.
-/
namespace Tenancit.Httpapi

open Encoding Crypto Store Service
open Program.Tx (ofExcept require)

variable {Key : Type} {aead : Aead Key}

def secretResponseCacheControl : String := "private, no-store"

def identifyCacheControl : String := "private, no-cache"

/-- The answer with headers set before it is written. -/
def Response.withHeaders (hs : List (String × String)) (r : Response) : Response :=
  { r with headers := hs ++ r.headers }

def tenantNotFound : Response := writeError 404 "tenant not found"

/-- A missing tenant and one that is not available are answered alike. -/
def writeLookupError : ResolveError → Response
  | .notFound => tenantNotFound
  | .tenantUnavailable => tenantNotFound
  | .service _ => writeInternalError

def handleIdentify (s : Server aead) (hostname ifNoneMatch : String) :
    Tx Catalog Response Response := do
  require (hostname ≠ "") (badRequest "hostname required")
  let tenant ← (loadTenantByHostname hostname).mapErr writeLookupError
  let etag := identityETag s.sha256 tenant
  let headers := [("ETag", etag), ("Cache-Control", identifyCacheControl)]
  if ifNoneMatch ≠ "" ∧ ifNoneMatch = etag then pure ⟨304, headers, []⟩
  else pure ((writeJSON 200 (.obj [("tenantSlug", .str tenant.slug)])).withHeaders headers)

def valuesJson (values : List (String × String)) : Json :=
  .ofMap (values.map fun v => (v.1, .str v.2))

/-- A tenant without resources has `null` for its list. -/
def resolvedTenantJson (t : ResolvedTenant) : Json :=
  .obj [("tenantSlug", .str t.tenantSlug),
    ("resources", if t.resources = [] then .null else .arr (t.resources.map
    fun r => .obj [("alias", .str r.resourceAlias), ("definitionKey", .str r.definitionKey),
      ("values", valuesJson r.values)]))]

/-- The selector of a request to resolve: exactly one of its parameters. -/
def selector (hostname tenantId : String) : Except Response Selector :=
  if tenantId ≠ "" ∧ hostname ≠
    "" then .error (badRequest "provide only one of hostname or tenantId")
  else if tenantId ≠ "" then .ok (.tenantId tenantId)
  else if hostname ≠ "" then .ok (.hostname hostname)
  else .error (badRequest "hostname or tenantId required")

def loadTenant : Selector → Tx Catalog ResolveError Tenant
  | .hostname hostname => loadTenantByHostname hostname
  | .tenantId slug => resolverQuery (tenantBySlug slug)

/-- Where a tenant has no active resources nothing is read for their values. -/
def loadResolved (s : Server aead) (tenant : Tenant) (resources : List ResourceHeader) :
    Tx Catalog ServiceError ResolvedTenant :=
  if resources = [] then pure ⟨tenant.slug, []⟩
  else Program.Tx.query (.store .unavailable) (resolveTenant s.cryptor tenant resources)

def handleResolve (s : Server aead) (hostname tenantId ifNoneMatch : String) :
    Tx Catalog Response Response := do
  let sel ← ofExcept (selector hostname tenantId)
  let tenant ← (loadTenant sel).mapErr writeLookupError
  let tagged ← (Program.Tx.query (.store .unavailable) (version s.sha256 tenant)).mapErr
    fun _ => writeInternalError
  let headers := [("ETag", tagged.1), ("Cache-Control", secretResponseCacheControl)]
  if ifNoneMatch ≠ "" ∧ ifNoneMatch = tagged.1 then pure ⟨304, headers, []⟩
  else do
    let res ← (loadResolved s tenant tagged.2).mapErr fun _ =>
      writeInternalError.withHeaders headers
    pure ((writeJSON 200 (resolvedTenantJson res)).withHeaders headers)

/-- The answer of `handleResolve`, written out. -/
def writeAnswer : ResolveAnswer → Response
  | .failed status message => writeError status message
  | .notModified etag => ⟨304, [("ETag", etag), ("Cache-Control", secretResponseCacheControl)], []⟩
  | .resolved etag res => (writeJSON 200 (resolvedTenantJson res)).withHeaders
      [("ETag", etag), ("Cache-Control", secretResponseCacheControl)]

section resolve

open Program.Tx (bind_eq_ok bind_eq_error ofExcept_bind_eq_ok ofExcept_bind_eq_error
  mapErr_eq_ok mapErr_eq_error)

variable {s : Server aead} {hostname tenantId ifNoneMatch : String} {sel : Selector} {c : Catalog}
  {t : Tick} {ts : List Tick}

theorem query_cons {ε α : Type} {fault : ε} {f : Catalog → Except ε α} :
    (Program.Tx.query fault f : Tx Catalog ε α) (t :: ts) c = (f c).map fun a => (a, ts, c) := by
  show ((f c).map _).map _ = _
  cases f c <;> rfl

theorem loadTenant_cons :
    loadTenant sel (t :: ts) c = (selectTenant sel c).map fun a => (a, ts, c) := by
  cases sel with
  | hostname hostname =>
    show loadTenantByHostname hostname (t :: ts) c = (tenantByHostname hostname c).map _
    by_cases hempty : canonicalHostname hostname = ""
    · have hnone : tenantByHostname hostname c = .error .notFound := by
        simp [tenantByHostname, hempty]
      rw [hnone, loadTenantByHostname, if_pos hempty]
      rfl
    · rw [loadTenantByHostname, if_neg hempty]
      exact query_cons
  | tenantId slug =>
    show resolverQuery (tenantBySlug slug) (t :: ts) c = _
    exact query_cons

theorem loadResolved_cons (tenant : Tenant) (resources : List ResourceHeader) :
    ∃ ts', loadResolved s tenant resources (t :: ts) c =
      (resolveTenant s.cryptor tenant resources c).map fun a => (a, ts', c) := by
  by_cases hnone : resources = []
  · subst hnone
    exact ⟨t :: ts, rfl⟩
  · rw [loadResolved, if_neg hnone]
    exact ⟨ts, query_cons⟩

/-- Where nothing comes between its statements, the handler answers as its reads of one catalogue
say; where these fail it may have set headers before. -/
theorem handleResolve_eq (hsel : selector hostname tenantId = .ok sel) (hts : 3 ≤ ts.length) :
    ∃ hs, (Program.transact (handleResolve s hostname tenantId ifNoneMatch) ts c).answer =
        (writeAnswer (Service.handleResolve s.sha256 s.cryptor sel ifNoneMatch c c c)).withHeaders
          hs ∧
      (hs ≠ [] → ∃ message, Service.handleResolve s.sha256 s.cryptor sel ifNoneMatch c c c =
        .failed 500 message) := by
  obtain ⟨t₁, t₂, t₃, ts, rfl⟩ : ∃ t₁ t₂ t₃ ts', ts = t₁ :: t₂ :: t₃ :: ts' := by
    match ts, hts with
    | t₁ :: t₂ :: t₃ :: ts, _ => exact ⟨t₁, t₂, t₃, ts, rfl⟩
  cases hload : selectTenant sel c with
  | error e =>
    have hrun : handleResolve s hostname tenantId ifNoneMatch (t₁ :: t₂ :: t₃ :: ts) c =
        .error (writeLookupError e) :=
      ofExcept_bind_eq_error.mpr (.inr ⟨sel, hsel, bind_eq_error.mpr (.inl (mapErr_eq_error.mpr
        ⟨e, by rw [loadTenant_cons, hload]; rfl, rfl⟩))⟩)
    rw [Program.transact_of_error hrun, Service.handleResolve, hload]
    cases e <;> exact ⟨[], rfl, fun h => absurd rfl h⟩
  | ok tenant =>
    have hloaded : ((loadTenant sel).mapErr writeLookupError) (t₁ :: t₂ :: t₃ :: ts) c =
        .ok (tenant, t₂ :: t₃ :: ts, c) :=
      mapErr_eq_ok.mpr (by rw [loadTenant_cons, hload]; rfl)
    cases hversion : version s.sha256 tenant c with
    | error e =>
      have hrun : handleResolve s hostname tenantId ifNoneMatch (t₁ :: t₂ :: t₃ :: ts) c =
          .error writeInternalError :=
        ofExcept_bind_eq_error.mpr (.inr ⟨sel, hsel, bind_eq_error.mpr (.inr ⟨_, _, _, hloaded,
          bind_eq_error.mpr (.inl
            (mapErr_eq_error.mpr ⟨e, by rw [query_cons, hversion]; rfl, rfl⟩))⟩)⟩)
      rw [Program.transact_of_error hrun]
      simp only [Service.handleResolve, hload, hversion]
      exact ⟨[], rfl, fun h => absurd rfl h⟩
    | ok tagged =>
      obtain ⟨etag, resources⟩ := tagged
      have htagged : ((Program.Tx.query (.store .unavailable) (version s.sha256 tenant)).mapErr
          fun _ => writeInternalError) (t₂ :: t₃ :: ts) c = .ok ((etag, resources), t₃ :: ts, c) :=
        mapErr_eq_ok.mpr (by rw [query_cons, hversion]; rfl)
      by_cases hmatch : ifNoneMatch ≠ "" ∧ ifNoneMatch = etag
      · have hrun : handleResolve s hostname tenantId ifNoneMatch (t₁ :: t₂ :: t₃ :: ts) c =
            .ok (writeAnswer (.notModified etag), t₃ :: ts, c) :=
          ofExcept_bind_eq_ok.mpr ⟨sel, hsel, bind_eq_ok.mpr ⟨_, _, _, hloaded,
            bind_eq_ok.mpr ⟨_, _, _, htagged, by rw [if_pos hmatch]; rfl⟩⟩⟩
        rw [Program.transact_of_ok hrun]
        simp only [Service.handleResolve, hload, hversion, if_pos hmatch]
        exact ⟨[], rfl, fun h => absurd rfl h⟩
      · obtain ⟨ts', hresolved⟩ : ∃ ts', loadResolved s tenant resources (t₃ :: ts) c =
            (resolveTenant s.cryptor tenant resources c).map fun a => (a, ts', c) :=
          loadResolved_cons tenant resources
        cases hres : resolveTenant s.cryptor tenant resources c with
        | error e =>
          rw [hres] at hresolved
          have hrun : handleResolve s hostname tenantId ifNoneMatch (t₁ ::
            t₂ :: t₃ :: ts) c = .error
              (writeInternalError.withHeaders [("ETag", etag),
                ("Cache-Control", secretResponseCacheControl)]) :=
            ofExcept_bind_eq_error.mpr (.inr ⟨sel, hsel, bind_eq_error.mpr (.inr ⟨_, _, _, hloaded,
              bind_eq_error.mpr (.inr ⟨_, _, _, htagged, by
                rw [if_neg hmatch]
                exact bind_eq_error.mpr (.inl (mapErr_eq_error.mpr ⟨e, hresolved, rfl⟩))⟩)⟩)⟩)
          rw [Program.transact_of_error hrun]
          simp only [Service.handleResolve, hload, hversion, if_neg hmatch, hres]
          exact ⟨_, rfl, fun _ => ⟨_, rfl⟩⟩
        | ok res =>
          rw [hres] at hresolved
          have hrun : handleResolve s hostname tenantId ifNoneMatch (t₁ :: t₂ :: t₃ :: ts) c =
              .ok (writeAnswer (.resolved etag res), ts', c) :=
            ofExcept_bind_eq_ok.mpr ⟨sel, hsel, bind_eq_ok.mpr ⟨_, _, _, hloaded,
              bind_eq_ok.mpr ⟨_, _, _, htagged, by
                rw [if_neg hmatch]
                exact bind_eq_ok.mpr ⟨res, ts', c, mapErr_eq_ok.mpr hresolved, rfl⟩⟩⟩⟩
          rw [Program.transact_of_ok hrun]
          simp only [Service.handleResolve, hload, hversion, if_neg hmatch, hres]
          exact ⟨[], rfl, fun h => absurd rfl h⟩

end resolve

def resolvedResourceJson (r : ResolvedTenantResource) : Json :=
  .obj [("tenantSlug", .str r.tenantSlug), ("alias", .str r.resourceAlias),
    ("definitionKey", .str r.definitionKey),
    ("values", valuesJson r.values)]

def handleResolveOne (s : Server aead) (hostname resourceAlias : String) :
    Tx Catalog Response Response := do
  let found ← (byHostnameAndAlias s.cryptor hostname resourceAlias).mapErr writeLookupError
  match found with
  | none => Program.Tx.fail (writeError 404 "resource not found")
  | some res => pure ((writeJSON 200 (resolvedResourceJson res)).withHeaders
      [("Cache-Control", secretResponseCacheControl)])

/-- The requests of consumers that address one tenant. -/
inductive ConsumerRequest where
  | identify (hostname ifNoneMatch : String)
  | resolve (hostname tenantId ifNoneMatch : String)
  | resolveOne (hostname resourceAlias : String)
  | writeValue (slug resourceAlias fieldKey : String) (body : Except Response String)

def ConsumerRequest.handler (s : Server aead) : ConsumerRequest → Tx Database Response Response
  | .identify hostname ifNoneMatch => onDomain (onCatalog (handleIdentify s hostname ifNoneMatch))
  | .resolve hostname tenantId ifNoneMatch =>
    onDomain (onCatalog (handleResolve s hostname tenantId ifNoneMatch))
  | .resolveOne hostname resourceAlias =>
    onDomain (onCatalog (handleResolveOne s hostname resourceAlias))
  | .writeValue slug resourceAlias fieldKey body =>
    handleConsumerWriteValue s slug resourceAlias fieldKey body

/-- Serve a request of an authenticated consumer that holds the scope it needs. -/
def serveConsumer (s : Server aead) (x : ConsumerRequest) (ticks : List Tick) (d : Database) :
    Program.Outcome Response Database :=
  Program.transact (x.handler s) ticks d

end Tenancit.Httpapi
