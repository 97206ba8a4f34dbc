import Tenancit.Httpapi.ConsumerReads
import Tenancit.Httpapi.Names
import Tenancit.Httpapi.ResolveTag

/-!
A tenant that is not active, seen by consumers: the endpoints that read answer as if it did
not exist; the value write does not look at its status.
-/
namespace Tenancit.Httpapi

open Encoding Crypto Store Service Queries Table
open Program

/-- The catalogue without a tenant and what belongs to it. -/
def without (id : UUID) (c : Catalog) : Catalog :=
  { c with
    tenants := delete (fun t => t.id = id) c.tenants
    domains := delete (fun d => d.tenantId = id) c.domains
    resources := delete (fun r => r.tenantId = id) c.resources
    values := delete (fun v => Gone (fun r => r.tenantId = id) c v.tenantResourceId) c.values }

def Database.without (id : UUID) (d : Database) : Database :=
  { d with domain := { d.domain with catalog := Httpapi.without id d.domain.catalog } }

/-- The resources of a tenant and their values. -/
def resourceData (id : UUID) (c : Catalog) : List TenantResource × List TenantResourceValue :=
  (c.resources.filter fun r => r.tenantId = id,
    c.values.filter fun v => Gone (fun r => r.tenantId = id) c v.tenantResourceId)

/-- The tenant a request names by its hostname or its slug. -/
def ConsumerRequest.Addresses (c : Catalog) (t : Tenant) : ConsumerRequest → Prop
  | .identify hostname _ => getTenantByHostname (canonicalHostname hostname) c = .ok t
  | .resolve hostname tenantId _ => getTenantBySlug tenantId c = .ok t ∧ hostname = "" ∨
      getTenantByHostname (canonicalHostname hostname) c = .ok t ∧ tenantId = ""
  | .resolveOne hostname _ => getTenantByHostname (canonicalHostname hostname) c = .ok t
  | .writeValue slug _ _ _ => getTenantBySlug slug c = .ok t

variable {Key : Type} {aead : Aead Key}

/-- The answer is that of the same request where the tenant does not exist, and so is what
becomes of everyone else's data; the tenant's own stay as they are. -/
structure Indistinguishable (s : Server aead) (x : ConsumerRequest) (ticks : List Tick)
    (d : Database) (id : UUID) : Prop where
  answer : (serveConsumer s x ticks d).answer =
    (serveConsumer s x ticks (Database.without id d)).answer
  others : Database.without id (serveConsumer s x ticks d).store =
    (serveConsumer s x ticks (Database.without id d)).store
  own : resourceData id (serveConsumer s x ticks d).store.domain.catalog =
    resourceData id d.domain.catalog

/-- The request is a value write that gets as far as looking its tenant up. -/
def ConsumerRequest.LooksUpToWrite (ticks : List Tick) : ConsumerRequest → Prop
  | .writeValue slug resourceAlias fieldKey body =>
    slug ≠ "" ∧ resourceAlias ≠ "" ∧ fieldKey ≠ "" ∧ (∃ value, body = .ok value) ∧ ticks ≠ []
  | _ => False

section lookups

variable {c : Catalog} {t : Tenant}

theorem getTenantBySlug_without {slug : String} (hc : c.Named)
    (h : getTenantBySlug slug c = .ok t) :
    getTenantBySlug slug (without t.id c) = .error .noRows := by
  have hfound : lookup Tenant.slug slug c.tenants = some t := one_eq_ok.mp h
  have hgone : lookup Tenant.slug slug (delete (fun x => x.id = t.id) c.tenants) = none := by
    rw [lookup_delete hc.slugs, hfound]
    simp
  show one (lookup Tenant.slug slug (delete (fun x => x.id = t.id) c.tenants)) = _
  rw [hgone]
  rfl

theorem getTenantByHostname_without {hostname : String} (hc : c.Named)
    (h : getTenantByHostname hostname c = .ok t) :
    getTenantByHostname hostname (without t.id c) = .error .noRows := by
  obtain ⟨dom, hdom, htenant⟩ := Option.bind_eq_some_iff.mp (one_eq_ok.mp h)
  have hid : t.id = dom.tenantId := key_of_lookup htenant
  have hgone : lookup TenantDomain.hostname hostname
      (delete (fun d => d.tenantId = t.id) c.domains) = none := by
    rw [lookup_delete hc.hostnames, hdom]
    simp [hid]
  show one ((lookup TenantDomain.hostname hostname
    (delete (fun d => d.tenantId = t.id) c.domains)).bind _) = _
  rw [hgone]
  rfl

end lookups

section reads

variable {c : Catalog} {t : Tenant} {ticks : List Tick}

/-- A hostname lookup fails alike for an inactive tenant and without it. -/
theorem loadTenantByHostname_alike {hostname : String} (hc : c.Named) (ht : t.status ≠ .active)
    (h : getTenantByHostname (canonicalHostname hostname) c = .ok t) :
    FailsAlike ((loadTenantByHostname hostname).mapErr writeLookupError) ticks c
      (without t.id c) := by
  unfold loadTenantByHostname
  split
  · exact ⟨tenantNotFound, rfl, rfl⟩
  next hname =>
    have hsame : writeLookupError .tenantUnavailable = writeLookupError .notFound := rfl
    refine FailsAlike.query ?_ ?_ hsame
    · simp only [tenantByHostname, if_neg hname, h, availableTenant, if_neg ht]
    · simp only [tenantByHostname, if_neg hname, getTenantByHostname_without hc h, availableTenant]

/-- A slug lookup fails alike for an inactive tenant and without it. -/
theorem tenantBySlug_alike {slug : String} (hc : c.Named) (ht : t.status ≠ .active)
    (h : getTenantBySlug slug c = .ok t) :
    FailsAlike ((resolverQuery (tenantBySlug slug)).mapErr writeLookupError) ticks c
      (without t.id c) := by
  have hsame : writeLookupError .tenantUnavailable = writeLookupError .notFound := rfl
  refine FailsAlike.query ?_ ?_ hsame
  · simp only [tenantBySlug, h, availableTenant, if_neg ht]
  · simp only [tenantBySlug, getTenantBySlug_without hc h, availableTenant]

theorem selector_eq_ok {hostname tenantId : String} {sel : Selector}
    (h : selector hostname tenantId = .ok sel) :
    sel = .tenantId tenantId ∧ tenantId ≠ "" ∨ sel = .hostname hostname ∧ hostname ≠ "" := by
  unfold selector at h
  split at h
  · cases h
  · split at h
    next hid =>
      cases h
      exact .inl ⟨rfl, hid⟩
    · split at h
      next hname =>
        cases h
        exact .inr ⟨rfl, hname⟩
      · cases h

variable {s : Server aead} {d d' : Database}

theorem onCatalog_alike {m : Store.Tx Catalog Response Response}
    (h : FailsAlike m ticks d.domain.catalog d'.domain.catalog) :
    FailsAlike (onDomain (onCatalog m)) ticks d d' :=
  FailsAlike.onPart (FailsAlike.onPart h)

theorem handleIdentify_alike {hostname ifNoneMatch : String} (hc : c.Named)
    (ht : t.status ≠ .active) (h : getTenantByHostname (canonicalHostname hostname) c = .ok t) :
    FailsAlike (handleIdentify s hostname ifNoneMatch) ticks c (without t.id c) := by
  unfold handleIdentify
  exact FailsAlike.require_bind fun _ => (loadTenantByHostname_alike hc ht h).bind

theorem handleResolve_alike {hostname tenantId ifNoneMatch : String} (hc : c.Named)
    (ht : t.status ≠ .active)
    (haddr : (ConsumerRequest.resolve hostname tenantId ifNoneMatch).Addresses c t) :
    FailsAlike (handleResolve s hostname tenantId ifNoneMatch) ticks c (without t.id c) := by
  unfold handleResolve
  refine FailsAlike.ofExcept_bind fun sel hsel => FailsAlike.bind ?_
  rcases selector_eq_ok hsel with ⟨rfl, hid⟩ | ⟨rfl, hname⟩
  · rcases haddr with ⟨h, -⟩ | ⟨-, h⟩
    · exact tenantBySlug_alike hc ht h
    · exact absurd h hid
  · rcases haddr with ⟨-, h⟩ | ⟨h, -⟩
    · exact absurd h hname
    · exact loadTenantByHostname_alike hc ht h

theorem handleResolveOne_alike {hostname resourceAlias : String} (hc : c.Named)
    (ht : t.status ≠ .active) (h : getTenantByHostname (canonicalHostname hostname) c = .ok t) :
    FailsAlike (handleResolveOne s hostname resourceAlias) ticks c (without t.id c) := by
  unfold handleResolveOne byHostnameAndAlias
  refine FailsAlike.bind ?_
  rw [Tx.mapErr_bind]
  exact (loadTenantByHostname_alike hc ht h).bind

/-- A value write that does not get to look its tenant up. -/
theorem handleConsumerWriteValue_alike {slug resourceAlias fieldKey : String}
    {body : Except Response String}
    (h : ¬(ConsumerRequest.writeValue slug resourceAlias fieldKey body).LooksUpToWrite ticks) :
    FailsAlike (handleConsumerWriteValue s slug resourceAlias fieldKey body) ticks d d' := by
  unfold handleConsumerWriteValue
  refine FailsAlike.ofExcept_bind fun _ hparams => FailsAlike.ofExcept_bind fun value hbody => ?_
  -- the parameters and the body are there, so the database is not
  have hnil : ticks = [] := by
    by_contra hne
    rw [ite_error_eq_ok] at hparams
    simp only [not_or] at hparams
    exact h ⟨hparams.1.1, hparams.1.2.1, hparams.1.2.2, ⟨value, hbody⟩, hne⟩
  subst hnil
  unfold consumerTarget
  exact FailsAlike.bind
    (FailsAlike.onPart (FailsAlike.onPart (FailsAlike.bind ⟨tenantNotFound, rfl, rfl⟩)))

/-- Every request that addresses an inactive tenant fails alike with it and without it, but
for the value write that looks its tenant up. -/
theorem ConsumerRequest.failsAlike {x : ConsumerRequest} (hd : d.domain.catalog.Named)
    (ht : t.status ≠ .active) (haddr : x.Addresses d.domain.catalog t)
    (hx : ¬x.LooksUpToWrite ticks) :
    FailsAlike (x.handler s) ticks d (Database.without t.id d) := by
  cases x with
  | identify hostname ifNoneMatch => exact onCatalog_alike (handleIdentify_alike hd ht haddr)
  | resolve hostname tenantId ifNoneMatch => exact onCatalog_alike (handleResolve_alike hd ht haddr)
  | resolveOne hostname resourceAlias => exact onCatalog_alike (handleResolveOne_alike hd ht haddr)
  | writeValue slug resourceAlias fieldKey body => exact handleConsumerWriteValue_alike hx

theorem serveConsumer_of_error {x : ConsumerRequest} {e : Response}
    (h : x.handler s ticks d = .error e) : serveConsumer s x ticks d = ⟨e, false, d⟩ := by
  unfold serveConsumer transact
  rw [h]

end reads

section writes

variable {s : Server aead} {slug resourceAlias fieldKey value : String} {tick : Tick}
  {ticks : List Tick} {d : Database} {t : Tenant}

/-- The answer is not that a tenant is missing. -/
def Found (r : Response) : Prop := r ≠ tenantNotFound

theorem found_of_status {r : Response} (h : r.status ≠ 404) :
    Found r := fun he => h (congrArg Response.status he)

theorem found_resource : Found (writeError 404 "resource not found") := by
  unfold Found
  decide +kernel

/-- What a value write may answer once its tenant is found. -/
theorem fails_consumerTarget {c : Catalog} {e : Response} (h : getTenantBySlug slug c = .ok t)
    (herr : consumerTarget slug resourceAlias fieldKey (tick :: ticks) c = .error e) : Found e := by
  rcases Tx.bind_eq_error.mp herr with herr | ⟨tenant, ts₁, c₁, -, herr⟩
  · obtain ⟨e', hread, -⟩ := Tx.mapErr_eq_error.mp herr
    obtain ⟨hnil, -⟩ | ⟨-, hread⟩ := Tx.query_eq_error.mp hread
    · cases hnil
    · rw [h] at hread
      cases hread
  · refine Fails.bind (Fails.mapErr fun _ => found_resource) (fun resource => ?_) _ _ _ herr
    refine Fails.bind (Fails.mapErr fun _ => found_of_status (by decide)) fun fields => ?_
    split
    · exact Fails.fail (found_of_status (by decide))
    · exact Fails.bind (Fails.require (found_of_status (by decide))) fun _ => Fails.pure _

theorem fails_consumerWriteValue {in_ : UpdateResourceFieldInput} :
    Fails Found (Change.consumerWriteValue s.cryptor in_) := by
  refine Fails.mapErr fun err => ?_
  cases err with
  | unknownResource => exact found_resource
  | missingRequiredField key | invalidFieldValue key =>
    exact found_of_status (show (400 : Int) ≠ 404 by decide)
  | store | crypto => exact found_of_status (show (500 : Int) ≠ 404 by decide)
  | _ => exact found_of_status (by decide)

/-- A write that finds its tenant, whatever the status, does not answer that it is missing. -/
theorem consumerWrite_found (h : getTenantBySlug slug d.domain.catalog = .ok t) (hslug : slug ≠ "")
    (halias : resourceAlias ≠ "") (hkey : fieldKey ≠ "") :
    Found (serveConsumer s (.writeValue slug resourceAlias fieldKey (.ok value)) (tick ::
      ticks) d).answer := by
  unfold serveConsumer transact
  cases hrun : ConsumerRequest.handler s (.writeValue slug resourceAlias fieldKey (.ok value))
    (tick :: ticks) d with
  | ok r =>
    obtain ⟨res, ts', d'⟩ := r
    obtain ⟨-, -, h₁⟩ := Tx.ofExcept_bind_eq_ok.mp hrun
    obtain ⟨_, -, h₂⟩ := Tx.ofExcept_bind_eq_ok.mp h₁
    obtain ⟨_, _, _, -, h₃⟩ := Tx.onPart_bind_eq_ok.mp h₂
    obtain ⟨_, _, -, h₄⟩ := Tx.draw_bind_eq_ok.mp h₃
    obtain ⟨_, _, _, -, h₅⟩ := Tx.onPart_bind_eq_ok.mp h₄
    obtain ⟨_, _, -, h₆⟩ := Tx.draw_bind_eq_ok.mp h₅
    cases Tx.pure_eq_ok.mp h₆
    exact found_of_status (show (204 : Int) ≠ 404 by decide)
  | error e =>
    rcases Tx.ofExcept_bind_eq_error.mp hrun with hparams | ⟨_, -, herr⟩
    · rw [if_neg (by simp [hslug, halias, hkey])] at hparams
      cases hparams
    rcases Tx.ofExcept_bind_eq_error.mp herr with hbody | ⟨_, -, herr⟩
    · cases hbody
    rcases Tx.bind_eq_error.mp herr with herr | ⟨target, ts₃, d₃, -, herr⟩
    · exact fails_consumerTarget h (Tx.onPart_eq_error.mp (Tx.onPart_eq_error.mp herr))
    refine Fails.bind (Fails.draw (found_of_status (by decide))) (fun _ => ?_) _ _ _ herr
    refine Fails.bind (Fails.onPart (Fails.onPart fails_consumerWriteValue)) fun _ => ?_
    exact Fails.bind (Fails.draw (found_of_status (by decide))) fun _ => Fails.pure _

/-- A write that does not find its tenant. -/
theorem consumerWrite_missing (h : getTenantBySlug slug d.domain.catalog = .error .noRows)
    (hslug : slug ≠ "") (halias : resourceAlias ≠ "") (hkey : fieldKey ≠ "") (hticks : ticks ≠ []) :
    serveConsumer s (.writeValue slug resourceAlias fieldKey (.ok value)) ticks d =
      ⟨tenantNotFound, false, d⟩ := by
  apply serveConsumer_of_error
  refine Tx.ofExcept_bind_eq_error.mpr (.inr ⟨(), if_neg (by simp [hslug, halias, hkey]), ?_⟩)
  refine Tx.ofExcept_bind_eq_error.mpr (.inr ⟨value, rfl, Tx.bind_eq_error.mpr (.inl ?_)⟩)
  refine Tx.onPart_eq_error.mpr (Tx.onPart_eq_error.mpr (Tx.bind_eq_error.mpr (.inl ?_)))
  exact Tx.mapErr_eq_error.mpr ⟨.noRows, Tx.query_eq_error.mpr (.inr ⟨hticks, h⟩), rfl⟩

end writes

section runs

variable {s : Server aead} {x : ConsumerRequest} {ticks : List Tick} {d : Database} {t : Tenant}

/-- In every reachable database a request that addresses a tenant that is not active is
answered as without the tenant, and touches no data of it, if and only if it is no value
write that looks its tenant up. -/
theorem inactive_tenant_indistinguishable_iff {xs : List (Served aead)}
    (hrun : Runs.Run Served.Step {} xs d) (ht : t.status ≠ .active)
    (haddr : x.Addresses d.domain.catalog t) :
    Indistinguishable s x ticks d t.id ↔ ¬x.LooksUpToWrite ticks := by
  have hd := named_run hrun
  constructor
  · intro h hlooks
    cases x with
    | identify | resolve | resolveOne => exact hlooks
    | writeValue slug resourceAlias fieldKey body =>
      obtain ⟨hslug, halias, hkey, ⟨value, rfl⟩, hticks⟩ := hlooks
      obtain ⟨tick, ticks, rfl⟩ := List.exists_cons_of_ne_nil hticks
      refine consumerWrite_found haddr hslug halias hkey (h.answer.trans ?_)
      -- without the tenant its slug is not found
      rw [consumerWrite_missing (getTenantBySlug_without hd haddr) hslug halias hkey hticks]
  · intro hlooks
    obtain ⟨e, he, he'⟩ := ConsumerRequest.failsAlike (s := s) hd ht haddr hlooks
    constructor <;> simp only [serveConsumer_of_error he, serveConsumer_of_error he']

end runs

section sample

/-- The tenant of the sample is suspended. -/
def sampleSuspension : Served Aead.tagged :=
  sampleServed 20 (.updateTenant (sampleAdmin 20) (some sampleTenantId)
    (.ok ⟨"Acme", "acme", "inactive"⟩))

def sampleSuspended : Database := afterAll (sampleSetup ++ [sampleSuspension]) {}

def sampleWrite : ConsumerRequest := .writeValue "acme" "main" "url" (.ok "b")

/-- The tenant of the sample as it is stored. -/
def suspendedTenant : Option Tenant :=
  lookup Tenant.slug "acme" sampleSuspended.domain.catalog.tenants

theorem suspendedTenant_inactive :
    suspendedTenant.map (·.status) = some .inactive := by decide +kernel

/-- A consumer writes a value of a suspended tenant, and it is stored. -/
theorem suspended_tenant_written :
    ∃ t, Runs.Run Served.Step {} (sampleSetup ++ [sampleSuspension]) sampleSuspended ∧
    t.status ≠ .active ∧ sampleWrite.Addresses sampleSuspended.domain.catalog t ∧
      (serveConsumer sampleServer sampleWrite (ticksFrom 500 18) sampleSuspended).answer =
        noContent ∧
      ¬Indistinguishable sampleServer sampleWrite (ticksFrom 500 18) sampleSuspended t.id := by
  have hanswer : (serveConsumer sampleServer sampleWrite (ticksFrom 500 18)
      sampleSuspended).answer = noContent := by
    decide +kernel
  obtain ⟨t, ht, hstatus⟩ := Option.map_eq_some_iff.mp suspendedTenant_inactive
  have hrun : Runs.Run Served.Step {} (sampleSetup ++ [sampleSuspension]) sampleSuspended :=
    run_afterAll _ _
  have hslug : getTenantBySlug "acme" sampleSuspended.domain.catalog = .ok t := one_eq_ok.mpr ht
  have hinactive : t.status ≠ .active := by
    rw [hstatus]
    decide
  refine ⟨t, hrun, hinactive, hslug, hanswer, fun h => ?_⟩
  have hgone : getTenantBySlug "acme" (Database.without t.id sampleSuspended).domain.catalog =
      .error .noRows :=
    getTenantBySlug_without (named_run hrun) hslug
  have hmissing : serveConsumer sampleServer sampleWrite (ticksFrom 500 18)
    (Database.without t.id sampleSuspended) =
      ⟨tenantNotFound, false, _⟩ :=
    consumerWrite_missing hgone (by decide) (by decide) (by decide) (List.cons_ne_nil _ _)
  have hsame := h.answer
  rw [hanswer, hmissing] at hsame
  exact absurd (congrArg Response.status hsame) (show (204 : Int) ≠ 404 by decide)

/-- A consumer that resolves the suspended tenant by its slug is told that there is none. -/
theorem inactive_tenant_indistinguishable_sample : ∃ t : Tenant,
    t.status ≠ .active ∧
    (ConsumerRequest.resolve "" "acme" "").Addresses sampleSuspended.domain.catalog t ∧
    Indistinguishable sampleServer (.resolve "" "acme" "")
    (ticksFrom 500 18) sampleSuspended t.id := by
  obtain ⟨t, ht, hstatus⟩ := Option.map_eq_some_iff.mp suspendedTenant_inactive
  have hrun : Runs.Run Served.Step {} (sampleSetup ++ [sampleSuspension]) sampleSuspended :=
    run_afterAll _ _
  have hslug : getTenantBySlug "acme" sampleSuspended.domain.catalog = .ok t := one_eq_ok.mpr ht
  have hinactive : t.status ≠ .active := by
    rw [hstatus]
    decide
  have haddr : (ConsumerRequest.resolve "" "acme" "").Addresses sampleSuspended.domain.catalog t :=
    Or.inl ⟨hslug, rfl⟩
  exact ⟨t, hinactive, haddr,
    (inactive_tenant_indistinguishable_iff hrun hinactive haddr).mpr fun h => h⟩

end sample

end Tenancit.Httpapi
