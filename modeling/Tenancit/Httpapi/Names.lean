import Tenancit.Httpapi.Statements
import Tenancit.Lib.Runs
import Tenancit.Rewrap.Batch
import Tenancit.Store.CatalogInvariant

/-!
The keys of the catalogue over runs of requests, with the names by which consumers address
tenants: a slug belongs to one tenant and a hostname to one domain.
-/
namespace Tenancit.Store

open Table

/-- The keys of the schema hold, and the names of tenants are unique. -/
structure Catalog.Named (c : Catalog) : Prop extends c.WellFormed where
  slugs : Keyed Tenant.slug c.tenants
  domainIds : Keyed TenantDomain.id c.domains
  hostnames : Keyed TenantDomain.hostname c.domains

theorem Catalog.Named.empty : Named {} where
  toWellFormed := .empty
  slugs := keyed_nil
  domainIds := keyed_nil
  hostnames := keyed_nil

/-- The names stay where tenants and domains do. -/
theorem Catalog.Named.of_same {c c' : Catalog} (hc : c.Named) (hwf : c'.WellFormed)
    (htenants : c'.tenants = c.tenants) (hdomains : c'.domains = c.domains) : c'.Named where
  toWellFormed := hwf
  slugs := htenants ▸ hc.slugs
  domainIds := hdomains ▸ hc.domainIds
  hostnames := hdomains ▸ hc.hostnames

end Tenancit.Store

namespace Tenancit.Httpapi

open Encoding Crypto Store Service Queries Table
open Program

variable {now : Timestamp} {t : Tick} {c c' : Catalog}

/-- Every statement of a handler keeps the keys and the names. -/
theorem Statement.named (h : Statement now t c c') (hc : c.Named) : c'.Named := by
  cases h with
  | createTenant hb h =>
    have hwf := hc.toWellFormed.createTenant h
    obtain ⟨hnew, ha, rfl⟩ := createTenant_ok h
    refine ⟨hwf, hc.slugs.append fun x hx => ?_, hc.domainIds, hc.hostnames⟩
    rw [ha]
    exact (hnew x hx).2
  | updateTenant hb h =>
    have hwf := hc.toWellFormed.updateTenant h
    obtain ⟨row, -, hfree, -, rfl⟩ := updateTenant_ok h
    refine ⟨hwf, ?_, hc.domainIds, hc.hostnames⟩
    exact hc.slugs.rekey hc.tenantIds (fun _ _ hp => of_decide_eq_true hp) (fun _ => rfl)
      fun x hx hp => hfree x hx (of_decide_eq_false hp)
  | deleteTenant h =>
    have hwf := hc.toWellFormed.deleteTenant h
    obtain ⟨-, rfl⟩ | ⟨-, c₁, -, rfl⟩ := deleteTenant_ok h
    · exact hc
    · exact ⟨hwf, hc.slugs.delete, hc.domainIds.delete, hc.hostnames.delete⟩
  | addTenantDomain h =>
    obtain ⟨hnew, rfl⟩ := addTenantDomain_ok h
    exact ⟨hc.toWellFormed.withDomains _, hc.slugs, hc.domainIds.append fun d hd => (hnew d hd).1,
      hc.hostnames.append fun d hd => (hnew d hd).2⟩
  | updateTenantDomain h =>
    obtain ⟨⟨row, hrow, hid, htenant⟩, hfree, rfl⟩ := updateTenantDomain_ok h
    refine ⟨hc.toWellFormed.withDomains _, hc.slugs, hc.domainIds.update fun _ => rfl, ?_⟩
    refine hc.hostnames.rekey (i := row.id) hc.domainIds (fun d _ hp => ?_) (fun _ => rfl)
      fun d hd hp => hfree d hd fun he => ?_
    · rw [hid]
      exact of_decide_eq_true (Bool.and_eq_true_iff.mp hp).1
    · -- the identifier is that of the row found, whose tenant it is
      obtain rfl := hc.domainIds.eq_of_key hd hrow (he.trans hid.symm)
      simp [hid, htenant] at hp
  | removeTenantDomain h =>
    obtain rfl := removeTenantDomain_ok h
    exact ⟨hc.toWellFormed.withDomains _, hc.slugs, hc.domainIds.delete, hc.hostnames.delete⟩
  | createDefinition hb h =>
    have hwf := hc.toWellFormed.createDefinition h
    obtain ⟨-, -, rfl⟩ := createDefinition_ok h
    exact hc.of_same hwf rfl rfl
  | updateDefinition h | setDefinitionStatus h =>
    obtain ⟨_, -, -, rfl⟩ := changeDefinition_ok h
    exact hc.of_same (hc.toWellFormed.updateDefinitions (fun _ => rfl) fun _ => rfl) rfl rfl
  | deleteDefinition h =>
    have hwf := hc.toWellFormed.deleteDefinition h
    obtain ⟨-, rfl⟩ | ⟨-, -, -, rfl⟩ := deleteDefinition_ok h
    · exact hc
    · exact hc.of_same hwf rfl rfl
  | addField h =>
    have hwf := hc.toWellFormed.addField h
    obtain ⟨-, -, -, rfl⟩ := addField_ok h
    exact hc.of_same hwf rfl rfl
  | updateField h =>
    have hwf := hc.toWellFormed.updateField h
    obtain ⟨_, -, -, rfl⟩ := updateField_ok h
    exact hc.of_same hwf rfl rfl
  | removeField h =>
    have hwf := hc.toWellFormed.removeField h
    obtain ⟨-, rfl⟩ | ⟨-, -, rfl⟩ := removeField_ok h
    · exact hc
    · exact hc.of_same hwf rfl rfl
  | createTenantResource h =>
    have hwf := hc.toWellFormed.createTenantResource h
    obtain ⟨-, -, -, -, -, rfl⟩ := createTenantResource_ok h
    exact hc.of_same hwf rfl rfl
  | updateTenantResourceIdentity h =>
    obtain ⟨_, -, -, rfl⟩ := updateTenantResourceIdentity_ok h
    exact hc.of_same (hc.updateResources (fun _ => rfl) (fun _ => rfl) (fun _ => rfl) fun _ =>
      rfl) rfl rfl
  | setTenantResourceStatus h =>
    obtain ⟨_, -, -, rfl⟩ := setTenantResourceStatus_ok h
    exact hc.of_same (hc.updateResources (fun _ => rfl) (fun _ => rfl) (fun _ => rfl) fun _ =>
      rfl) rfl rfl
  | deleteTenantResource h =>
    have hwf := hc.toWellFormed.deleteTenantResource h
    obtain ⟨-, rfl⟩ | ⟨-, h⟩ := deleteTenantResource_ok h
    · exact hc
    · obtain ⟨-, rfl⟩ := removeResources_ok h
      exact hc.of_same hwf rfl rfl
  | upsertResourceValue h =>
    have hwf := hc.toWellFormed.upsertResourceValue h
    obtain ⟨-, -, -, -, vs, rfl, -⟩ := upsertResourceValue_ok h
    exact hc.of_same hwf rfl rfl

/-- A statement of some request, or of a rewrap batch, takes effect. Between two statements of a
request there may be any number of those of others, so nothing is asked of what its arguments
were read from. -/
inductive Takes (now : Timestamp) (t : Tick) (c : Catalog) : Catalog → Prop
  | statement {c' : Catalog} (h : Statement now t c c') : Takes now t c c'
  | clear {resourceId fieldId : UUID} {n : Nat} {c' : Catalog}
      (h : Queries.deleteResourceValue resourceId fieldId t c = .ok (n, c')) : Takes now t c c'
  | rewrap {targetVersion : Int} {row : TenantResourceValue} {e : Encrypted}
      {n : Nat} {c' : Catalog}
      (h : Rewrap.updateRewrapped targetVersion row e t c = .ok (n, c')) : Takes now t c c'

theorem Takes.named (h : Takes now t c c') (hc : c.Named) : c'.Named := by
  cases h with
  | statement h => exact h.named hc
  | clear h =>
    have hwf := hc.toWellFormed.deleteResourceValue h
    obtain rfl := deleteResourceValue_ok h
    exact hc.of_same hwf rfl rfl
  | rewrap h =>
    cases h
    exact hc.of_same (hc.updateValues (fun _ => rfl) (fun _ => rfl) fun _ => rfl) rfl rfl

theorem named_statements : KeptByStatements fun _ c _ c' => c.Named → c'.Named where
  composes _ := ⟨fun _ h => h, fun h h' hc => h' (h hc)⟩
  reads _ _ _ h := h
  statements := Statement.named

variable {Key : Type} {aead : Aead Key} {d d' : Database}

/-- The statements that take effect one after another. -/
def Taking (c : Catalog) (x : Timestamp × Tick) (c' : Catalog) : Prop := Takes x.1 x.2 c c'

theorem taking_statements : KeptByStatements fun _ c _ c' => ∃ xs, Runs.Run Taking c xs c' where
  composes _ := ⟨fun _ => ⟨[], .nil _⟩, fun ⟨xs, h⟩ ⟨ys, h'⟩ => ⟨xs ++ ys, h.append h'⟩⟩
  reads _ _ c := ⟨[], .nil c⟩
  statements {now t _ c'} h := ⟨[(now, t)], .cons (Takes.statement h) (.nil c')⟩

/-- What a request does to the catalogue is a sequence of statements. -/
theorem Served.taking (x : Served aead) (d : Database) :
    ∃ xs, Runs.Run Taking d.domain.catalog xs (x.after d).domain.catalog := by
  cases hc : (serve x.server x.request x.ticks d).committed with
  | false => exact ⟨[], (Served.rolled_back hc).symm ▸ .nil _⟩
  | true =>
    obtain ⟨res, ts', hok⟩ := Served.committed hc
    by_cases hclears : x.request.Clears
    · cases hx : x.request with
      | clearResourceFieldOverride r id resourceId fieldKey =>
        rw [hx] at hok
        obtain ⟨key, heq⟩ := clear_ok hok
        rw [heq]
        have hclear : Queries.deleteResourceValue key.1 key.2 ⟨0, fun _ => 0, fun _ =>
          0, .plain⟩ d.domain.catalog = .ok (_, _) := rfl
        exact ⟨[(0, _)], .cons (Takes.clear hclear) (.nil _)⟩
      | _ => rw [hx] at hclears; exact hclears.elim
    · obtain ⟨-, -, -, -, hkept⟩ := Request.kept taking_statements hclears hok
      exact hkept

theorem Served.named {x : Served aead} (hd : d.domain.catalog.Named) :
    (x.after d).domain.catalog.Named := by
  obtain ⟨xs, htaking⟩ := x.taking d
  exact htaking.invariant (P := Catalog.Named) (fun _ _ _ hc htakes => htakes.named hc) hd

/-- Every database that requests lead to from the empty one has its keys and names. -/
theorem named_run {xs : List (Served aead)} (h : Runs.Run Served.Step {} xs d) :
    d.domain.catalog.Named := by
  refine h.invariant (P := fun d : Database => d.domain.catalog.Named)
    (fun d x d' hd hstep => ?_) .empty
  rw [hstep]
  exact Served.named hd

end Tenancit.Httpapi
