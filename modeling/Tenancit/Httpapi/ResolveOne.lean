import Mathlib.Data.UInt
import Tenancit.Httpapi.Links
import Tenancit.Httpapi.ResolveTag
import Tenancit.Service.ResolveOne
import Tenancit.Values.Effective

/-!
Resolving one resource against resolving all of them, in every state that statements of
requests lead to; and one resource resolved while such statements take effect between its own.
-/
namespace Tenancit.Httpapi

open Encoding Crypto Store Service Queries Table
open Values (resourceKey)

variable {now : Timestamp} {t : Tick} {c c' : Catalog}

/-- Every statement of a handler keeps the aliases. -/
theorem Statement.aliased (h : Statement now t c c') (hc : c.Named) (ha : c.Aliased) :
    c'.Aliased := by
  cases h with
  | createTenant hb h =>
    obtain ⟨-, -, rfl⟩ := createTenant_ok h
    exact ha.of_same rfl
  | updateTenant hb h =>
    obtain ⟨_, -, -, -, rfl⟩ := updateTenant_ok h
    exact ha.of_same rfl
  | deleteTenant h =>
    obtain ⟨-, rfl⟩ | ⟨-, c₁, hremove, rfl⟩ := deleteTenant_ok h
    · exact ha
    · obtain ⟨-, rfl⟩ := removeResources_ok hremove
      exact ha.delete rfl
  | addTenantDomain h =>
    obtain ⟨-, rfl⟩ := addTenantDomain_ok h
    exact ha.of_same rfl
  | updateTenantDomain h =>
    obtain ⟨-, -, rfl⟩ := updateTenantDomain_ok h
    exact ha.of_same rfl
  | removeTenantDomain h =>
    obtain rfl := removeTenantDomain_ok h
    exact ha.of_same rfl
  | createDefinition hb h =>
    obtain ⟨-, -, rfl⟩ := createDefinition_ok h
    exact ha.of_same rfl
  | updateDefinition h | setDefinitionStatus h =>
    obtain ⟨_, -, -, rfl⟩ := changeDefinition_ok h
    exact ha.of_same rfl
  | deleteDefinition h =>
    obtain ⟨-, rfl⟩ | ⟨-, -, -, rfl⟩ := deleteDefinition_ok h <;> exact ha.of_same rfl
  | addField h =>
    obtain ⟨-, -, -, rfl⟩ := addField_ok h
    exact ha.of_same rfl
  | updateField h =>
    obtain ⟨_, -, -, rfl⟩ := updateField_ok h
    exact ha.of_same rfl
  | removeField h =>
    obtain ⟨-, rfl⟩ | ⟨-, -, rfl⟩ := removeField_ok h <;> exact ha.of_same rfl
  | createTenantResource h => exact ha.createTenantResource h
  | updateTenantResourceIdentity h => exact ha.updateTenantResourceIdentity hc.resourceIds h
  | setTenantResourceStatus h =>
    obtain ⟨_, -, -, rfl⟩ := setTenantResourceStatus_ok h
    exact ha.update rfl (fun _ => rfl) fun _ => rfl
  | deleteTenantResource h =>
    obtain ⟨-, rfl⟩ | ⟨-, hremove⟩ := deleteTenantResource_ok h
    · exact ha
    · obtain ⟨-, rfl⟩ := removeResources_ok hremove
      exact ha.delete rfl
  | upsertResourceValue h =>
    obtain ⟨-, -, -, -, vs, rfl, -⟩ := upsertResourceValue_ok h
    exact ha.update rfl (fun _ => rfl) fun _ => rfl

theorem Takes.aliased (h : Takes now t c c') (hc : c.Named) (ha : c.Aliased) : c'.Aliased := by
  cases h with
  | statement h => exact h.aliased hc ha
  | clear h =>
    obtain rfl := deleteResourceValue_ok h
    exact ha.of_same rfl
  | rewrap h =>
    cases h
    exact ha.of_same rfl

namespace Concurrent

variable {s s' : Concurrent} {m : Move} {ms : List Move}

theorem Linked.aliased (hs : s.Linked) (ha : s.catalog.Aliased) (h : Step s m s') :
    s'.catalog.Aliased := by
  cases h with
  | take hfresh h => exact h.aliased hs.named ha
  | check h => exact ha
  | insert hk hfresh h =>
    exact ha.createTenantResource (hs.createTenantResource (List.mem_of_getElem? hk) h)

theorem aliased_run (h : Runs.Run Step {} ms s) : s.Linked ∧ s.catalog.Aliased := by
  refine h.invariant (P := fun s : Concurrent => s.Linked ∧ s.catalog.Aliased) ?_ ⟨.empty, .empty⟩
  intro s m s' hs hstep
  exact ⟨hs.1.step hstep, hs.1.aliased hs.2 hstep⟩

/-- The resource an answer is read from has the tenant that was looked up, also in the states of
the later statements. -/
theorem Linked.resource_tenant (hs : s.Linked) (h : Runs.Run Step s ms s') {r r' : TenantResource}
    (hr : r ∈ s.catalog.resources) (hr' : r' ∈ s'.catalog.resources) (hid : r'.id = r.id) :
    r'.tenantId = r.tenantId := by
  have hkey := hs.resourceKey_eq h hr hr' hid
  simp only [resourceKey, Prod.mk.injEq] at hkey
  exact hkey.2.1

end Concurrent

variable {Key : Type} {aead : Aead Key}

/-- Resolving one resource against resolving all. Where the configuration of the hostname is
answered, the resource of an alias is its one entry with the alias trimmed and in lower case,
and none where there is none. Where it is not, both fail alike, or a value of the tenant's
active resources cannot be decrypted. And whatever takes effect between the statements, the
resource answered, and the resource its values are read from, is one of the tenant named. -/
theorem resolve_one_refines {ms : List Move} {s : Concurrent} (h : Runs.Run Concurrent.Step {} ms s)
    (cryptor : Cryptor aead) (hostname resourceAlias : String) :
    (∀ payload, byHostname cryptor hostname s.catalog = .ok payload →
      Keyed ResolvedResource.resourceAlias payload.resources ∧
        byHostnameAndAliasIn cryptor hostname resourceAlias s.catalog
          s.catalog s.catalog s.catalog =
          .ok ((lookup ResolvedResource.resourceAlias (aliasKey resourceAlias)
            payload.resources).map fun r =>
            ⟨payload.tenantSlug, r.resourceAlias, r.definitionKey, r.values⟩)) ∧
    (∀ e, byHostname cryptor hostname s.catalog = .error e →
      byHostnameAndAliasIn cryptor hostname resourceAlias s.catalog s.catalog s.catalog
        s.catalog = .error e ∨ ∃ e', e = .service (.crypto e')) ∧
    ∀ ms₂ ms₃ ms₄ s₂ s₃ s₄, Runs.Run Concurrent.Step s ms₂ s₂ → Runs.Run Concurrent.Step s₂ ms₃ s₃ →
      Runs.Run Concurrent.Step s₃ ms₄ s₄ → ∀ one,
      byHostnameAndAliasIn cryptor hostname resourceAlias s.catalog s₂.catalog s₃.catalog
        s₄.catalog = .ok (some one) →
      ∃ tenant ∈ s.catalog.tenants, one.tenantSlug = tenant.slug ∧ ∃ row built,
        row.resource ∈ s₃.catalog.resources ∧ row.resource.tenantId = tenant.id ∧
        one.resourceAlias = row.resource.resourceAlias ∧ one.definitionKey = row.definitionKey ∧
        buildResourceFieldsBatch cryptor [resourceHeaderFromRow row] true s₄.catalog = .ok built ∧
        one.values = fieldMap (built.flatMap fun b => b.fields) ∧
        ∀ x ∈ s₄.catalog.resources, x.id = row.resource.id → x.tenantId = tenant.id := by
  obtain ⟨hs, ha⟩ := Concurrent.aliased_run h
  refine ⟨fun payload hall => byHostnameAndAliasIn_eq hs.named.toWellFormed ha hall, ?_, ?_⟩
  · intro e herror
    exact (byHostname_error herror).imp_left fun hone => hone _ _ _
  · intro ms₂ ms₃ ms₄ s₂ s₃ s₄ h₂ h₃ h₄ one hone
    obtain ⟨tenant, r, row, built, htenant, hfound, hrow, hbuilt, rfl⟩ :=
      byHostnameAndAliasIn_some hone
    obtain ⟨hs₂, ha₂⟩ := Concurrent.aliased_run (h.append h₂)
    obtain ⟨hs₃, -⟩ := Concurrent.aliased_run ((h.append h₂).append h₃)
    obtain ⟨hr, hrt, -⟩ :=
      mem_resourcesOf.mp ((getActiveResourceByTenantAndAlias_eq_ok ha₂).mp hfound).1
    obtain ⟨x, hx, hheader⟩ := Option.bind_eq_some_iff.mp (one_eq_ok.mp hrow)
    obtain ⟨hxmem, hxid⟩ := (lookup_eq_some hs₃.named.resourceIds).mp hx
    obtain ⟨d, -, rfl⟩ := Option.map_eq_some_iff.mp hheader
    have hmem : tenant ∈ s.catalog.tenants :=
      selectTenant_mem (show selectTenant (.hostname hostname) _ = _ from htenant)
    refine ⟨tenant, hmem, rfl, _, built, hxmem, ?_, rfl, rfl, hbuilt, rfl, ?_⟩
    · rw [← hrt]
      exact hs₂.resource_tenant h₃ hr hxmem hxid
    · intro y hy hyid
      rw [← hrt]
      exact hs₂.resource_tenant (h₃.append h₄) hr hy (hyid.trans hxid)

section sample

/-- The catalogue after a statement. -/
def afterStatement {α : Type} (f : Tick → Catalog → Except PgError (α × Catalog)) (t : Tick)
    (c : Catalog) : Catalog :=
  match f t c with
  | .ok (_, c') => c'
  | .error _ => c

theorem step_afterStatement {α : Type} (f : Tick → Catalog → Except PgError (α × Catalog))
    {t : Tick} {c : Catalog} {drawn : List UUID}
    (hf : ∀ a c', f t c = .ok (a, c') → Statement 0 t c c') (hok : (f t c).toBool = true)
    (hfresh : t.ids 0 ∉ drawn) :
    Concurrent.Step ⟨c, drawn, []⟩ (.take 0 t) ⟨afterStatement f t c, t.ids 0 :: drawn, []⟩ := by
  refine .take hfresh (.statement ?_)
  unfold afterStatement
  cases h : f t c with
  | error e =>
    rw [h] at hok
    cases hok
  | ok x => exact hf x.1 x.2 h

/-- A tenant with a hostname, a definition with a secret field, and a resource. -/
def sampleResolvable : Catalog :=
  let c := afterStatement (Queries.createTenant 0 "acme" "Acme") (sampleDraw 1) {}
  let c := afterStatement (Queries.addTenantDomain 0 1 "acme.test") (sampleDraw 2) c
  let c := afterStatement (Queries.createDefinition 0 "db" "DB" "" "") (sampleDraw 3) c
  let c :=
    afterStatement (Queries.addField ⟨3, "password", "password", "", "string", false, true, 0⟩)
      (sampleDraw 4) c
  afterStatement (Queries.createTenantResource 0 ⟨1, 3, "main", "main", none⟩) (sampleDraw 5) c

/-- A value as a server with two keys encrypts it. -/
def sampleSecret : UpsertResourceValueParams :=
  let enc := Values.sampleRotated.encrypt 0 "p"
  ⟨6, 4, none, some enc.cipher, some enc.nonce, some (Int32.ofInt enc.keyVersion)⟩

/-- A second resource, which has a secret. -/
def sampleWithSecret : Catalog :=
  let c :=
    afterStatement (Queries.createTenantResource 0 ⟨1, 3, "other", "other", none⟩)
      (sampleDraw 6) sampleResolvable
  afterStatement (Queries.upsertResourceValue sampleSecret) (sampleDraw 7) c

theorem sampleWithSecret_run : Runs.Run Concurrent.Step {}
    [.take 0 (sampleDraw 1), .take 0 (sampleDraw 2), .take 0 (sampleDraw 3), .take 0 (sampleDraw 4),
      .take 0 (sampleDraw 5), .take 0 (sampleDraw 6), .take 0 (sampleDraw 7)]
    ⟨sampleWithSecret, [7, 6, 5, 4, 3, 2, 1], []⟩ := by
  have htenant : checkCreateTenant ⟨"acme", "Acme"⟩ = .ok ⟨"acme", "Acme"⟩ := rfl
  have hdefinition : checkCreateDefinition ⟨"db", "DB", "", ""⟩ = .ok ⟨"db", "DB", "", ""⟩ := rfl
  refine .cons (step_afterStatement (Queries.createTenant 0 "acme" "Acme") (fun _ _ h =>
    .createTenant htenant h)
    (by decide +kernel) (by decide)) ?_
  refine .cons (step_afterStatement (Queries.addTenantDomain 0 1 "acme.test")
    (fun _ _ h => .addTenantDomain h)
    (by decide +kernel) (by decide)) ?_
  refine .cons (step_afterStatement (Queries.createDefinition 0 "db" "DB" "" "")
    (fun _ _ h => .createDefinition hdefinition h) (by decide +kernel) (by decide)) ?_
  refine .cons (step_afterStatement (Queries.addField ⟨3, "password", "password", "",
    "string", false, true, 0⟩)
    (fun _ _ h => .addField h) (by decide +kernel) (by decide)) ?_
  refine .cons (step_afterStatement (Queries.createTenantResource 0 ⟨1, 3, "main", "main", none⟩)
    (fun _ _ h => .createTenantResource h) (by decide +kernel) (by decide)) ?_
  refine .cons (step_afterStatement (Queries.createTenantResource 0 ⟨1, 3, "other", "other", none⟩)
    (fun _ _ h => .createTenantResource h) (by decide +kernel) (by decide)) ?_
  refine .cons (step_afterStatement (Queries.upsertResourceValue sampleSecret) (fun _ _ h =>
    .upsertResourceValue h)
    (by decide +kernel) (by decide)) ?_
  exact .nil _

/-- A server that has not loaded the second key yet. -/
def sampleReader : Cryptor Aead.tagged := .single Aead.tagged 7

theorem sampleWithSecret_answers :
    byHostnameAndAliasIn sampleReader "acme.test" " MAIN " sampleWithSecret
      sampleWithSecret sampleWithSecret
      sampleWithSecret = .ok (some ⟨"acme", "main", "db", [("password", "")]⟩) ∧
    (byHostname sampleReader "acme.test" sampleWithSecret).toBool = false ∧
    byHostname Values.sampleRotated "acme.test" sampleWithSecret =
      .ok ⟨"acme", [⟨"main", "db", [("password", "")]⟩, ⟨"other", "db", [("password", "p")]⟩]⟩ := by
  decide +kernel

/-- A secret that the server cannot decrypt keeps it from resolving all resources, and not from
resolving another one. -/
theorem resolve_one_without_all : ∃ ms s, Runs.Run Concurrent.Step {} ms s ∧
    ¬((∃ one, byHostnameAndAliasIn sampleReader "acme.test" " MAIN " s.catalog
      s.catalog s.catalog s.catalog =
        .ok (some one)) ↔
      ∃ payload, byHostname sampleReader "acme.test" s.catalog = .ok payload ∧
        ∃ r ∈ payload.resources, r.resourceAlias = aliasKey " MAIN ") := by
  obtain ⟨hone, hall, -⟩ := sampleWithSecret_answers
  refine ⟨_, _, sampleWithSecret_run, fun hiff => ?_⟩
  obtain ⟨payload, hpayload, -⟩ := hiff.mp ⟨_, hone⟩
  rw [hpayload] at hall
  cases hall

theorem resolve_one_refines_sample :
    byHostnameAndAliasIn Values.sampleRotated "acme.test" "Other" sampleWithSecret
      sampleWithSecret sampleWithSecret
      sampleWithSecret = .ok (some ⟨"acme", "other", "db", [("password", "p")]⟩) := by
  have hone :=
    ((resolve_one_refines sampleWithSecret_run Values.sampleRotated "acme.test" "Other").1 _
    sampleWithSecret_answers.2.2).2
  rw [hone]
  decide +kernel

end sample

end Tenancit.Httpapi
