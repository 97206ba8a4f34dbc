import Tenancit.Store.CatalogSpec

/-!
The schema's keys as an invariant of the catalogue: primary keys, unique indexes and
foreign keys, with the contract of resource sources. Every statement keeps it.
-/
namespace Tenancit.Store

open Table Queries

/-- The keys of the schema hold. -/
structure Catalog.WellFormed (c : Catalog) : Prop where
  tenantIds : Keyed Tenant.id c.tenants
  definitionIds : Keyed ResourceDefinition.id c.definitions
  definitionKeys : Keyed ResourceDefinition.key c.definitions
  fieldIds : Keyed ResourceField.id c.fields
  fieldKeys : Keyed (fun f : ResourceField => (f.resourceDefinitionId, f.key)) c.fields
  resourceIds : Keyed TenantResource.id c.resources
  valueIds : Keyed TenantResourceValue.id c.values
  valueKeys : Keyed valueKey c.values
  resourceDefinition : ∀ r ∈ c.resources, ∃ d ∈ c.definitions, d.id = r.resourceDefinitionId
  resourceSource : ∀ r ∈ c.resources, ∀ id, r.sourceResourceId = some id → ∃ s ∈ c.resources,
    s.id = id ∧ s.tenantId = r.tenantId ∧ s.resourceDefinitionId = r.resourceDefinitionId ∧
      s.sourceResourceId = none
  valueResource : ∀ v ∈ c.values, ∃ r ∈ c.resources, r.id = v.tenantResourceId
  valueField : ∀ v ∈ c.values, ∃ f ∈ c.fields, f.id = v.resourceFieldId

namespace Catalog.WellFormed

variable {now : Timestamp} {t : Tick} {c c' : Catalog} {id tenantId : UUID}

theorem empty : WellFormed {} := by
  constructor <;> simp

theorem createTenant {slug name : String} {a : Tenant} (hc : c.WellFormed)
    (h : Queries.createTenant now slug name t c = .ok (a, c')) : c'.WellFormed := by
  obtain ⟨hnew, -, rfl⟩ := createTenant_ok h
  exact { hc with tenantIds := hc.tenantIds.append fun x hx => (hnew x hx).1 }

theorem updateTenant {name slug : String} {status : Status} {a : Tenant} (hc : c.WellFormed)
    (h : Queries.updateTenant now id name slug status t c = .ok (a, c')) : c'.WellFormed := by
  obtain ⟨_, -, -, -, rfl⟩ := updateTenant_ok h
  exact { hc with tenantIds := hc.tenantIds.update fun _ => rfl }

theorem removeResources {p : TenantResource → Bool} (hc : c.WellFormed)
    (h : Queries.removeResources p c = .ok c') : c'.WellFormed := by
  obtain ⟨hkept, rfl⟩ := removeResources_ok h
  exact { hc with
    resourceIds := hc.resourceIds.delete
    valueIds := hc.valueIds.delete
    valueKeys := hc.valueKeys.delete
    resourceDefinition := fun r hr => hc.resourceDefinition r (mem_delete.mp hr).1
    resourceSource := by
      intro r hr source hs
      obtain ⟨hr, hp⟩ := mem_delete.mp hr
      obtain ⟨s, hsr, hid, hrest⟩ := hc.resourceSource r hr source hs
      refine ⟨s, mem_delete.mpr ⟨hsr, ?_⟩, hid, hrest⟩
      by_contra hps
      exact hkept r hr hp source hs ⟨s, hsr, by simpa using hps, hid⟩
    valueResource := by
      intro v hv
      obtain ⟨hv, hgone⟩ := mem_delete.mp hv
      obtain ⟨r, hr, hid⟩ := hc.valueResource v hv
      refine ⟨r, mem_delete.mpr ⟨hr, ?_⟩, hid⟩
      by_contra hp
      exact of_decide_eq_false hgone ⟨r, hr, by simpa using hp, hid⟩
    valueField := fun v hv => hc.valueField v (mem_delete.mp hv).1 }

theorem deleteTenant {n : Nat} (hc : c.WellFormed) (h : Queries.deleteTenant id t c = .ok (n, c')) :
    c'.WellFormed := by
  obtain ⟨-, rfl⟩ | ⟨-, c₁, h₁, rfl⟩ := deleteTenant_ok h
  · exact hc
  · exact { hc.removeResources h₁ with tenantIds := hc.tenantIds.delete }

theorem withDomains (hc : c.WellFormed) (ds : List TenantDomain) :
    WellFormed { c with domains := ds } := { hc with }

theorem createDefinition {key name description icon : String} {a : ResourceDefinition}
    (hc : c.WellFormed)
    (h : Queries.createDefinition now key name description icon t c = .ok (a, c')) :
    c'.WellFormed := by
  obtain ⟨hnew, ha, rfl⟩ := createDefinition_ok h
  have hkey : a.key = key := by rw [ha]
  exact { hc with
    definitionIds := hc.definitionIds.append fun d hd => (hnew d hd).1
    definitionKeys := hc.definitionKeys.append fun d hd => hkey ▸ (hnew d hd).2
    resourceDefinition := by
      intro r hr
      obtain ⟨d, hd, hid⟩ := hc.resourceDefinition r hr
      exact ⟨d, List.mem_append_left _ hd, hid⟩ }

/-- Changes of the other columns of definitions keep the keys. -/
theorem updateDefinitions (hc : c.WellFormed) {p : ResourceDefinition → Bool}
    {set : ResourceDefinition → ResourceDefinition} (hid : ∀ d, (set d).id = d.id)
    (hkey : ∀ d, (set d).key = d.key) :
    WellFormed { c with definitions := update p set c.definitions } := { hc with
  definitionIds := hc.definitionIds.update hid
  definitionKeys := hc.definitionKeys.update hkey
  resourceDefinition := fun r hr => exists_mem_update hid (hc.resourceDefinition r hr) }

theorem touchDefinition (hc : c.WellFormed) (k : UUID) (at_ : Timestamp) :
    (Queries.touchDefinition k at_ c).WellFormed :=
  hc.updateDefinitions (fun _ => rfl) fun _ => rfl

theorem deleteDefinition {n : Nat} (hc : c.WellFormed)
    (h : Queries.deleteDefinition id t c = .ok (n, c')) : c'.WellFormed := by
  obtain ⟨-, rfl⟩ | ⟨-, hr, hv, rfl⟩ := deleteDefinition_ok h
  · exact hc
  exact { hc with
    definitionIds := hc.definitionIds.delete
    definitionKeys := hc.definitionKeys.delete
    fieldIds := hc.fieldIds.delete
    fieldKeys := hc.fieldKeys.delete
    resourceDefinition := by
      intro r hr'
      obtain ⟨d, hd, hid⟩ := hc.resourceDefinition r hr'
      refine ⟨d, mem_delete.mpr ⟨hd, ?_⟩, hid⟩
      simpa [hid] using hr r hr'
    valueField := by
      intro v hv'
      obtain ⟨f, hf, hid⟩ := hc.valueField v hv'
      refine ⟨f, mem_delete.mpr ⟨hf, ?_⟩, hid⟩
      simpa using fun he => hv v hv' f hf he hid }

theorem addField {arg : AddFieldParams} {a : ResourceField} (hc : c.WellFormed)
    (h : Queries.addField arg t c = .ok (a, c')) : c'.WellFormed := by
  obtain ⟨hnew, -, -, rfl⟩ := addField_ok h
  refine touchDefinition (c := { c with fields := c.fields ++ [a] }) ?_ _ _
  exact { hc with
    fieldIds := hc.fieldIds.append fun f hf => (hnew f hf).1
    fieldKeys := hc.fieldKeys.append fun f hf => by simpa using (hnew f hf).2
    valueField := by
      intro v hv
      obtain ⟨f, hf, hid⟩ := hc.valueField v hv
      exact ⟨f, List.mem_append_left _ hf, hid⟩ }

theorem updateField {fieldId definitionId : UUID} {label : String} {required : Bool}
    {a : ResourceField} (hc : c.WellFormed)
    (h : Queries.updateField fieldId definitionId label required t c = .ok (a, c')) :
    c'.WellFormed := by
  obtain ⟨_, -, -, rfl⟩ := updateField_ok h
  refine touchDefinition (c := { c with fields := _ }) ?_ _ _
  exact { hc with
    fieldIds := hc.fieldIds.update fun _ => rfl
    fieldKeys := hc.fieldKeys.update fun _ => rfl
    valueField := fun v hv => exists_mem_update (fun _ => rfl) (hc.valueField v hv) }

theorem removeField {fieldId definitionId : UUID} {n : Nat} (hc : c.WellFormed)
    (h : Queries.removeField fieldId definitionId t c = .ok (n, c')) : c'.WellFormed := by
  obtain ⟨-, rfl⟩ | ⟨-, hv, rfl⟩ := removeField_ok h
  · exact hc
  refine touchDefinition (c := { c with fields := _ }) ?_ _ _
  exact { hc with
    fieldIds := hc.fieldIds.delete
    fieldKeys := hc.fieldKeys.delete
    valueField := by
      intro v hv'
      obtain ⟨f, hf, hid⟩ := hc.valueField v hv'
      refine ⟨f, mem_delete.mpr ⟨hf, ?_⟩, hid⟩
      have hne : f.id ≠ fieldId := fun he => hv v hv' (hid ▸ he)
      simp [hne] }

theorem createTenantResource {arg : CreateTenantResourceParams} {a : TenantResource}
    (hc : c.WellFormed) (h : Queries.createTenantResource now arg t c = .ok (a, c')) :
    c'.WellFormed := by
  obtain ⟨hsource, hnew, -, hdef, ha, rfl⟩ := createTenantResource_ok h
  exact { hc with
    resourceIds := hc.resourceIds.append hnew
    resourceDefinition := by
      intro r hr
      rcases List.mem_append.mp hr with hr | hr
      · exact hc.resourceDefinition r hr
      · obtain rfl := List.mem_singleton.mp hr
        rw [ha]
        exact hdef
    resourceSource := by
      intro r hr source hs
      rcases List.mem_append.mp hr with hr | hr
      · obtain ⟨s, hsr, hrest⟩ := hc.resourceSource r hr source hs
        exact ⟨s, List.mem_append_left _ hsr, hrest⟩
      · obtain rfl := List.mem_singleton.mp hr
        rw [ha] at hs ⊢
        rw [show arg.sourceResourceId = some source from hs] at hsource
        obtain ⟨s, hs, hrest⟩ := hsource
        obtain ⟨hs, hid⟩ := (lookup_eq_some hc.resourceIds).mp hs
        exact ⟨s, List.mem_append_left _ hs, hid, hrest⟩
    valueResource := by
      intro v hv
      obtain ⟨r, hr, hid⟩ := hc.valueResource v hv
      exact ⟨r, List.mem_append_left _ hr, hid⟩ }

/-- Changes of the other columns of resources keep the keys. -/
theorem updateResources (hc : c.WellFormed) {p : TenantResource → Bool}
    {set : TenantResource → TenantResource} (hid : ∀ r, (set r).id = r.id)
    (htenant : ∀ r, (set r).tenantId = r.tenantId)
    (hdef : ∀ r, (set r).resourceDefinitionId = r.resourceDefinitionId)
    (hsource : ∀ r, (set r).sourceResourceId = r.sourceResourceId) :
    WellFormed { c with resources := update p set c.resources } := by
  -- every row of the updated table agrees with a row of the old one on the key columns
  have hback : ∀ s ∈ update p set c.resources, ∃ r ∈ c.resources, s.id = r.id ∧
      s.tenantId = r.tenantId ∧ s.resourceDefinitionId = r.resourceDefinitionId ∧
        s.sourceResourceId = r.sourceResourceId := by
    intro s hs
    obtain ⟨r, hr, rfl⟩ := mem_update.mp hs
    refine ⟨r, hr, ?_⟩
    split <;> simp [hid, htenant, hdef, hsource]
  have hforth : ∀ r ∈ c.resources, ∃ s ∈ update p set c.resources, s.id = r.id ∧
      s.tenantId = r.tenantId ∧ s.resourceDefinitionId = r.resourceDefinitionId ∧
        s.sourceResourceId = r.sourceResourceId := by
    intro r hr
    refine ⟨_, mem_update.mpr ⟨r, hr, rfl⟩, ?_⟩
    split <;> simp [hid, htenant, hdef, hsource]
  exact { hc with
    resourceIds := hc.resourceIds.update hid
    resourceDefinition := by
      intro s hs
      obtain ⟨r, hr, -, -, hd, -⟩ := hback s hs
      rw [hd]
      exact hc.resourceDefinition r hr
    resourceSource := by
      intro s hs source hsome
      obtain ⟨r, hr, -, ht, hd, hsrc⟩ := hback s hs
      obtain ⟨x, hx, hxid, hxt, hxd, hxs⟩ := hc.resourceSource r hr source (hsrc ▸ hsome)
      obtain ⟨y, hy, hyid, hyt, hyd, hys⟩ := hforth x hx
      exact ⟨y, hy, hyid.trans hxid, hyt.trans (hxt.trans ht.symm), hyd.trans (hxd.trans hd.symm),
        hys.trans hxs⟩
    valueResource := by
      intro v hv
      obtain ⟨r, hr, hrid⟩ := hc.valueResource v hv
      obtain ⟨s, hs, hsid, -⟩ := hforth r hr
      exact ⟨s, hs, hsid.trans hrid⟩ }

theorem touchResource (hc : c.WellFormed) (k : UUID) (at_ : Timestamp) :
    (Queries.touchResource k at_ c).WellFormed :=
  hc.updateResources (fun _ => rfl) (fun _ => rfl) (fun _ => rfl) fun _ => rfl

theorem deleteTenantResource {n : Nat} (hc : c.WellFormed)
    (h : Queries.deleteTenantResource id tenantId t c = .ok (n, c')) : c'.WellFormed := by
  obtain ⟨-, rfl⟩ | ⟨-, h⟩ := deleteTenantResource_ok h
  · exact hc
  · exact hc.removeResources h

theorem deleteResourceValue {resourceId fieldId : UUID} {n : Nat} (hc : c.WellFormed)
    (h : Queries.deleteResourceValue resourceId fieldId t c = .ok (n, c')) : c'.WellFormed := by
  obtain rfl := deleteResourceValue_ok h
  exact { hc with
    valueIds := hc.valueIds.delete
    valueKeys := hc.valueKeys.delete
    valueResource := fun v hv => hc.valueResource v (mem_delete.mp hv).1
    valueField := fun v hv => hc.valueField v (mem_delete.mp hv).1 }

theorem upsertResourceValue {arg : UpsertResourceValueParams} {a : TenantResourceValue}
    (hc : c.WellFormed) (h : Queries.upsertResourceValue arg t c = .ok (a, c')) :
    c'.WellFormed := by
  obtain ⟨hr, hf, hkey, -, vs, rfl, hvs⟩ := upsertResourceValue_ok h
  have hkey : a.tenantResourceId = arg.tenantResourceId ∧
      a.resourceFieldId = arg.resourceFieldId := by
    simpa [valueKey] using hkey
  refine touchResource (c := { c with values := vs }) ?_ _ _
  rcases hvs with ⟨v, -, -, rfl⟩ | ⟨hnone, hfresh, rfl⟩
  · exact { hc with
      valueIds := hc.valueIds.update fun _ => rfl
      valueKeys := hc.valueKeys.update fun _ => rfl
      valueResource := forall_mem_update hc.valueResource fun v hv _ => hc.valueResource v hv
      valueField := forall_mem_update hc.valueField fun v hv _ => hc.valueField v hv }
  · exact { hc with
      valueIds := hc.valueIds.append hfresh
      valueKeys := hc.valueKeys.append fun v hv he => by
        refine lookup_eq_none.mp hnone v hv (he.trans ?_)
        simp [valueKey, hkey]
      valueResource := by
        intro v hv
        rcases List.mem_append.mp hv with hv | hv
        · exact hc.valueResource v hv
        · rw [List.mem_singleton.mp hv, hkey.1]
          exact hr
      valueField := by
        intro v hv
        rcases List.mem_append.mp hv with hv | hv
        · exact hc.valueField v hv
        · rw [List.mem_singleton.mp hv, hkey.2]
          exact hf }

/-- Changes of the other columns of values keep the keys. -/
theorem updateValues (hc : c.WellFormed) {p : TenantResourceValue → Bool}
    {set : TenantResourceValue → TenantResourceValue} (hid : ∀ v, (set v).id = v.id)
    (hresource : ∀ v, (set v).tenantResourceId = v.tenantResourceId)
    (hfield : ∀ v, (set v).resourceFieldId = v.resourceFieldId) :
    WellFormed { c with values := update p set c.values } := { hc with
  valueIds := hc.valueIds.update hid
  valueKeys := hc.valueKeys.update fun v => by rw [valueKey, hresource, hfield, valueKey]
  valueResource :=
    forall_mem_update hc.valueResource fun v hv _ => hresource v ▸ hc.valueResource v hv
  valueField := forall_mem_update hc.valueField fun v hv _ => hfield v ▸ hc.valueField v hv }

end Catalog.WellFormed

end Tenancit.Store
