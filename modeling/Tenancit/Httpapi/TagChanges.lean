import Tenancit.Httpapi.Statements
import Tenancit.Service.ResolveTag

/-!
What every change of a handler keeps of the resolve tag: a slug and a definition key never
hold the delimiter of the tag, and what a change touches it stamps. Only the clearing of an
override that stands does not.
-/
namespace Tenancit.Httpapi

open Encoding Crypto Store Service Queries
open Program

def KeepsTags (now : Timestamp) (c : Catalog) (used : List Tick) (c' : Catalog) : Prop :=
  TagReady c → TagReady c' ∧ Restamps now c used c'

variable {now : Timestamp} {t : Tick} {c c' : Catalog} {id tenantId : UUID}

theorem KeepsTags.refl {used : List Tick} : KeepsTags now c used c := fun h => ⟨h, Restamps.refl⟩

theorem composes_keepsTags : Composes (KeepsTags now) where
  nil _ := KeepsTags.refl
  append h h' hc :=
    have ⟨h₁, hs₁⟩ := h hc
    have ⟨h₂, hs₂⟩ := h' h₁
    ⟨h₂, hs₁.append hs₂⟩

section statements

/-- A statement that leaves tenants and the keys of definitions alone. -/
theorem keepsTags_of {used : List Tick} (hwf : c.WellFormed → c'.WellFormed)
    (htenants : c'.tenants = c.tenants)
    (hkeys : ∀ d ∈ c'.definitions, ∃ d₀ ∈ c.definitions, d₀.key = d.key)
    (hstamps : c.WellFormed → Restamps now c used c') : KeepsTags now c used c' := fun hc =>
  ⟨⟨hwf hc.wellFormed, htenants ▸ hc.slugs, fun d hd => by
      obtain ⟨d₀, hd₀, hkey⟩ := hkeys d hd
      exact hkey ▸ hc.definitionKeys d₀ hd₀⟩, hstamps hc.wellFormed⟩

theorem keys_self : ∀ d ∈ c.definitions, ∃ d₀ ∈ c.definitions, d₀.key = d.key :=
  fun d hd => ⟨d, hd, rfl⟩

theorem keys_update {p : ResourceDefinition → Bool} {set : ResourceDefinition → ResourceDefinition}
    (hset : ∀ d, (set d).key = d.key) :
    ∀ d ∈ Table.update p set c.definitions, ∃ d₀ ∈ c.definitions, d₀.key = d.key := by
  intro d hd
  obtain ⟨d₀, hd₀, rfl⟩ := Table.mem_update.mp hd
  refine ⟨d₀, hd₀, ?_⟩
  split <;> simp [hset]

theorem keepsTags_createTenant {slug name : String} {a : Tenant} (hslug : Undelimited slug)
    (h : Queries.createTenant now slug name t c = .ok (a, c')) : KeepsTags now c [t] c' := by
  intro hc
  have hwf := hc.wellFormed.createTenant h
  obtain ⟨-, ha, rfl⟩ := createTenant_ok h
  refine ⟨⟨hwf, ?_, hc.definitionKeys⟩, restamps_of_eq rfl rfl rfl rfl⟩
  intro x hx
  rcases List.mem_append.mp hx with hx | hx
  · exact hc.slugs x hx
  · rw [List.mem_singleton.mp hx, ha]
    exact hslug

theorem keepsTags_updateTenant {slug name : String} {status : Status} {a : Tenant}
    (hslug : Undelimited slug)
    (h : Queries.updateTenant now id name slug status t c = .ok (a, c')) :
    KeepsTags now c [t] c' := by
  intro hc
  have hwf := hc.wellFormed.updateTenant h
  obtain ⟨row, -, -, -, rfl⟩ := updateTenant_ok h
  refine ⟨⟨hwf, ?_, hc.definitionKeys⟩, restamps_of_eq rfl rfl rfl rfl⟩
  exact Table.forall_mem_update hc.slugs fun _ _ _ => hslug

theorem keepsTags_deleteTenant {n : Nat} (h : Queries.deleteTenant id t c = .ok (n, c')) :
    KeepsTags now c [t] c' := by
  intro hc
  have hwf := hc.wellFormed.deleteTenant h
  have hstamps : Restamps now c [t] c' := restamps_deleteTenant hc.wellFormed h
  refine ⟨⟨hwf, ?_, ?_⟩, hstamps⟩
  · obtain ⟨-, rfl⟩ | ⟨-, c₁, -, rfl⟩ := deleteTenant_ok h
    · exact hc.slugs
    · exact fun x hx => hc.slugs x (Table.mem_delete.mp hx).1
  · obtain ⟨-, rfl⟩ | ⟨-, c₁, h₁, rfl⟩ := deleteTenant_ok h
    · exact hc.definitionKeys
    · obtain ⟨-, rfl⟩ := removeResources_ok h₁
      exact hc.definitionKeys

theorem keepsTags_domains {used : List Tick} (ds : List TenantDomain) :
    KeepsTags now c used { c with domains := ds } :=
  keepsTags_of (fun hc => hc.withDomains ds) rfl keys_self fun _ => restamps_of_eq rfl rfl rfl rfl

theorem keepsTags_createDefinition {key name description icon : String} {a : ResourceDefinition}
    (hkey : Undelimited key)
    (h : Queries.createDefinition now key name description icon t c = .ok (a, c')) :
    KeepsTags now c [t] c' := by
  intro hc
  have hwf := hc.wellFormed.createDefinition h
  have hstamps := restamps_createDefinition h
  obtain ⟨-, ha, rfl⟩ := createDefinition_ok h
  refine ⟨⟨hwf, hc.slugs, ?_⟩, hstamps⟩
  intro d hd
  rcases List.mem_append.mp hd with hd | hd
  · exact hc.definitionKeys d hd
  · rw [List.mem_singleton.mp hd, ha]
    exact hkey

theorem keepsTags_setDefinitionStatus {status : Status} {a : ResourceDefinition}
    (h : Queries.setDefinitionStatus now id status t c = .ok (a, c')) : KeepsTags now c [t] c' := by
  have hstamps := restamps_setDefinitionStatus h
  obtain ⟨_, -, -, rfl⟩ := changeDefinition_ok h
  exact keepsTags_of (fun hc => hc.updateDefinitions (fun _ => rfl) fun _ =>
    rfl) rfl (keys_update fun _ => rfl)
    fun _ => hstamps

theorem keepsTags_updateDefinition {name description : String} {a : ResourceDefinition}
    (h : Queries.updateDefinition now id name description t c = .ok (a, c')) :
    KeepsTags now c [t] c' := by
  have hstamps := restamps_updateDefinition h
  obtain ⟨_, -, -, rfl⟩ := changeDefinition_ok h
  exact keepsTags_of (fun hc => hc.updateDefinitions (fun _ => rfl) fun _ =>
    rfl) rfl (keys_update fun _ => rfl)
    fun _ => hstamps

theorem keepsTags_deleteDefinition {n : Nat} (h : Queries.deleteDefinition id t c = .ok (n, c')) :
    KeepsTags now c [t] c' := by
  refine keepsTags_of (fun hc => hc.deleteDefinition h) ?_ ?_ fun hc =>
    restamps_deleteDefinition hc h
  all_goals obtain ⟨-, rfl⟩ | ⟨-, -, -, rfl⟩ := deleteDefinition_ok h
  · rfl
  · rfl
  · exact keys_self
  · exact fun d hd => ⟨d, (Table.mem_delete.mp hd).1, rfl⟩

theorem keepsTags_addField {arg : AddFieldParams} {a : ResourceField}
    (h : Queries.addField arg t c = .ok (a, c')) : KeepsTags now c [t] c' := by
  refine keepsTags_of (fun hc => hc.addField h) ?_ ?_ fun _ => restamps_addField h
  all_goals obtain ⟨-, -, -, rfl⟩ := addField_ok h
  · rfl
  · exact keys_update fun _ => rfl

theorem keepsTags_updateField {fieldId definitionId : UUID} {label : String} {required : Bool}
    {a : ResourceField}
    (h : Queries.updateField fieldId definitionId label required t c = .ok (a, c')) :
    KeepsTags now c [t] c' := by
  refine keepsTags_of (fun hc => hc.updateField h) ?_ ?_ fun _ => restamps_updateField h
  all_goals obtain ⟨_, -, -, rfl⟩ := updateField_ok h
  · rfl
  · exact keys_update fun _ => rfl

theorem keepsTags_removeField {fieldId definitionId : UUID} {n : Nat}
    (h : Queries.removeField fieldId definitionId t c = .ok (n, c')) : KeepsTags now c [t] c' := by
  refine keepsTags_of (fun hc => hc.removeField h) ?_ ?_ fun _ => restamps_removeField h
  all_goals obtain ⟨-, rfl⟩ | ⟨-, -, rfl⟩ := removeField_ok h
  · rfl
  · rfl
  · exact keys_self
  · exact keys_update fun _ => rfl

theorem keepsTags_createTenantResource {arg : CreateTenantResourceParams} {a : TenantResource}
    (h : Queries.createTenantResource now arg t c = .ok (a, c')) : KeepsTags now c [t] c' := by
  refine keepsTags_of (fun hc => hc.createTenantResource h) ?_ ?_ fun _ =>
    restamps_createTenantResource h
  all_goals obtain ⟨-, -, -, -, -, rfl⟩ := createTenantResource_ok h
  · rfl
  · exact keys_self

theorem keepsTags_updateTenantResourceIdentity {resourceAlias displayName : String}
    {a : TenantResource}
    (h : Queries.updateTenantResourceIdentity now id tenantId resourceAlias displayName t c =
      .ok (a, c')) :
    KeepsTags now c [t] c' := by
  have hstamps := restamps_updateTenantResourceIdentity h
  obtain ⟨_, -, -, rfl⟩ := updateTenantResourceIdentity_ok h
  exact keepsTags_of (fun hc => hc.updateResources (fun _ => rfl) (fun _ => rfl) (fun _ =>
    rfl) fun _ => rfl) rfl
    keys_self fun _ => hstamps

theorem keepsTags_setTenantResourceStatus {status : Status} {a : TenantResource}
    (h : Queries.setTenantResourceStatus now id tenantId status t c = .ok (a, c')) :
    KeepsTags now c [t] c' := by
  have hstamps := restamps_setTenantResourceStatus h
  obtain ⟨_, -, -, rfl⟩ := setTenantResourceStatus_ok h
  exact keepsTags_of (fun hc => hc.updateResources (fun _ => rfl) (fun _ => rfl) (fun _ =>
    rfl) fun _ => rfl) rfl
    keys_self fun _ => hstamps

theorem keepsTags_deleteTenantResource {n : Nat}
    (h : Queries.deleteTenantResource id tenantId t c = .ok (n, c')) : KeepsTags now c [t] c' := by
  refine keepsTags_of (fun hc => hc.deleteTenantResource h) ?_ ?_ fun hc =>
    restamps_deleteTenantResource hc h
  all_goals
    obtain ⟨-, rfl⟩ | ⟨-, h⟩ := deleteTenantResource_ok h
    · first | rfl | exact keys_self
    obtain ⟨-, rfl⟩ := removeResources_ok h
    first | rfl | exact keys_self

theorem keepsTags_upsertResourceValue {arg : UpsertResourceValueParams} {a : TenantResourceValue}
    (h : Queries.upsertResourceValue arg t c = .ok (a, c')) : KeepsTags now c [t] c' := by
  refine keepsTags_of (fun hc => hc.upsertResourceValue h) ?_ ?_ fun _ =>
    restamps_upsertResourceValue h
  all_goals obtain ⟨-, -, -, -, vs, rfl, -⟩ := upsertResourceValue_ok h
  · rfl
  · exact keys_self

end statements

theorem checkCreateTenant_undelimited {raw b : CreateTenantBody}
    (h : checkCreateTenant raw = .ok b) : Undelimited b.slug := by
  simp only [checkCreateTenant, ite_error_eq_ok, Except.ok.injEq, Bool.not_eq_false] at h
  obtain ⟨hok, -, rfl⟩ := h
  exact undelimited_tenantSlug hok

theorem checkUpdateTenant_undelimited {raw : UpdateTenantBody} {b : String × String × Status}
    (h : checkUpdateTenant raw = .ok b) : Undelimited b.2.1 := by
  simp only [checkUpdateTenant, ite_error_eq_ok, Bool.not_eq_false, map_eq_ok] at h
  obtain ⟨hok, -, status, -, rfl⟩ := h
  exact undelimited_tenantSlug hok

theorem checkCreateDefinition_undelimited {raw b : CreateDefinitionBody}
    (h : checkCreateDefinition raw = .ok b) : Undelimited b.key := by
  simp only [checkCreateDefinition, ite_error_eq_ok, Except.ok.injEq, Bool.not_eq_false] at h
  obtain ⟨hok, -, rfl⟩ := h
  exact undelimited_definitionKey hok

/-- Whatever statement a handler runs keeps the tags. -/
theorem Statement.keepsTags (h : Statement now t c c') : KeepsTags now c [t] c' := by
  cases h with
  | createTenant hb h => exact keepsTags_createTenant (checkCreateTenant_undelimited hb) h
  | updateTenant hb h => exact keepsTags_updateTenant (checkUpdateTenant_undelimited hb) h
  | deleteTenant h => exact keepsTags_deleteTenant h
  | addTenantDomain h => exact (addTenantDomain_ok h).2 ▸ keepsTags_domains _
  | updateTenantDomain h => exact (updateTenantDomain_ok h).2.2 ▸ keepsTags_domains _
  | removeTenantDomain h => exact removeTenantDomain_ok h ▸ keepsTags_domains _
  | createDefinition hb h =>
    exact keepsTags_createDefinition (checkCreateDefinition_undelimited hb) h
  | updateDefinition h => exact keepsTags_updateDefinition h
  | setDefinitionStatus h => exact keepsTags_setDefinitionStatus h
  | deleteDefinition h => exact keepsTags_deleteDefinition h
  | addField h => exact keepsTags_addField h
  | updateField h => exact keepsTags_updateField h
  | removeField h => exact keepsTags_removeField h
  | createTenantResource h => exact keepsTags_createTenantResource h
  | updateTenantResourceIdentity h => exact keepsTags_updateTenantResourceIdentity h
  | setTenantResourceStatus h => exact keepsTags_setTenantResourceStatus h
  | deleteTenantResource h => exact keepsTags_deleteTenantResource h
  | upsertResourceValue h => exact keepsTags_upsertResourceValue h

theorem keepsTags_statements : KeptByStatements @KeepsTags where
  composes _ := composes_keepsTags
  reads _ _ _ := KeepsTags.refl
  statements := Statement.keepsTags

end Tenancit.Httpapi
