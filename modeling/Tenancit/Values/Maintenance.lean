import Tenancit.Values.Agreement

/-!
The statements on the catalogue that write no value: an operator's work on tenants,
definitions, fields and resources. They keep the links and the value rows of every resource
that stays, and the kind of every field that values refer to.
-/
namespace Tenancit.Values

open Encoding Crypto Store Service Queries Table
open Program.Tx (draw)

inductive Maintenance where
  | createTenant (slug name : String)
  | updateTenant (id : UUID) (name slug : String) (status : Status)
  | deleteTenant (id : UUID)
  | addTenantDomain (tenantId : UUID) (hostname : String)
  | updateTenantDomain (id tenantId : UUID) (hostname : String)
  | removeTenantDomain (id tenantId : UUID)
  | createDefinition (key name description icon : String)
  | setDefinitionStatus (id : UUID) (status : Status)
  | updateDefinition (id : UUID) (name description : String)
  | deleteDefinition (id : UUID)
  | addField (arg : AddFieldParams)
  | updateField (fieldId definitionId : UUID) (label : String) (required : Bool)
  | removeField (fieldId definitionId : UUID)
  | updateResourceIdentity (id tenantId : UUID) (resourceAlias displayName : String)
  | setResourceStatus (id tenantId : UUID) (status : Status)
  | deleteResource (id tenantId : UUID)

/-- The statement of a piece of maintenance. -/
def Maintenance.statement (now : Timestamp) (t : Tick) (c : Catalog) :
    Maintenance → Except PgError Catalog
  | .createTenant slug name => (Queries.createTenant now slug name t c).map Prod.snd
  | .updateTenant id name slug status =>
    (Queries.updateTenant now id name slug status t c).map Prod.snd
  | .deleteTenant id => (Queries.deleteTenant id t c).map Prod.snd
  | .addTenantDomain tenantId hostname =>
    (Queries.addTenantDomain now tenantId hostname t c).map Prod.snd
  | .updateTenantDomain id tenantId hostname =>
    (Queries.updateTenantDomain id tenantId hostname t c).map Prod.snd
  | .removeTenantDomain id tenantId => (Queries.removeTenantDomain id tenantId t c).map Prod.snd
  | .createDefinition key name description icon =>
    (Queries.createDefinition now key name description icon t c).map Prod.snd
  | .setDefinitionStatus id status => (Queries.setDefinitionStatus now id status t c).map Prod.snd
  | .updateDefinition id name description =>
    (Queries.updateDefinition now id name description t c).map Prod.snd
  | .deleteDefinition id => (Queries.deleteDefinition id t c).map Prod.snd
  | .addField arg => (Queries.addField arg t c).map Prod.snd
  | .updateField fieldId definitionId label required =>
    (Queries.updateField fieldId definitionId label required t c).map Prod.snd
  | .removeField fieldId definitionId => (Queries.removeField fieldId definitionId t c).map Prod.snd
  | .updateResourceIdentity id tenantId resourceAlias displayName =>
    (updateTenantResourceIdentity now id tenantId resourceAlias displayName t c).map Prod.snd
  | .setResourceStatus id tenantId status =>
    (setTenantResourceStatus now id tenantId status t c).map Prod.snd
  | .deleteResource id tenantId => (deleteTenantResource id tenantId t c).map Prod.snd

/-- A piece of maintenance in its transaction. -/
def Maintenance.body (m : Maintenance) : Tx Catalog PgError Unit := do
  let begun ← draw .unavailable
  run fun t c => (m.statement begun.clock t c).map fun c' => ((), c')

/-- The links and the rows of the resources that stay, and the kinds of the fields, are kept. -/
structure Keeps (c c' : Catalog) : Prop where
  resources : ∀ r' ∈ c'.resources, ∃ r ∈ c.resources,
    r.id = r'.id ∧ r.sourceResourceId = r'.sourceResourceId
  values : ∀ r' ∈ c'.resources, ∀ fid, findValue c' r'.id fid = findValue c r'.id fid
  fields : ∀ f' ∈ c'.fields, (∃ f ∈ c.fields, f.id = f'.id ∧ f.isSecret = f'.isSecret) ∨
    ∀ f ∈ c.fields, f.id ≠ f'.id

namespace Keeps

variable {c c' : Catalog} {now : Timestamp} {t : Tick}

theorem of_eq (hr : c'.resources = c.resources) (hv : c'.values = c.values)
    (hf : c'.fields = c.fields) : Keeps c c' where
  resources r' hr' := ⟨r', hr ▸ hr', rfl, rfl⟩
  values _ _ _ := by rw [findValue, findValue, hv]
  fields f' hf' := .inl ⟨f', hf ▸ hf', rfl, rfl⟩

theorem of_fields (hr : c'.resources = c.resources) (hv : c'.values = c.values)
    (hf : ∀ f' ∈ c'.fields, (∃ f ∈ c.fields, f.id = f'.id ∧ f.isSecret = f'.isSecret) ∨
      ∀ f ∈ c.fields, f.id ≠ f'.id) : Keeps c c' :=
  have hsame : Keeps c { c' with fields := c.fields } := of_eq hr hv rfl
  { hsame with fields := hf }

theorem updateResources {p : TenantResource → Bool} {set : TenantResource → TenantResource}
    (hid : ∀ r, (set r).id = r.id) (hsource : ∀ r, (set r).sourceResourceId = r.sourceResourceId) :
    Keeps c { c with resources := update p set c.resources } where
  resources r' hr' := by
    obtain ⟨r, hr, rfl⟩ := mem_update.mp hr'
    refine ⟨r, hr, ?_⟩
    split <;> simp [hid, hsource]
  values _ _ _ := rfl
  fields f' hf' := .inl ⟨f', hf', rfl, rfl⟩

theorem removeResources {p : TenantResource → Bool} (hc : c.WellFormed)
    (h : Queries.removeResources p c = .ok c') : Keeps c c' := by
  obtain ⟨-, rfl⟩ := removeResources_ok h
  refine ⟨?_, ?_, fun f' hf' => .inl ⟨f', hf', rfl, rfl⟩⟩
  · intro r' hr'
    exact ⟨r', (mem_delete.mp hr').1, rfl, rfl⟩
  · intro r' hr' fid
    obtain ⟨hr', hp⟩ := mem_delete.mp hr'
    simp only [findValue]
    rw [lookup_delete hc.valueKeys]
    cases hv : lookup valueKey (r'.id, fid) c.values with
    | none => rfl
    | some v =>
      -- the rows of a resource that stays are not those of one that goes
      have hkey : v.tenantResourceId = r'.id := (findValue_some hv).2.1
      have hkept : ¬Gone p c v.tenantResourceId := by
        rintro ⟨r, hr, hpr, hid⟩
        obtain rfl := hc.resourceIds.eq_of_key hr hr' (hid.trans hkey)
        rw [hp] at hpr
        cases hpr
      simp [hkept]

end Keeps

/-- Maintenance keeps what values depend on, and the keys of the schema. -/
theorem Maintenance.keeps {m : Maintenance} {c c' : Catalog} {now : Timestamp} {t : Tick}
    (hc : c.WellFormed) (hm : m.statement now t c = .ok c') : c'.WellFormed ∧ Keeps c c' := by
  cases m with
  | createTenant slug name =>
    obtain ⟨a, h⟩ := map_snd_eq_ok.mp hm
    refine ⟨hc.createTenant h, ?_⟩
    obtain ⟨-, -, rfl⟩ := createTenant_ok h
    exact .of_eq rfl rfl rfl
  | updateTenant id name slug status =>
    obtain ⟨a, h⟩ := map_snd_eq_ok.mp hm
    refine ⟨hc.updateTenant h, ?_⟩
    obtain ⟨_, -, -, -, rfl⟩ := updateTenant_ok h
    exact .of_eq rfl rfl rfl
  | deleteTenant id =>
    obtain ⟨n, h⟩ := map_snd_eq_ok.mp hm
    refine ⟨hc.deleteTenant h, ?_⟩
    obtain ⟨-, rfl⟩ | ⟨-, c₁, h₁, rfl⟩ := deleteTenant_ok h
    · exact .of_eq rfl rfl rfl
    · have hk := Keeps.removeResources hc h₁
      exact ⟨hk.resources, hk.values, hk.fields⟩
  | addTenantDomain tenantId hostname =>
    obtain ⟨a, h⟩ := map_snd_eq_ok.mp hm
    obtain ⟨-, rfl⟩ := addTenantDomain_ok h
    exact ⟨hc.withDomains _, .of_eq rfl rfl rfl⟩
  | updateTenantDomain id tenantId hostname =>
    obtain ⟨a, h⟩ := map_snd_eq_ok.mp hm
    obtain ⟨-, -, rfl⟩ := updateTenantDomain_ok h
    exact ⟨hc.withDomains _, .of_eq rfl rfl rfl⟩
  | removeTenantDomain id tenantId =>
    cases hm
    exact ⟨hc.withDomains _, .of_eq rfl rfl rfl⟩
  | createDefinition key name description icon =>
    obtain ⟨a, h⟩ := map_snd_eq_ok.mp hm
    refine ⟨hc.createDefinition h, ?_⟩
    obtain ⟨-, -, rfl⟩ := createDefinition_ok h
    exact .of_eq rfl rfl rfl
  | setDefinitionStatus id status =>
    obtain ⟨a, h⟩ := map_snd_eq_ok.mp hm
    obtain ⟨_, -, -, rfl⟩ := changeDefinition_ok h
    exact ⟨hc.updateDefinitions (fun _ => rfl) fun _ => rfl, .of_eq rfl rfl rfl⟩
  | updateDefinition id name description =>
    obtain ⟨a, h⟩ := map_snd_eq_ok.mp hm
    obtain ⟨_, -, -, rfl⟩ := changeDefinition_ok h
    exact ⟨hc.updateDefinitions (fun _ => rfl) fun _ => rfl, .of_eq rfl rfl rfl⟩
  | deleteDefinition id =>
    obtain ⟨n, h⟩ := map_snd_eq_ok.mp hm
    refine ⟨hc.deleteDefinition h, ?_⟩
    obtain ⟨-, rfl⟩ | ⟨-, -, -, rfl⟩ := deleteDefinition_ok h
    · exact .of_eq rfl rfl rfl
    · exact .of_fields rfl rfl fun f' hf' => .inl ⟨f', (mem_delete.mp hf').1, rfl, rfl⟩
  | addField arg =>
    obtain ⟨a, h⟩ := map_snd_eq_ok.mp hm
    refine ⟨hc.addField h, ?_⟩
    obtain ⟨hnew, -, -, rfl⟩ := addField_ok h
    refine .of_fields rfl rfl fun f' hf' => ?_
    rcases List.mem_append.mp hf' with hf' | hf'
    · exact .inl ⟨f', hf', rfl, rfl⟩
    · exact .inr fun f hf => List.mem_singleton.mp hf' ▸ (hnew f hf).1
  | updateField fieldId definitionId label required =>
    obtain ⟨a, h⟩ := map_snd_eq_ok.mp hm
    refine ⟨hc.updateField h, ?_⟩
    obtain ⟨_, -, -, rfl⟩ := updateField_ok h
    refine .of_fields rfl rfl fun f' hf' => ?_
    obtain ⟨f, hf, rfl⟩ := mem_update.mp hf'
    refine .inl ⟨f, hf, ?_⟩
    split <;> simp [setField]
  | removeField fieldId definitionId =>
    obtain ⟨n, h⟩ := map_snd_eq_ok.mp hm
    refine ⟨hc.removeField h, ?_⟩
    obtain ⟨-, rfl⟩ | ⟨-, -, rfl⟩ := removeField_ok h
    · exact .of_eq rfl rfl rfl
    · exact .of_fields rfl rfl fun f' hf' => .inl ⟨f', (mem_delete.mp hf').1, rfl, rfl⟩
  | updateResourceIdentity id tenantId resourceAlias displayName =>
    obtain ⟨a, h⟩ := map_snd_eq_ok.mp hm
    obtain ⟨_, -, -, rfl⟩ := updateTenantResourceIdentity_ok h
    exact ⟨hc.updateResources (fun _ => rfl) (fun _ => rfl) (fun _ => rfl) fun _ => rfl,
      .updateResources (fun _ => rfl) fun _ => rfl⟩
  | setResourceStatus id tenantId status =>
    obtain ⟨a, h⟩ := map_snd_eq_ok.mp hm
    obtain ⟨_, -, -, rfl⟩ := setTenantResourceStatus_ok h
    exact ⟨hc.updateResources (fun _ => rfl) (fun _ => rfl) (fun _ => rfl) fun _ => rfl,
      .updateResources (fun _ => rfl) fun _ => rfl⟩
  | deleteResource id tenantId =>
    obtain ⟨n, h⟩ := map_snd_eq_ok.mp hm
    refine ⟨hc.deleteTenantResource h, ?_⟩
    obtain ⟨-, rfl⟩ | ⟨-, h⟩ := deleteTenantResource_ok h
    · exact .of_eq rfl rfl rfl
    · exact .removeResources hc h

/-- The plain map after a step that may have removed resources. -/
def forget (c : Catalog) (o : PlainValues) : PlainValues :=
  o.drop fun id => !c.resources.any fun r => r.id = id

variable {Key : Type} {aead : Aead Key} {cs : List (Cryptor aead)} {c : Catalog} {o : PlainValues}

theorem Agrees.maintain (h : Agrees cs c o) (m : Maintenance) (ts : List Tick) :
    Agrees cs (m.body.after ts c) (forget (m.body.after ts c) o) := by
  have hkept : ∀ (c' : Catalog), ∀ r' ∈ c'.resources, (forget c' o).base r'.id = o.base r'.id ∧
      (forget c' o).own r'.id = o.own r'.id := by
    intro c' r' hr'
    have hp : (!c'.resources.any fun r => r.id = r'.id) = false := by simpa using ⟨r', hr', rfl⟩
    exact ⟨Overlay.base_drop_of_kept hp, Overlay.own_drop_of_kept hp⟩
  cases hm : m.body ts c with
  | error e =>
    rw [Program.Tx.after_of_error hm]
    have hk : Keeps c c := Keeps.of_eq rfl rfl rfl
    exact h.frame h.wellFormed hk.resources hk.values hk.fields (hkept c)
  | ok x =>
    obtain ⟨a, ts', c'⟩ := x
    rw [Program.Tx.after_of_ok hm]
    obtain ⟨begun, rest, -, hrun⟩ := Program.Tx.draw_bind_eq_ok.mp hm
    obtain ⟨t, -, hstatement⟩ := Program.Tx.statement_eq_ok.mp hrun
    obtain ⟨c₁, hc₁, heq⟩ := map_eq_ok.mp hstatement
    cases heq
    obtain ⟨hc', hk⟩ := m.keeps h.wellFormed hc₁
    exact h.frame hc' hk.resources hk.values hk.fields (hkept _)

end Tenancit.Values
