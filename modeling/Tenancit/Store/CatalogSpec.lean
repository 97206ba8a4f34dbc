import Tenancit.Store.Catalog

/-!
What the statements on the catalogue do when they succeed: the row they return, the
constraints they found satisfied and the tables they leave. Each statement is described
once; the invariants are derived from these descriptions.
-/
namespace Tenancit.Store.Queries

open Table

variable {now : Timestamp} {t : Tick} {c c' : Catalog} {id tenantId : UUID}

theorem one_eq_ok {α : Type} {o : Option α} {a : α} : one o = .ok a ↔ o = some a := by
  cases o <;> simp [one]

theorem ite_error_eq_ok {ε α : Type} {p : Prop} [Decidable p] {e : ε} {x : Except ε α} {a : α} :
    (if p then .error e else x) = .ok a ↔ ¬p ∧ x = .ok a := by
  by_cases h : p <;> simp [h]

theorem map_eq_ok {ε α β : Type} {f : α → β} {x : Except ε α} {b : β} :
    x.map f = .ok b ↔ ∃ a, x = .ok a ∧ f a = b := by
  cases x <;> simp [Except.map]

theorem map_snd_eq_ok {ε α β : Type} {x : Except ε (α × β)} {b : β} :
    x.map Prod.snd = .ok b ↔ ∃ a, x = .ok (a, b) := by
  cases x with
  | error e => simp [Except.map]
  | ok r => simp [Except.map, Prod.ext_iff]

theorem bind_eq_ok {ε α β : Type} {f : α → Except ε β} {x : Except ε α} {b : β} :
    x >>= f = .ok b ↔ ∃ a, x = .ok a ∧ f a = .ok b := by
  cases x <;> simp [bind, Except.bind]

section tenants

theorem createTenant_ok {slug name : String} {a : Tenant}
    (h : createTenant now slug name t c = .ok (a, c')) :
    (∀ x ∈ c.tenants, x.id ≠ a.id ∧ x.slug ≠ slug) ∧ a = ⟨t.ids 0, slug, name, .active, now, now⟩ ∧
      c' = { c with tenants := c.tenants ++ [a] } := by
  simp only [createTenant, ite_error_eq_ok, Except.ok.injEq, Prod.mk.injEq] at h
  obtain ⟨hnew, rfl, rfl⟩ := h
  exact ⟨fun x hx => by simpa [not_or] using fun hne => hnew ⟨x, hx, hne⟩, rfl, rfl⟩

/-- The columns `UpdateTenant` sets. -/
def setTenant (now : Timestamp) (name slug : String) (status : Status) (x : Tenant) : Tenant :=
  { x with name := name, slug := slug, status := status, updatedAt := now }

theorem updateTenant_ok {name slug : String} {status : Status} {a : Tenant}
    (h : updateTenant now id name slug status t c = .ok (a, c')) :
    ∃ row, lookup Tenant.id id c.tenants = some row ∧ (∀ x ∈ c.tenants, x.id ≠ id → x.slug ≠ slug) ∧
      a = setTenant now name slug status row ∧
      c' = { c with
        tenants := update (fun x => x.id = id) (setTenant now name slug status) c.tenants } := by
  simp only [updateTenant] at h
  split at h
  · cases h
  next row hrow =>
    simp only [ite_error_eq_ok, Except.ok.injEq, Prod.mk.injEq] at h
    obtain ⟨hslug, rfl, rfl⟩ := h
    exact ⟨row, hrow, fun x hx hne he => hslug ⟨x, hx, hne, he⟩, rfl, rfl⟩

theorem removeResources_ok {p : TenantResource → Bool} (h : removeResources p c = .ok c') :
    (∀ r ∈ c.resources, p r = false → ∀ s, r.sourceResourceId = some s → ¬Gone p c s) ∧
      c' = { c with
        resources := delete p c.resources
        values := delete (fun v => Gone p c v.tenantResourceId) c.values } := by
  simp only [removeResources, ite_error_eq_ok, Except.ok.injEq] at h
  obtain ⟨hkept, rfl⟩ := h
  exact ⟨fun r hr hp s hs hg => hkept ⟨r, hr, hp, s, hs, hg⟩, rfl⟩

theorem deleteTenant_ok {n : Nat} (h : deleteTenant id t c = .ok (n, c')) :
    n = 0 ∧ c' = c ∨ n = 1 ∧ ∃ c₁, removeResources (fun r => r.tenantId = id) c = .ok c₁ ∧
      c' = { c₁ with
        tenants := delete (fun x => x.id = id) c.tenants
        domains := delete (fun d => d.tenantId = id) c.domains } := by
  simp only [deleteTenant] at h
  split at h
  · cases h
    exact .inl ⟨rfl, rfl⟩
  · obtain ⟨c₁, h₁, h⟩ := map_eq_ok.mp h
    cases h
    exact .inr ⟨rfl, c₁, h₁, rfl⟩

theorem addTenantDomain_ok {hostname : String} {a : TenantDomain}
    (h : addTenantDomain now tenantId hostname t c = .ok (a, c')) :
    (∀ d ∈ c.domains, d.id ≠ a.id ∧ d.hostname ≠ a.hostname) ∧ c' = { c with
      domains := c.domains ++ [a] } := by
  simp only [addTenantDomain, ite_error_eq_ok, Except.ok.injEq, Prod.mk.injEq] at h
  obtain ⟨-, hnew, -, rfl, rfl⟩ := h
  exact ⟨fun d hd => by simpa [not_or] using fun hne => hnew ⟨d, hd, hne⟩, rfl⟩

/-- The row is that of the tenant and the host name. -/
theorem addTenantDomain_row {hostname : String} {a : TenantDomain}
    (h : addTenantDomain now tenantId hostname t c = .ok (a, c')) :
    a.hostname = hostname ∧ a.tenantId = tenantId := by
  simp only [addTenantDomain, ite_error_eq_ok, Except.ok.injEq, Prod.mk.injEq] at h
  obtain ⟨-, -, -, rfl, -⟩ := h
  exact ⟨rfl, rfl⟩

/-- The column `UpdateTenantDomain` sets. -/
def setHostname (hostname : String) (d : TenantDomain) : TenantDomain :=
  { d with hostname := hostname }

theorem updateTenantDomain_ok {hostname : String} {a : TenantDomain}
    (h : updateTenantDomain id tenantId hostname t c = .ok (a, c')) :
    (∃ d ∈ c.domains, d.id = id ∧ d.tenantId = tenantId) ∧
    (∀ d ∈ c.domains, d.id ≠ id → d.hostname ≠ hostname) ∧
      c' = { c with
        domains :=
        update (fun d => d.id = id && d.tenantId = tenantId)
          (setHostname hostname) c.domains } := by
  simp only [updateTenantDomain] at h
  split at h
  · cases h
  next row hrow =>
    simp only [ite_error_eq_ok, Except.ok.injEq, Prod.mk.injEq] at h
    obtain ⟨-, hfree, -, rfl⟩ := h
    refine ⟨⟨row, List.mem_of_find?_eq_some hrow, ?_⟩, fun d hd hne he =>
      hfree ⟨d, hd, hne, he⟩, rfl⟩
    simpa using List.find?_some hrow

theorem removeTenantDomain_ok {n : Nat} (h : removeTenantDomain id tenantId t c = .ok (n, c')) :
    c' = { c with domains := delete (fun d => d.id = id && d.tenantId = tenantId) c.domains } := by
  cases h
  rfl

end tenants

section definitions

theorem createDefinition_ok {key name description icon : String} {a : ResourceDefinition}
    (h : createDefinition now key name description icon t c = .ok (a, c')) :
    (∀ d ∈ c.definitions, d.id ≠ a.id ∧ d.key ≠ key) ∧
      a = ⟨t.ids 0, key, name, description, icon, .active, now, now⟩ ∧
      c' = { c with definitions := c.definitions ++ [a] } := by
  simp only [createDefinition, ite_error_eq_ok, Except.ok.injEq, Prod.mk.injEq] at h
  obtain ⟨hnew, rfl, rfl⟩ := h
  exact ⟨fun d hd => by simpa [not_or] using fun hne => hnew ⟨d, hd, hne⟩, rfl, rfl⟩

/-- The statements that update a definition set its `updated_at` and keep its identity. -/
theorem changeDefinition_ok {set : ResourceDefinition → ResourceDefinition} {a : ResourceDefinition}
    (h : changeDefinition id set c = .ok (a, c')) :
    ∃ row, lookup ResourceDefinition.id id c.definitions = some row ∧ a = set row ∧
      c' = { c with definitions := update (fun d => d.id = id) set c.definitions } := by
  simp only [changeDefinition] at h
  split at h
  · cases h
  next row hrow =>
    cases h
    exact ⟨row, hrow, rfl, rfl⟩

theorem deleteDefinition_ok {n : Nat} (h : deleteDefinition id t c = .ok (n, c')) :
    n = 0 ∧ c' = c ∨ n = 1 ∧ (∀ r ∈ c.resources, r.resourceDefinitionId ≠ id) ∧
      (∀ v ∈ c.values, ∀ f ∈ c.fields, f.resourceDefinitionId = id → f.id ≠ v.resourceFieldId) ∧
      c' = { c with
        definitions := delete (fun d => d.id = id) c.definitions
        fields := delete (fun f => f.resourceDefinitionId = id) c.fields } := by
  simp only [deleteDefinition] at h
  split at h
  · cases h
    exact .inl ⟨rfl, rfl⟩
  · simp only [ite_error_eq_ok, Except.ok.injEq, Prod.mk.injEq] at h
    obtain ⟨hr, hv, rfl, rfl⟩ := h
    exact .inr ⟨rfl, fun r hr' he => hr ⟨r, hr', he⟩,
      fun v hv' f hf hd he => hv ⟨v, hv', f, hf, hd, he⟩, rfl⟩

theorem addField_ok {arg : AddFieldParams} {a : ResourceField}
    (h : addField arg t c = .ok (a, c')) : (∀ f ∈ c.fields, f.id ≠ a.id ∧
        ¬(f.resourceDefinitionId = a.resourceDefinitionId ∧ f.key = a.key)) ∧
      (∃ d ∈ c.definitions, d.id = a.resourceDefinitionId) ∧
      a = ⟨t.ids 0, arg.resourceDefinitionId, arg.key, arg.label, arg.hint,
        arg.dataType, arg.required, arg.isSecret, arg.sortOrder⟩ ∧
      c' = touchDefinition a.resourceDefinitionId t.clock { c with fields := c.fields ++ [a] } := by
  simp only [addField, ite_error_eq_ok, Except.ok.injEq, Prod.mk.injEq, not_not] at h
  obtain ⟨hnew, hd, rfl, rfl⟩ := h
  exact ⟨fun f hf => not_or.mp fun hne => hnew ⟨f, hf, hne⟩, hd, rfl, rfl⟩

theorem findField_some {fieldId definitionId : UUID} {f : ResourceField}
    (h : findField c fieldId definitionId = some f) :
    f ∈ c.fields ∧ f.id = fieldId ∧ f.resourceDefinitionId = definitionId := by
  have hp := List.find?_some h
  simp only [Bool.and_eq_true, decide_eq_true_eq] at hp
  exact ⟨List.mem_of_find?_eq_some h, hp⟩

/-- The columns `UpdateField` sets. -/
def setField (label : String) (required : Bool) (f : ResourceField) : ResourceField :=
  { f with label := label, required := required }

theorem updateField_ok {fieldId definitionId : UUID} {label : String} {required : Bool}
    {a : ResourceField} (h : updateField fieldId definitionId label required t c = .ok (a, c')) :
    ∃ row, findField c fieldId definitionId = some row ∧ a = setField label required row ∧
      c' = touchDefinition definitionId t.clock { c with
        fields := update (fun f => f.id = fieldId && f.resourceDefinitionId = definitionId)
          (setField label required) c.fields } := by
  simp only [updateField] at h
  split at h
  · cases h
  next row hrow =>
    cases h
    exact ⟨row, hrow, rfl, rfl⟩

theorem removeField_ok {fieldId definitionId : UUID} {n : Nat}
    (h : removeField fieldId definitionId t c = .ok (n, c')) :
    n = 0 ∧ c' = c ∨ n = 1 ∧ (∀ v ∈ c.values, v.resourceFieldId ≠ fieldId) ∧
      c' = touchDefinition definitionId t.clock { c with
        fields :=
        delete (fun f => f.id = fieldId && f.resourceDefinitionId = definitionId) c.fields } := by
  simp only [removeField] at h
  split at h
  · cases h
    exact .inl ⟨rfl, rfl⟩
  next row hrow =>
    simp only [ite_error_eq_ok, Except.ok.injEq, Prod.mk.injEq] at h
    obtain ⟨hv, rfl, rfl⟩ := h
    exact .inr ⟨rfl, fun v hv' he => hv ⟨v, hv', he.trans (findField_some hrow).2.1.symm⟩, rfl⟩

theorem mem_fieldsOf {definitionId : UUID} {f : ResourceField} :
    f ∈ fieldsOf c definitionId ↔ f ∈ c.fields ∧ f.resourceDefinitionId = definitionId := by
  simp [fieldsOf, List.mem_insertionSort]

end definitions

section resources

theorem createTenantResource_ok {arg : CreateTenantResourceParams} {a : TenantResource}
    (h : createTenantResource now arg t c = .ok (a, c')) :
    SourceValid c arg.tenantId arg.resourceDefinitionId arg.sourceResourceId ∧
      (∀ r ∈ c.resources, r.id ≠ a.id) ∧ (∃ x ∈ c.tenants, x.id = arg.tenantId) ∧
      (∃ d ∈ c.definitions, d.id = arg.resourceDefinitionId) ∧
      a = ⟨t.ids 0, arg.tenantId, arg.resourceDefinitionId, .active, now, now, arg.resourceAlias,
        arg.sourceResourceId, arg.displayName⟩ ∧
      c' = { c with resources := c.resources ++ [a] } := by
  simp only [createTenantResource, ite_error_eq_ok, Except.ok.injEq,
    Prod.mk.injEq, not_or, not_not] at h
  obtain ⟨hsource, -, hnew, ⟨htenant, hdef⟩, rfl, rfl⟩ := h
  exact ⟨hsource, fun r hr he => hnew ⟨r, hr, .inl he⟩, htenant, hdef, rfl, rfl⟩

theorem findResource_some {r : TenantResource} (h : findResource c id tenantId = some r) :
    r ∈ c.resources ∧ r.id = id ∧ r.tenantId = tenantId := by
  have hp := List.find?_some h
  simp only [Bool.and_eq_true, decide_eq_true_eq] at hp
  exact ⟨List.mem_of_find?_eq_some h, hp⟩

/-- The columns `UpdateTenantResourceIdentity` sets. -/
def setIdentity (now : Timestamp) (resourceAlias displayName : String) (r : TenantResource) :
    TenantResource :=
  { r with resourceAlias := resourceAlias, displayName := displayName, updatedAt := now }

theorem updateTenantResourceIdentity_ok {resourceAlias displayName : String} {a : TenantResource}
    (h : updateTenantResourceIdentity now id tenantId resourceAlias displayName t c = .ok (a, c')) :
    ∃ row, findResource c id tenantId = some row ∧ a =
      setIdentity now resourceAlias displayName row ∧
      c' = changeResource id tenantId (setIdentity now resourceAlias displayName) c := by
  simp only [updateTenantResourceIdentity] at h
  split at h
  · cases h
  next row hrow =>
    simp only [ite_error_eq_ok, Except.ok.injEq, Prod.mk.injEq] at h
    obtain ⟨-, -, rfl, rfl⟩ := h
    exact ⟨row, hrow, rfl, rfl⟩

/-- The columns `SetTenantResourceStatus` sets. -/
def setStatus (now : Timestamp) (status : Status) (r : TenantResource) : TenantResource :=
  { r with status := status, updatedAt := now }

theorem setTenantResourceStatus_ok {status : Status} {a : TenantResource}
    (h : setTenantResourceStatus now id tenantId status t c = .ok (a, c')) :
    ∃ row, findResource c id tenantId = some row ∧ a = setStatus now status row ∧
      c' = changeResource id tenantId (setStatus now status) c := by
  simp only [setTenantResourceStatus] at h
  split at h
  · cases h
  next row hrow =>
    cases h
    exact ⟨row, hrow, rfl, rfl⟩

theorem deleteTenantResource_ok {n : Nat} (h : deleteTenantResource id tenantId t c = .ok (n, c')) :
    n = 0 ∧ c' = c ∨
      n = 1 ∧ removeResources (fun r => r.id = id && r.tenantId = tenantId) c = .ok c' := by
  simp only [deleteTenantResource] at h
  split at h
  · cases h
    exact .inl ⟨rfl, rfl⟩
  · obtain ⟨c₁, h₁, h⟩ := map_eq_ok.mp h
    cases h
    exact .inr ⟨rfl, h₁⟩

end resources

section values

theorem deleteResourceValue_ok {resourceId fieldId : UUID} {n : Nat}
    (h : deleteResourceValue resourceId fieldId t c = .ok (n, c')) :
    c' = { c with values := delete (fun v => valueKey v = (resourceId, fieldId)) c.values } := by
  cases h
  rfl

theorem findValue_some {resourceId fieldId : UUID} {v : TenantResourceValue}
    (h : findValue c resourceId fieldId = some v) :
    v ∈ c.values ∧ v.tenantResourceId = resourceId ∧ v.resourceFieldId = fieldId := by
  have hkey := key_of_lookup h
  simp only [valueKey, Prod.mk.injEq] at hkey
  exact ⟨mem_of_lookup h, hkey⟩

/-- An upsert replaces the value row of its resource and field, or appends one, and
touches the resource. -/
theorem upsertResourceValue_ok {arg : UpsertResourceValueParams} {a : TenantResourceValue}
    (h : upsertResourceValue arg t c = .ok (a, c')) :
    (∃ r ∈ c.resources, r.id = arg.tenantResourceId) ∧
    (∃ f ∈ c.fields, f.id = arg.resourceFieldId) ∧
      valueKey a = (arg.tenantResourceId, arg.resourceFieldId) ∧ a = putValue arg a ∧
      ∃ vs, c' = touchResource arg.tenantResourceId t.clock { c with values := vs } ∧
        ((∃ v, lookup valueKey (arg.tenantResourceId, arg.resourceFieldId) c.values = some v ∧
            a = putValue arg v ∧
            vs = update (fun v => valueKey v = (arg.tenantResourceId, arg.resourceFieldId))
              (putValue arg) c.values) ∨
          (lookup valueKey (arg.tenantResourceId, arg.resourceFieldId) c.values = none ∧
            (∀ v ∈ c.values, v.id ≠ a.id) ∧ vs = c.values ++ [a])) := by
  simp only [upsertResourceValue, ite_error_eq_ok, not_or, not_not] at h
  obtain ⟨⟨hr, hf⟩, h⟩ := h
  split at h
  next v hv =>
    cases h
    have hkey : valueKey v = (arg.tenantResourceId, arg.resourceFieldId) := key_of_lookup hv
    exact ⟨hr, hf, hkey, rfl, _, rfl, .inl ⟨v, hv, rfl, rfl⟩⟩
  next hnone =>
    simp only [ite_error_eq_ok, Except.ok.injEq, Prod.mk.injEq] at h
    obtain ⟨hid, rfl, rfl⟩ := h
    exact ⟨hr, hf, rfl, rfl, _, rfl, .inr ⟨hnone, fun v hv he => hid ⟨v, hv, he⟩, rfl⟩⟩

/-- What is read under a key after an upsert: the row returned, under its own key. -/
theorem findValue_upsert {arg : UpsertResourceValueParams} {a : TenantResourceValue}
    (h : upsertResourceValue arg t c = .ok (a, c')) (resourceId fieldId : UUID) :
    findValue c' resourceId fieldId =
      if (resourceId, fieldId) = (arg.tenantResourceId, arg.resourceFieldId) then some a
      else findValue c resourceId fieldId := by
  obtain ⟨-, -, hkey, -, vs, rfl, hvs⟩ := upsertResourceValue_ok h
  change lookup valueKey (resourceId, fieldId) vs = _
  rcases hvs with ⟨v, hv, rfl, rfl⟩ | ⟨hnone, -, rfl⟩
  · rw [lookup_update (f := putValue arg) fun _ => rfl]
    split
    next heq =>
      rw [heq, hv]
      simp [key_of_lookup hv]
    next hne =>
      change _ = lookup valueKey (resourceId, fieldId) c.values
      cases hl : lookup valueKey (resourceId, fieldId) c.values with
      | none => rfl
      | some w => simp [key_of_lookup hl, hne]
  · rw [lookup_append, lookup_cons, hkey]
    split
    next heq => rw [← heq, hnone, if_pos rfl, Option.none_or]
    next hne => simp [Ne.symm hne, findValue]

theorem findValue_deleteResourceValue {rid fid : UUID} {n : Nat} (hc : Keyed valueKey c.values)
    (h : deleteResourceValue rid fid t c = .ok (n, c')) (resourceId fieldId : UUID) :
    findValue c' resourceId fieldId =
      if (resourceId, fieldId) = (rid, fid) then none else findValue c resourceId fieldId := by
  obtain rfl := deleteResourceValue_ok h
  simp only [findValue]
  rw [lookup_delete hc]
  cases hl : lookup valueKey (resourceId, fieldId) c.values with
  | none => simp
  | some v => by_cases hk : (resourceId, fieldId) = (rid, fid) <;> simp [key_of_lookup hl, hk]

theorem mem_valuesOf {resourceId : UUID} {v : TenantResourceValue} :
    v ∈ valuesOf c resourceId ↔ v ∈ c.values ∧ v.tenantResourceId = resourceId := by
  simp [valuesOf]

end values

end Tenancit.Store.Queries
