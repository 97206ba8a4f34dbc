import Tenancit.Httpapi.ResolveOne
import Tenancit.Values.Duplicates

/-!
Duplicates and their originals after the duplication: what is written, cleared or deleted of one
resource shows in the maps of that resource and of those linked to it alone, and a duplicate and
its original are never linked to each other.
-/
namespace Tenancit.Httpapi

open Encoding Crypto Store Service Queries Table
open Values (resourceKey effectiveMap)

variable {Key : Type} {aead : Aead Key} {c c' : Catalog} {id y : UUID}

/-- The tables agree but for one resource and its values. -/
structure SameElsewhere (y : UUID) (c c' : Catalog) : Prop where
  definitions : c'.definitions = c.definitions
  fields : c'.fields = c.fields
  resources : ∀ id, id ≠ y → lookup TenantResource.id id c'.resources =
    lookup TenantResource.id id c.resources
  values : ∀ id, id ≠ y → ∀ fid, findValue c' id fid = findValue c id fid

/-- A write, a clear or a delete of a resource. -/
inductive Alters (aead : Aead Key) (y : UUID) (c : Catalog) : Catalog → Prop
  | write {cryptor : Cryptor aead} {in_ : UpdateResourceFieldInput} {ts ts' : List Tick}
      {f : ResourceField} {c' : Catalog}
      (hid : in_.resourceId = y) (h : updateResourceFieldInTx cryptor in_ ts c = .ok (f, ts', c')) :
      Alters aead y c c'
  | clear {in_ : UpdateResourceFieldInput} {ts ts' : List Tick} {f : ResourceField} {c' : Catalog}
      (hid : in_.resourceId = y) (h : clearResourceFieldOverrideInTx in_ ts c = .ok (f, ts', c')) :
      Alters aead y c c'
  | delete {tenantId : UUID} {t : Tick} {n : Nat} {c' : Catalog}
      (h : Queries.deleteTenantResource y tenantId t c = .ok (n, c')) : Alters aead y c c'

theorem SameElsewhere.of_upsert {arg : UpsertResourceValueParams} {a : TenantResourceValue}
    {t : Tick} (h : Queries.upsertResourceValue arg t c = .ok (a, c')) :
    SameElsewhere arg.tenantResourceId c c' := by
  have hfind := findValue_upsert h
  obtain ⟨-, -, -, -, vs, rfl, -⟩ := upsertResourceValue_ok h
  refine ⟨rfl, rfl, fun id hid => ?_, fun id hid fid => ?_⟩
  · show lookup TenantResource.id id (update _ _ c.resources) = _
    rw [lookup_update]
    swap
    · exact fun _ => rfl
    cases hl : lookup TenantResource.id id c.resources with
    | none => rfl
    | some r =>
      have hne : r.id ≠ arg.tenantResourceId := key_of_lookup hl ▸ hid
      simp [hne]
  · rw [hfind, if_neg]
    intro heq
    exact hid (Prod.mk.injEq _ _ _ _ ▸ heq).1

theorem SameElsewhere.of_clear (hc : c.WellFormed) {fid : UUID} {t : Tick} {n : Nat}
    (h : Queries.deleteResourceValue y fid t c = .ok (n, c')) : SameElsewhere y c c' := by
  have hfind := findValue_deleteResourceValue hc.valueKeys h
  obtain rfl := deleteResourceValue_ok h
  refine ⟨rfl, rfl, fun _ _ => rfl, fun id hne g => ?_⟩
  rw [hfind, if_neg]
  intro heq
  exact hne (Prod.mk.injEq _ _ _ _ ▸ heq).1

theorem SameElsewhere.of_removeResources (hc : c.WellFormed) {p : TenantResource → Bool}
    (hp : ∀ r, p r = true → r.id = y) (h : removeResources p c = .ok c') :
    SameElsewhere y c c' := by
  obtain ⟨-, rfl⟩ := removeResources_ok h
  refine ⟨rfl, rfl, fun id hid => ?_, fun id hid fid => ?_⟩
  · rw [lookup_delete hc.resourceIds]
    cases hl : lookup TenantResource.id id c.resources with
    | none => rfl
    | some r =>
      have hpr : p r = false := by
        by_contra hpr
        exact hid ((key_of_lookup hl).symm.trans (hp r (by simpa using hpr)))
      simp [hpr]
  · show lookup valueKey (id, fid) (Table.delete _ c.values) = lookup valueKey (id, fid) c.values
    rw [lookup_delete hc.valueKeys]
    cases hl : lookup valueKey (id, fid) c.values with
    | none => rfl
    | some v =>
      have hkey : v.tenantResourceId = id := (findValue_some hl).2.1
      have hkept : ¬Gone p c v.tenantResourceId := by
        rintro ⟨r, -, hpr, hrid⟩
        exact hid (hkey.symm.trans (hrid.symm.trans (hp r hpr)))
      simp [hkept]

theorem Alters.wellFormed (hc : c.WellFormed) (h : Alters aead y c c') : c'.WellFormed := by
  cases h with
  | write hid h =>
    obtain ⟨resource, ts₁, -, -, -, hstore⟩ := updateResourceFieldInTx_ok h
    obtain ⟨p, t, a, -, -, hupsert, -⟩ := storeField_ok hstore
    exact hc.upsertResourceValue hupsert
  | clear hid h =>
    obtain ⟨resource, source, -, -, -, -, -, rfl⟩ := clearResourceFieldOverrideInTx_ok h
    exact hc.deleteResourceValue (t := ⟨0, fun _ => 0, fun _ => 0, .plain⟩) rfl
  | delete h => exact hc.deleteTenantResource h

/-- What an alteration of one resource leaves alone. -/
theorem Alters.sameElsewhere (hc : c.WellFormed) (h : Alters aead y c c') :
    SameElsewhere y c c' := by
  cases h with
  | write hid h =>
    obtain ⟨resource, ts₁, hresource, -, -, hstore⟩ := updateResourceFieldInTx_ok h
    obtain ⟨p, t, a, hpid, -, hupsert, -⟩ := storeField_ok hstore
    have hsame := SameElsewhere.of_upsert hupsert
    rwa [hpid, (findResource_some hresource).2.1, hid] at hsame
  | @clear in_ ts ts' f c' hid h =>
    obtain ⟨resource, source, hresource, -, -, -, -, rfl⟩ := clearResourceFieldOverrideInTx_ok h
    rw [← hid, ← (findResource_some hresource).2.1]
    have hclear : Queries.deleteResourceValue resource.id f.id ⟨0, fun _ => 0, fun _ =>
      0, .plain⟩ c = .ok (_, _) := rfl
    exact .of_clear hc hclear
  | delete h =>
    obtain ⟨-, rfl⟩ | ⟨-, hremove⟩ := deleteTenantResource_ok h
    · exact ⟨rfl, rfl, fun _ _ => rfl, fun _ _ _ => rfl⟩
    · refine .of_removeResources hc (fun r hp => ?_) hremove
      simpa using (Bool.and_eq_true_iff.mp hp).1

/-- The map of a resource that is neither altered nor linked to the one altered. -/
theorem SameElsewhere.effectiveMap_eq (h : SameElsewhere y c c') (hc : c.WellFormed)
    (hc' : c'.WellFormed) (hid : id ≠ y)
    (hsource : ∀ r ∈ c.resources, r.id = id → r.sourceResourceId ≠ some y) (reader : Cryptor aead) :
    effectiveMap reader id c' = effectiveMap reader id c := by
  have hget : getResourceHeader id c' = getResourceHeader id c := by
    unfold getResourceHeader
    rw [h.resources id hid]
    cases hl : lookup TenantResource.id id c.resources with
    | none => rfl
    | some r =>
      have hne := hsource r (mem_of_lookup hl) (key_of_lookup hl)
      simp only [Option.bind_some, headerRow, h.definitions]
      cases hs : r.sourceResourceId with
      | none => rfl
      | some z =>
        have hz : z ≠ y := fun he => hne (he ▸ hs)
        simp only [Option.bind_some, h.resources z hz]
  unfold effectiveMap
  rw [hget]
  cases hrow : getResourceHeader id c with
  | error e => rfl
  | ok row =>
    obtain ⟨r, hr, hheader⟩ := Option.bind_eq_some_iff.mp (one_eq_ok.mp hrow)
    obtain ⟨d, -, rfl⟩ := Option.map_eq_some_iff.mp hheader
    obtain ⟨hmem, rfl⟩ := (lookup_eq_some hc.resourceIds).mp hr
    have hdata : SameData c' c r := by
      refine ⟨h.resources r.id hid, ?_, funext (h.values r.id hid), fun z hz => ?_⟩
      · unfold fieldsOf
        rw [h.fields]
      · exact funext (h.values z fun he => hsource r hmem rfl (he ▸ hz))
    have hlist : listResourceFieldValuesByResourceIDs [r.id] c' =
        listResourceFieldValuesByResourceIDs [r.id] c := by
      refine listResourceFieldValuesByResourceIDs_congr hc'.resourceIds hc.resourceIds ?_ ?_
      · intro id hid'
        rw [List.mem_singleton.mp hid']
        exact hdata.resource
      · intro x hx hxid
        obtain rfl := hc.resourceIds.eq_of_key hx hmem (List.mem_singleton.mp hxid)
        exact hdata.rowsOf_eq
    simp only [Except.mapError, bind, Except.bind, snapshotFields, buildResourceFieldsBatch,
      resourceHeaderFromRow,
      List.map_cons, List.map_nil, hlist]

section duplicate

variable {s : Concurrent} {cryptor : Cryptor aead} {now : Timestamp} {tenantId resourceId : UUID}
  {resourceAlias : String} {ts ts' : List Tick} {res : TenantResource}

/-- The state after the transaction of a duplication. -/
theorem Concurrent.Linked.duplicate (hs : s.Linked) (hfresh : ∀ t ∈ ts, t.ids 0 ∉ s.drawn)
    (h : duplicateResourceInTx now cryptor tenantId resourceId resourceAlias ts s.catalog =
      .ok (res, ts', c')) :
    Linked ⟨c', (ts.map fun t => t.ids 0) ++ s.drawn, s.inserting⟩ := by
  obtain ⟨-, -, hnamed⟩ := ((named_statements.upserts now).duplicateResourceInTx
    (fun h => named_statements.statements (.createTenantResource h)) tenantId
      resourceId resourceAlias).ok h
  obtain ⟨used, rfl, hgrows⟩ := ((grows_statements.upserts now).duplicateResourceInTx
    (fun h => grows_statements.statements (.createTenantResource h)) tenantId
      resourceId resourceAlias).ok h
  refine hs.grow (hnamed hs.named) (fun r hr => (hgrows r hr).imp_right fun hid => ?_)
    (fun id hid => ?_) fun _ hx => hx
  · rw [List.map_append]
    exact List.mem_append_left _ hid
  · obtain ⟨t, ht, rfl⟩ := List.mem_map.mp hid
    exact hfresh t ht

end duplicate

/-- A duplicate is an independent copy. In every state that statements of requests lead to, a
duplication that succeeds creates a resource without a source whose map is that of the original.
Whatever takes effect after it, altering the original, its source or another resource that was
there leaves the map of the duplicate as it is, and altering the duplicate leaves theirs. -/
theorem duplicate_independent {ms : List Move} {s : Concurrent}
    (h : Runs.Run Concurrent.Step {} ms s)
    {cryptor : Cryptor aead} {now : Timestamp} {tenantId resourceId : UUID}
    {resourceAlias : String} {ts ts' : List Tick}
    {res : TenantResource} {c' : Catalog} (hfresh : ∀ t ∈ ts, t.ids 0 ∉ s.drawn)
    (hdup : duplicateResourceInTx now cryptor tenantId resourceId resourceAlias ts s.catalog =
      .ok (res, ts', c')) :
    (∃ copy ∈ c'.resources, copy.id = res.id ∧ copy.sourceResourceId = none) ∧
    (∃ values, effectiveMap cryptor resourceId s.catalog = .ok values ∧
      effectiveMap cryptor res.id c' = .ok values) ∧
    ∀ ms₂ s₂, Runs.Run Concurrent.Step ⟨c', (ts.map fun t => t.ids 0) ++
      s.drawn, s.inserting⟩ ms₂ s₂ → ∀ c₂, ∀ x ∈ s.catalog.resources, ∀ reader : Cryptor aead,
        (Alters aead x.id s₂.catalog c₂ → effectiveMap reader res.id c₂ =
          effectiveMap reader res.id s₂.catalog) ∧
        (Alters aead res.id s₂.catalog c₂ → effectiveMap reader x.id c₂ =
          effectiveMap reader x.id s₂.catalog) := by
  have hs := Concurrent.linked_run h
  have hwf := hs.named.toWellFormed
  obtain ⟨-, hnew, hroot, hkeys, hvalues⟩ := Values.duplicateResourceInTx_copy hwf hdup
  have hafter : ∀ r ∈ s.catalog.resources ++ [res], ∃ r' ∈ c'.resources,
      resourceKey r' = resourceKey r := by
    intro r hr
    have hmem : resourceKey r ∈ c'.resources.map resourceKey := hkeys ▸ List.mem_map_of_mem hr
    simpa using hmem
  obtain ⟨copy, hcopy, hcopykey⟩ := hafter res (by simp)
  have hcopyid : copy.id = res.id := congrArg Prod.fst hcopykey
  have hcopyroot : copy.sourceResourceId = none :=
    (congrArg (fun k => k.2.2.2) hcopykey).trans hroot
  refine ⟨⟨copy, hcopy, hcopyid, hcopyroot⟩, hvalues, ?_⟩
  intro ms₂ s₂ h₂ c₂ x hx reader
  have hs₁ := hs.duplicate hfresh hdup
  have hwf₂ := (hs₁.run h₂).named.toWellFormed
  constructor
  · intro halters
    refine (halters.sameElsewhere hwf₂).effectiveMap_eq hwf₂ (halters.wellFormed hwf₂)
      (hnew x hx).symm ?_ reader
    intro r hr hid
    have hkey := hs₁.resourceKey_eq h₂ hcopy hr (hid.trans hcopyid.symm)
    have hsource : r.sourceResourceId = none := (congrArg (fun k => k.2.2.2) hkey).trans hcopyroot
    rw [hsource]
    exact nofun
  · intro halters
    refine (halters.sameElsewhere hwf₂).effectiveMap_eq hwf₂ (halters.wellFormed hwf₂)
      (hnew x hx) ?_ reader
    intro r hr hid hsource
    obtain ⟨x', hx', hxkey⟩ := hafter x (List.mem_append_left _ hx)
    have hxid : x'.id = x.id := congrArg Prod.fst hxkey
    have hkey := hs₁.resourceKey_eq h₂ hx' hr (hid.trans hxid.symm)
    -- the source of a resource that was there is not the duplicate, which was not
    have hxsource : x.sourceResourceId = some res.id :=
      (congrArg (fun k => k.2.2.2) (hkey.trans hxkey)).symm.trans hsource
    obtain ⟨source, hmem, hsid, -⟩ := hwf.resourceSource x hx res.id hxsource
    exact hnew source hmem hsid

section sample

/-- What the duplication of the second resource draws. -/
def sampleTicks : List Tick := (List.range 12).map fun i => sampleDraw (8 + i)

/-- A duplicate of the resource that has the secret. -/
theorem sampleDuplicate :
    ∃ res ts' c', duplicateResourceInTx 0 Values.sampleRotated 1 6 "third"
      sampleTicks sampleWithSecret =
    .ok (res, ts', c') := by
  have hok : (duplicateResourceInTx 0 Values.sampleRotated 1 6 "third" sampleTicks
      sampleWithSecret).toBool = true := by
    decide +kernel
  cases h : duplicateResourceInTx 0 Values.sampleRotated 1 6 "third"
    sampleTicks sampleWithSecret with
  | error e =>
    rw [h] at hok
    cases hok
  | ok x => exact ⟨x.1, x.2.1, x.2.2, rfl⟩

theorem duplicate_independent_sample : ∃ (res : TenantResource) (c' : Catalog),
    (∃ copy ∈ c'.resources, copy.id = res.id ∧ copy.sourceResourceId = none) ∧
      effectiveMap Values.sampleRotated res.id c' = .ok [("password", "p")] := by
  obtain ⟨res, ts', c', hdup⟩ := sampleDuplicate
  have hfresh : ∀ t ∈ sampleTicks, t.ids 0 ∉ [7, 6, 5, 4, 3, 2, 1] := by decide
  obtain ⟨hcopy, ⟨values, horiginal, hmap⟩, -⟩ :=
    duplicate_independent sampleWithSecret_run hfresh hdup
  have hvalues : effectiveMap Values.sampleRotated 6 sampleWithSecret =
    .ok [("password", "p")] := by decide +kernel
  rw [hvalues] at horiginal
  cases horiginal
  exact ⟨res, c', hcopy, hmap⟩

end sample

end Tenancit.Httpapi
