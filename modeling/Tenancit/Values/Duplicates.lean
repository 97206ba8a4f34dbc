import Tenancit.Service.ResolveOne
import Tenancit.Values.Reading

/-!
A duplicate of a resource. Whatever wrote the values of the original, a duplicate that is made
has read each of them, and has stored each that is not empty in a row of its own; what it shows
is what the original showed.
-/
namespace Tenancit.Values

open Encoding Crypto Store Service Queries Table

variable {Key : Type} {aead : Aead Key} {cryptor : Cryptor aead} {c c' : Catalog} {now : Timestamp}
  {ts ts' : List Tick} {res : TenantResource}

/-- The effective values of a resource by key, decrypted. -/
def effectiveMap (cryptor : Cryptor aead) (id : UUID) (c : Catalog) :
    Except ServiceError (List (String × String)) := do
  let row ← (getResourceHeader id c).mapError .store
  let fields ← snapshotFields cryptor row c
  return fieldMap fields

/-- The text that a resource shows for a field. -/
def Shows (cryptor : Cryptor aead) (c : Catalog) (r : TenantResource) (f : ResourceField)
    (s : String) : Prop :=
  if (fieldValueRow c r f).hasValue then decodeValue cryptor (mergedValue (fieldValueRow c r f)) =
    .ok s else s = ""

theorem fieldValue_decodes {header : ResourceHeader} {row : FieldValueRow} {v : ResourceFieldValue}
    (h : fieldValue cryptor true header row = .ok v) :
    if row.hasValue then decodeValue cryptor (mergedValue row) = .ok v.value else v.value = "" := by
  obtain ⟨-, -, hvalue⟩ := fieldValue_ok h
  simpa [presentValue, mergedValue] using hvalue

/-- The texts read for a duplicate are those the original shows. -/
theorem snapshotFields_ok (hc : c.WellFormed) {row : ResourceHeaderRow}
    (hr : row.resource ∈ c.resources) {fields : List ResourceFieldValue}
    (h : snapshotFields cryptor row c = .ok fields) :
    ∃ text : ResourceField → String,
      (∀ f ∈ fieldsOf c row.resource.resourceDefinitionId,
        Shows cryptor c row.resource f (text f)) ∧
      fieldMap fields = (fieldsOf c row.resource.resourceDefinitionId).map
        fun f => (f.key, text f) := by
  obtain ⟨built, hbuilt, rfl⟩ := map_eq_ok.mp h
  have hids : ([resourceHeaderFromRow row].map fun h => h.resource.id).Nodup := by simp
  have hmem : ∀ x ∈ [resourceHeaderFromRow row], x.resource ∈ c.resources := by
    simpa [resourceHeaderFromRow] using hr
  have hshown := buildResourceFieldsBatch_shown hids hmem hbuilt
  rw [buildResourceFieldsBatch_eq hc.resourceIds hids hmem hshown] at hbuilt
  cases hbuilt
  have hrow : ∀ f ∈ fieldsOf c row.resource.resourceDefinitionId,
      fieldValueRow c row.resource f ∈ rowsOf c (resourceHeaderFromRow row).resource := fun f hf =>
    List.mem_map_of_mem hf
  refine ⟨fun f =>
    (shownRow cryptor true (resourceHeaderFromRow row) (fieldValueRow c row.resource f)).value, ?_,
    ?_⟩
  · intro f hf
    exact fieldValue_decodes (hshown _ (.head _) _ (hrow f hf))
  · simp only [List.map_cons, List.map_nil, List.flatMap_cons, List.flatMap_nil,
      List.append_nil, fieldMap, rowsOf,
      List.map_map]
    refine List.map_congr_left fun f hf => Prod.ext ?_ rfl
    exact (fieldValue_ok (hshown _ (.head _) _ (hrow f hf))).1

/-- A resource whose fields all show a text has these as its map. -/
theorem effectiveMap_eq (hc : c.WellFormed) {r : TenantResource} (hr : r ∈ c.resources)
    {text : ResourceField → String}
    (h : ∀ f ∈ fieldsOf c r.resourceDefinitionId, Shows cryptor c r f (text f)) :
    effectiveMap cryptor r.id c = .ok ((fieldsOf c r.resourceDefinitionId).map fun f =>
      (f.key, text f)) := by
  obtain ⟨row, hrow, rfl⟩ := headerRow_of_wellFormed hc hr
  have hget : getResourceHeader row.resource.id c = .ok row := by
    rw [getResourceHeader, one_eq_ok, lookup_self hc.resourceIds hr, Option.bind_some, hrow]
  have hvalue : ∀ f ∈ fieldsOf c row.resource.resourceDefinitionId, ∃ v,
      fieldValue cryptor true (resourceHeaderFromRow row) (fieldValueRow c row.resource f) = .ok v ∧
        v.key = f.key ∧ v.value = text f := fun f hf => ⟨_, fieldValue_eq_ok (h f hf), rfl, rfl⟩
  have hshown : ∀ header ∈ [resourceHeaderFromRow row], ∀ x ∈ rowsOf c header.resource,
      fieldValue cryptor true header x = .ok (shownRow cryptor true header x) := by
    intro header hheader x hx
    obtain rfl := List.mem_singleton.mp hheader
    obtain ⟨f, hf, rfl⟩ := List.mem_map.mp hx
    obtain ⟨v, hv, -⟩ := hvalue f hf
    exact shownRow_eq hv
  have hbatch :=
    buildResourceFieldsBatch_eq hc.resourceIds (by simp)
      (by simpa [resourceHeaderFromRow] using hr) hshown
  simp only [effectiveMap, snapshotFields, hget, hbatch, Except.mapError, bind,
    Except.bind, Except.map, pure,
    Except.pure, List.map_cons, List.map_nil, List.flatMap_cons, List.flatMap_nil,
    List.append_nil, fieldMap, rowsOf,
    List.map_map]
  refine congrArg Except.ok (List.map_congr_left fun f hf => ?_)
  obtain ⟨v, hv, hkey, htext⟩ := hvalue f hf
  have hv : shownRow cryptor true (resourceHeaderFromRow row)
      (fieldValueRow c row.resource f) = v := by
    rw [shownRow, hv]
  exact Prod.ext ((congrArg ResourceFieldValue.key hv).trans hkey)
    ((congrArg ResourceFieldValue.value hv).trans htext)

/-- What storing the values of a list of fields leaves under every key. -/
theorem storeFields_rows {values : StringMap} {resourceId : UUID} {fields : List ResourceField}
    (hids : (fields.map ResourceField.id).Nodup)
    (h : storeFields cryptor values resourceId fields ts c = .ok ((), ts', c')) :
    SameShape c c' ∧
      (∀ x fid, (x = resourceId → ∀ f ∈ fields, f.id ≠ fid) →
        findValue c' x fid = findValue c x fid) ∧
      (∀ f ∈ fields, values.get? f.key = none → findValue c' resourceId f.id =
        findValue c resourceId f.id) ∧
      ∀ f ∈ fields, ∀ s, values.get? f.key = some s →
        ∃ v, findValue c' resourceId f.id = some v ∧ Holds cryptor f.isSecret s v := by
  induction fields generalizing ts c with
  | nil =>
    cases Program.Tx.pure_eq_ok.mp h
    exact ⟨.refl _, by simp, by simp, by simp⟩
  | cons f fs ih =>
    obtain ⟨hf, hfs⟩ := List.nodup_cons.mp hids
    have hne : ∀ g ∈ fs, g.id ≠ f.id := fun g hg he => hf (List.mem_map.mpr ⟨g, hg, he⟩)
    rw [storeFields] at h
    cases hv : values.get? f.key with
    | none =>
      simp only [hv] at h
      obtain ⟨hshape, hother, habsent, hpresent⟩ := ih hfs h
      refine ⟨hshape, fun x fid hx => hother x fid fun he g hg => hx he g (.tail _ hg), ?_, ?_⟩
      · intro g hg hnone
        rcases List.mem_cons.mp hg with rfl | hg
        · exact hother resourceId g.id fun _ => hne
        · exact habsent g hg hnone
      · intro g hg s hs
        rcases List.mem_cons.mp hg with rfl | hg
        · rw [hv] at hs
          cases hs
        · exact hpresent g hg s hs
    | some s =>
      simp only [hv] at h
      obtain ⟨_, ts₁, c₁, hfirst, hrest⟩ := Program.Tx.bind_eq_ok.mp h
      obtain ⟨p, t, a, hresource, hfield, hupsert, hold⟩ := storeField_ok hfirst
      have hfind := findValue_upsert hupsert
      rw [hresource, hfield] at hfind
      obtain ⟨hshape, hother, habsent, hpresent⟩ := ih hfs hrest
      refine ⟨(SameShape.upsert hupsert).trans hshape, ?_, ?_, ?_⟩
      · intro x fid hx
        rw [hother x fid fun he g hg => hx he g (.tail _ hg), hfind, if_neg]
        rintro heq
        obtain ⟨rfl, rfl⟩ := Prod.mk.injEq _ _ _ _ ▸ heq
        exact hx rfl f (.head _) rfl
      · intro g hg hnone
        rcases List.mem_cons.mp hg with rfl | hg
        · rw [hv] at hnone
          cases hnone
        · rw [habsent g hg hnone, hfind, if_neg]
          intro heq
          exact hne g hg (Prod.mk.injEq _ _ _ _ ▸ heq).2
      · intro g hg s' hs
        rcases List.mem_cons.mp hg with rfl | hg
        · obtain rfl : s = s' := Option.some.inj (hv.symm.trans hs)
          exact ⟨a, by rw [hother resourceId g.id fun _ => hne, hfind, if_pos rfl], hold⟩
        · exact hpresent g hg s' hs

/-- No value row refers to a resource that is not there. -/
theorem findValue_of_absent (hc : c.WellFormed) {id : UUID} (h : ∀ r ∈ c.resources, r.id ≠ id)
    (fid : UUID) : findValue c id fid = none := by
  refine lookup_eq_none.mpr fun v hv hkey => ?_
  obtain ⟨r, hr, hid⟩ := hc.valueResource v hv
  exact h r hr (hid.trans (Prod.mk.injEq _ _ _ _ ▸ hkey : _ ∧ _).1)

/-- A resource without a source shows the texts of its own rows. -/
theorem shows_own {r : TenantResource} (hroot : r.sourceResourceId = none)
    {f : ResourceField} {s : String}
    (h : (findValue c r.id f.id = none ∧ s = "") ∨ ∃ v, findValue c r.id f.id = some v ∧
      Holds cryptor f.isSecret s v) :
    Shows cryptor c r f s := by
  rcases h with ⟨hnone, rfl⟩ | ⟨v, hv, hold⟩
  · simp [Shows, fieldValueRow, hnone, hroot]
  · have hvalue : (fieldValueRow c r f).hasValue = true := by simp [fieldValueRow, hv]
    rw [Shows, if_pos hvalue]
    have hheld : Holds cryptor f.isSecret s (mergedValue (fieldValueRow c r f)) := by
      simpa [Holds, mergedValue, fieldValueRow, hv, hroot] using hold
    exact decodeValue_holds hheld cryptor.keeps_refl

theorem wellFormed_upserts : KeptByUpserts fun c _ c' => c.WellFormed → c'.WellFormed where
  composes := ⟨fun _ h => h, fun h h' hc => h' (h hc)⟩
  reads _ _ h := h
  upserts h hc := hc.upsertResourceValue h

/-- The values given for a duplicate: the texts read that are not empty. -/
theorem get?_snapshotValues_of_fieldMap {fields : List ResourceFieldValue} {fs : List ResourceField}
    {text : ResourceField → String} (hmap : fieldMap fields = fs.map fun f => (f.key, text f))
    (hkeys : (fs.map ResourceField.key).Nodup) {f : ResourceField} (hf : f ∈ fs) :
    (snapshotValues fields).get? f.key = if text f ≠ "" then some (text f) else none := by
  have hnodup : (fields.map (·.key)).Nodup := by
    have hsame := congrArg (List.map Prod.fst) hmap
    simp only [fieldMap, List.map_map, Function.comp_def] at hsame
    rwa [hsame]
  have hmem : (f.key, text f) ∈ fieldMap fields := hmap ▸ List.mem_map_of_mem hf
  obtain ⟨g, hg, heq⟩ := List.mem_map.mp hmem
  obtain ⟨hkey, hvalue⟩ := Prod.mk.injEq _ _ _ _ ▸ heq
  have hget := get?_snapshotValues hnodup hg
  rwa [hkey, hvalue] at hget

/-- A duplicate is a new resource without a source, and its map is that of the original. -/
theorem duplicateResourceInTx_copy (hc : c.WellFormed) {tenantId resourceId : UUID}
    {resourceAlias : String}
    (h : duplicateResourceInTx now cryptor tenantId resourceId resourceAlias ts c =
      .ok (res, ts', c')) :
    c'.WellFormed ∧ (∀ r ∈ c.resources, r.id ≠ res.id) ∧ res.sourceResourceId = none ∧
      c'.resources.map resourceKey = (c.resources ++ [res]).map resourceKey ∧
      ∃ values, effectiveMap cryptor resourceId c =
        .ok values ∧ effectiveMap cryptor res.id c' = .ok values := by
  have hc' : c'.WellFormed := by
    obtain ⟨used, -, hwf⟩ :=
      (wellFormed_upserts.duplicateResourceInTx (fun h hc => hc.createTenantResource h) tenantId
      resourceId resourceAlias).ok h
    exact hwf hc
  obtain ⟨row, fields, ts₁, hrow, -, hsnapshot, hp⟩ := duplicateResourceInTx_ok h
  obtain ⟨d, provided, arg, t, c₁, ts₂, hd, -, -, -, -, hdef, hsource, hcreate, hstore⟩ :=
    provisionResource_ok hp
  have hc₁ := hc.createTenantResource hcreate
  obtain ⟨-, hfresh, -, -, ha, rfl⟩ := createTenantResource_ok hcreate
  have hroot : res.sourceResourceId = none := by
    rw [ha]
    exact hsource
  obtain ⟨hshape, -, habsent, hpresent⟩ := storeFields_rows (fieldsOf_ids_nodup hc₁ d.id) hstore
  refine ⟨hc', hfresh, hroot, hshape.resources, ?_⟩
  -- the definition found by its key is that of the original
  obtain ⟨x, hx, hheader⟩ := Option.bind_eq_some_iff.mp (one_eq_ok.mp hrow)
  obtain ⟨hxmem, rfl⟩ := (lookup_eq_some hc.resourceIds).mp hx
  obtain ⟨d₀, hd₀, rfl⟩ := Option.map_eq_some_iff.mp hheader
  obtain ⟨hdmem₀, hdid₀⟩ := (lookup_eq_some hc.definitionIds).mp hd₀
  obtain ⟨hdmem, hdkey⟩ := (lookup_eq_some hc.definitionKeys).mp (one_eq_ok.mp hd)
  obtain rfl := hc.definitionKeys.eq_of_key hdmem hdmem₀ hdkey
  have hresdef : res.resourceDefinitionId = d.id := by
    rw [ha]
    exact hdef
  have hfields : fieldsOf c' d.id = fieldsOf c d.id := by
    unfold fieldsOf
    rw [hshape.fields]
  obtain ⟨text, hshows, hmap⟩ := snapshotFields_ok hc hxmem hsnapshot
  simp only [← hdid₀] at hshows hmap
  obtain ⟨copy, hcopy, hkey⟩ := hshape.forth (List.mem_append_right _ (List.mem_singleton_self res))
  simp only [resourceKey, Prod.mk.injEq] at hkey
  obtain ⟨hcopyid, -, hcopydef, hcopyroot⟩ := hkey
  have hcopyshows : ∀ f ∈ fieldsOf c' copy.resourceDefinitionId,
      Shows cryptor c' copy f (text f) := by
    intro f hf
    rw [hcopydef, hresdef, hfields] at hf
    have hgiven := get?_snapshotValues_of_fieldMap hmap (fieldsOf_keys_nodup hc d.id) hf
    have hnone := findValue_of_absent hc hfresh f.id
    refine shows_own (hcopyroot.trans hroot) ?_
    rw [hcopyid]
    by_cases hempty : text f = ""
    · rw [if_neg (not_not.mpr hempty)] at hgiven
      exact .inl ⟨(habsent f hf hgiven).trans hnone, hempty⟩
    · rw [if_pos hempty] at hgiven
      exact .inr (hpresent f hf _ hgiven)
  have hxshows : ∀ f ∈ fieldsOf c x.resourceDefinitionId, Shows cryptor c x f (text f) := by
    simpa only [← hdid₀] using hshows
  have horiginal := effectiveMap_eq hc hxmem hxshows
  have hduplicate := effectiveMap_eq hc' hcopy hcopyshows
  rw [hcopyid, hcopydef, hresdef, hfields] at hduplicate
  rw [← hdid₀] at horiginal
  exact ⟨_, horiginal, hduplicate⟩

end Tenancit.Values
