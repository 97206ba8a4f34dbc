import Tenancit.Service.Resolve
import Tenancit.Store.Aliases
import Tenancit.Store.CatalogInvariant

/-!
`ByHostname` and `ByHostnameAndAlias`: the configuration of a whole tenant, and that of one of
its resources. The second is the entry of the first under the alias, wherever the first can
decode all values it loads.
-/
namespace Tenancit.Service

open Encoding Crypto Store Queries Table

variable {Key : Type} {aead : Aead Key} {cryptor : Cryptor aead} {reveal : Bool}
  {headers : List ResourceHeader} {c : Catalog} {hostname resourceAlias : String}

def byHostname (cryptor : Cryptor aead) (hostname : String) (c : Catalog) :
    Except ResolveError ResolvedTenant := do
  let tenant ← tenantByHostname hostname c
  let headers ← (loadResourceHeaders tenant.id false c).mapError fun err => .service (.store err)
  (resolveTenant cryptor tenant headers c).mapError .service

/-- `ByHostnameAndAlias`, each of whose four statements reads the catalogue it finds. -/
def byHostnameAndAliasIn (cryptor : Cryptor aead) (hostname resourceAlias : String)
    (c₁ c₂ c₃ c₄ : Catalog) : Except ResolveError (Option ResolvedTenantResource) := do
  let tenant ← tenantByHostname hostname c₁
  match getActiveResourceByTenantAndAlias tenant.id resourceAlias c₂ with
  | .error .noRows => pure none
  | .error err => throw (.service (.store err))
  | .ok r => do
    let row ← (getResourceHeader r.id c₃).mapError pgError
    let built ← (buildResourceFieldsBatch cryptor [resourceHeaderFromRow row]
      true c₄).mapError .service
    pure (some ⟨tenant.slug, row.resource.resourceAlias, row.definitionKey,
      fieldMap (built.flatMap fun b => b.fields)⟩)

section program

variable {α β : Type} {t : Tick} {ts : List Tick}

/-- The result of a statement followed by others. -/
theorem resolverQuery_bind {g : Catalog → Except ResolveError α}
    {k : α → Tx Catalog ResolveError β} :
    ((resolverQuery g >>= k) (t :: ts) c).map Prod.fst = g c >>= fun a =>
    (k a ts c).map Prod.fst := by
  have hquery : resolverQuery g (t :: ts) c = (g c).map fun a => (a, ts, c) := by
    show ((g c).map _).map _ = _
    cases g c <;> rfl
  simp only [bind, hquery]
  cases g c <;> rfl

/-- Where nothing comes between its statements, the program is its reads of one catalogue. -/
theorem byHostnameAndAlias_eq (hts : 4 ≤ ts.length) :
    (byHostnameAndAlias cryptor hostname resourceAlias ts c).map Prod.fst =
      byHostnameAndAliasIn cryptor hostname resourceAlias c c c c := by
  obtain ⟨t₁, t₂, t₃, t₄, ts, rfl⟩ : ∃ t₁ t₂ t₃ t₄ ts', ts = t₁ :: t₂ :: t₃ :: t₄ :: ts' := by
    match ts, hts with
    | t₁ :: t₂ :: t₃ :: t₄ :: ts, _ => exact ⟨t₁, t₂, t₃, t₄, ts, rfl⟩
  unfold byHostnameAndAlias byHostnameAndAliasIn loadTenantByHostname
  by_cases hempty : canonicalHostname hostname = ""
  · rw [if_pos hempty, show tenantByHostname hostname c = .error .notFound by
      simp [tenantByHostname, hempty]]
    rfl
  rw [if_neg hempty, resolverQuery_bind]
  refine congrArg _ (funext fun tenant => ?_)
  rw [resolverQuery_bind]
  cases getActiveResourceByTenantAndAlias tenant.id resourceAlias c with
  | error err => cases err <;> rfl
  | ok r =>
    show ((resolverQuery _ >>= _) _ c).map Prod.fst = _
    rw [resolverQuery_bind]
    refine congrArg _ (funext fun row => ?_)
    rw [resolverQuery_bind]
    rfl

end program

section batch

variable {out built : List BuiltResourceFields} {rows : List FieldValueRow} {row : FieldValueRow}
  {header : ResourceHeader} {e : ServiceError}

/-- All that a fold can fail with is what its steps can fail with. -/
theorem foldlM_error {α β ε : Type} {P : ε → Prop} {f : β → α → Except ε β}
    (hf : ∀ b a e, f b a = .error e → P e) {l : List α} {b : β} {e : ε}
    (h : l.foldlM f b = .error e) : P e := by
  induction l generalizing b with
  | nil => cases h
  | cons a l ih =>
    rw [List.foldlM_cons] at h
    cases hstep : f b a with
    | error e' =>
      rw [hstep] at h
      cases h
      exact hf b a e hstep
    | ok b' =>
      rw [hstep] at h
      exact ih h

/-- A value that is not presented cannot be decrypted. -/
theorem presentValue_error {isSecret : Bool} {v : TenantResourceValue}
    (h : presentValue cryptor isSecret v reveal = .error e) : ∃ e', e = .crypto e' := by
  unfold presentValue decodeValue at h
  split at h
  · cases h
  split at h
  · cases h
  next cipher _ =>
    cases hd : cryptor.decrypt ⟨cipher, v.nonce.getD [], (v.keyVersion.map Int32.toInt).getD 0⟩ with
    | ok s =>
      simp only [hd] at h
      cases h
    | error e' =>
      simp only [hd] at h
      cases h
      exact ⟨e', rfl⟩

theorem fieldValue_error (h : fieldValue cryptor reveal header row = .error e) :
    ∃ e', e = .crypto e' := by
  unfold fieldValue at h
  cases hv : row.hasValue with
  | false =>
    rw [hv] at h
    cases h
  | true =>
    simp only [hv, if_true] at h
    cases hp : presentValue cryptor row.isSecret ⟨UUID.nil,
      row.tenantResourceId, row.resourceFieldId,
        row.valuePlain, row.valueCipher, row.nonce, row.keyVersion⟩ reveal with
    | ok s =>
      rw [hp] at h
      cases h
    | error e' =>
      rw [hp] at h
      cases h
      exact presentValue_error hp

theorem buildResourceFieldsBatch_error (h :
      buildResourceFieldsBatch cryptor headers reveal c = .error e) :
    ∃ e', e = .crypto e' := by
  unfold buildResourceFieldsBatch at h
  split at h
  · cases h
  simp only [listResourceFieldValuesByResourceIDs] at h
  refine foldlM_error (P := fun e => ∃ e', e = ServiceError.crypto e') (fun out row e he => ?_) h
  unfold appendRow at he
  split at he
  · cases he
  split at he
  · cases he
  next b _ =>
    cases hv : fieldValue cryptor reveal b.header row with
    | ok v =>
      rw [hv] at he
      cases he
    | error e' =>
      rw [hv] at he
      cases he
      exact fieldValue_error hv

end batch

section headers

variable {tenantId : UUID} {includeInactive : Bool} {hs : List ResourceHeader}

theorem headerRow_of_wellFormed (hc : c.WellFormed) {r : TenantResource} (hr : r ∈ c.resources) :
    ∃ row, headerRow c r = some row ∧ row.resource = r := by
  obtain ⟨d, hd, hid⟩ := hc.resourceDefinition r hr
  have hlookup := (lookup_eq_some hc.definitionIds).mpr ⟨hd, hid⟩
  exact ⟨_, by rw [headerRow, hlookup]; rfl, rfl⟩

theorem mem_resourcesOf {r : TenantResource} : r ∈ resourcesOf c tenantId includeInactive ↔
    r ∈ c.resources ∧ r.tenantId = tenantId ∧ (includeInactive = true ∨ r.status = .active) := by
  simp [resourcesOf, List.mem_insertionSort]

/-- Every resource listed has its header, in the order of the list. -/
theorem loadResourceHeaders_resources (hc : c.WellFormed)
    (hload : loadResourceHeaders tenantId includeInactive c = .ok hs) :
    hs.map (·.resource) = resourcesOf c tenantId includeInactive := by
  cases hload
  have hrows : ∀ l : List TenantResource, (∀ r ∈ l, r ∈ c.resources) →
      (l.filterMap (headerRow c)).map (fun row => (resourceHeaderFromRow row).resource) = l := by
    intro l
    induction l with
    | nil => simp
    | cons r l ih =>
      intro hl
      obtain ⟨row, hrow, hres⟩ := headerRow_of_wellFormed hc (hl r (.head _))
      rw [List.filterMap_cons_some hrow, List.map_cons, ih fun x hx => hl x (.tail _ hx)]
      exact congrArg (· :: l) hres
  rw [List.map_map]
  exact hrows _ fun r hr => (mem_resourcesOf.mp hr).1

theorem loadResourceHeaders_ids (hc : c.WellFormed)
    (hload : loadResourceHeaders tenantId includeInactive c = .ok hs) :
    (hs.map fun h => h.resource.id).Nodup := by
  have hids : hs.map (fun h => h.resource.id) =
      (resourcesOf c tenantId includeInactive).map TenantResource.id := by
    rw [← loadResourceHeaders_resources hc hload, List.map_map]
    rfl
  rw [hids, resourcesOf, ((List.perm_insertionSort _ _).map _).nodup_iff]
  exact hc.resourceIds.sublist ((List.filter_sublist).map _)

theorem loadResourceHeaders_mem (hc : c.WellFormed)
    (hload : loadResourceHeaders tenantId includeInactive c = .ok hs) :
    ∀ h ∈ hs, h.resource ∈ resourcesOf c tenantId includeInactive := by
  intro h hh
  rw [← loadResourceHeaders_resources hc hload]
  exact List.mem_map_of_mem hh

/-- A header is that of its resource's row. -/
theorem loadResourceHeaders_row (hload : loadResourceHeaders tenantId includeInactive c = .ok hs) :
    ∀ h ∈ hs, ∃ row, headerRow c h.resource = some row ∧ h = resourceHeaderFromRow row := by
  cases hload
  intro h hh
  obtain ⟨row, hrow, rfl⟩ := List.mem_map.mp hh
  obtain ⟨r, -, hheader⟩ := List.mem_filterMap.mp hrow
  obtain ⟨d, -, hd⟩ := Option.map_eq_some_iff.mp hheader
  have hres : row.resource = r := by rw [← hd]
  exact ⟨row, by rw [show (resourceHeaderFromRow row).resource = r from hres, hheader], rfl⟩

end headers

section one

theorem mapError_eq_ok {ε ε' α : Type} {f : ε → ε'} {x : Except ε α} {a : α} :
    x.mapError f = .ok a ↔ x = .ok a := by
  cases x <;> simp [Except.mapError]

variable {tenant : Tenant} {payload : ResolvedTenant}

/-- The entry of a resource in the configuration of its tenant. -/
def resolvedEntry (cryptor : Cryptor aead) (c : Catalog) (h : ResourceHeader) : ResolvedResource :=
  ⟨h.resource.resourceAlias, h.definitionKey,
   fieldMap ((rowsOf c h.resource).map (shownRow cryptor true h))⟩

/-- The alias of a resource found by it is the key searched for. -/
theorem getActiveResourceByTenantAndAlias_eq_ok (hc : c.Aliased) {tenantId : UUID}
    {r : TenantResource} : getActiveResourceByTenantAndAlias tenantId resourceAlias c = .ok r ↔
      r ∈ resourcesOf c tenantId false ∧ r.resourceAlias = aliasKey resourceAlias := by
  rw [getActiveResourceByTenantAndAlias, one_eq_ok, mem_resourcesOf]
  constructor
  · intro h
    have hmem := List.mem_of_find?_eq_some h
    have hp := List.find?_some h
    simp only [Bool.and_eq_true, decide_eq_true_eq] at hp
    obtain ⟨⟨htenant, halias⟩, hactive⟩ := hp
    rw [aliasKey_of_format (hc.format r hmem)] at halias
    exact ⟨⟨hmem, htenant, .inr hactive⟩, halias⟩
  · rintro ⟨⟨hmem, htenant, hactive⟩, halias⟩
    have hactive : r.status = .active := by simpa using hactive
    have hkey : aliasKey r.resourceAlias = aliasKey resourceAlias := by
      rw [aliasKey_of_format (hc.format r hmem), halias]
    cases hfind : c.resources.find? fun r => r.tenantId = tenantId &&
      aliasKey r.resourceAlias = aliasKey resourceAlias &&
        r.status = .active with
    | none => exact absurd (List.find?_eq_none.mp hfind r hmem) (by simp [htenant, hkey, hactive])
    | some x =>
      have hp := List.find?_some hfind
      simp only [Bool.and_eq_true, decide_eq_true_eq] at hp
      refine congrArg some (hc.aliases.eq_of_key (List.mem_of_find?_eq_some hfind) hmem ?_)
      rw [aliasIndex, aliasIndex, hp.1.1, hp.1.2, htenant, hkey]

/-- What `ResolveTenant` answers where it can decode all it loads. -/
theorem resolveTenant_eq (hc : c.WellFormed) {hs : List ResourceHeader}
    (hload : loadResourceHeaders tenant.id false c = .ok hs)
    (h : resolveTenant cryptor tenant hs c = .ok payload) :
    payload = ⟨tenant.slug, hs.map (resolvedEntry cryptor c)⟩ ∧
      ∀ header ∈ hs, buildResourceFieldsBatch cryptor [header] true c =
        .ok [⟨header, (rowsOf c header.resource).map (shownRow cryptor true header)⟩] := by
  obtain ⟨built, hbuilt, rfl⟩ := map_eq_ok.mp h
  have hids := loadResourceHeaders_ids hc hload
  have hmem : ∀ header ∈ hs, header.resource ∈ c.resources := fun header hheader =>
    (mem_resourcesOf.mp (loadResourceHeaders_mem hc hload header hheader)).1
  have hshown := buildResourceFieldsBatch_shown hids hmem hbuilt
  constructor
  · rw [buildResourceFieldsBatch_eq hc.resourceIds hids hmem hshown] at hbuilt
    cases hbuilt
    simp [resolvedEntry, Function.comp_def]
  · intro header hheader
    have hone : ([header].map fun h => h.resource.id).Nodup := by simp
    exact buildResourceFieldsBatch_eq hc.resourceIds hone (by simpa using hmem header hheader)
      (by simpa using hshown header hheader)

/-- A tenant's configuration has one entry for an alias. -/
theorem resolvedEntry_aliases (hc : c.WellFormed) (ha : c.Aliased) {tenantId : UUID}
    {hs : List ResourceHeader} (hload : loadResourceHeaders tenantId false c = .ok hs) :
    Keyed ResolvedResource.resourceAlias (hs.map (resolvedEntry cryptor c)) := by
  have haliases : (hs.map (resolvedEntry cryptor c)).map ResolvedResource.resourceAlias =
      (resourcesOf c tenantId false).map TenantResource.resourceAlias := by
    rw [← loadResourceHeaders_resources hc hload, List.map_map, List.map_map]
    rfl
  unfold Keyed
  rw [haliases, resourcesOf, ((List.perm_insertionSort _ _).map _).nodup_iff]
  refine List.Nodup.map_on ?_ ((List.Nodup.of_map _ hc.resourceIds).filter _)
  intro r hr s hs' halias
  simp only [List.mem_filter, Bool.and_eq_true, decide_eq_true_eq] at hr hs'
  refine ha.aliases.eq_of_key hr.1 hs'.1 ?_
  rw [aliasIndex, aliasIndex, hr.2.1, hs'.2.1, halias]

/-- Where the whole configuration is answered, one resource of it is the entry of its alias. -/
theorem byHostnameAndAliasIn_eq (hc : c.WellFormed) (ha : c.Aliased)
    (h : byHostname cryptor hostname c = .ok payload) :
    Keyed ResolvedResource.resourceAlias payload.resources ∧
      byHostnameAndAliasIn cryptor hostname resourceAlias c c c c =
        .ok ((lookup ResolvedResource.resourceAlias (aliasKey resourceAlias) payload.resources).map
          fun r =>
          ⟨payload.tenantSlug, r.resourceAlias, r.definitionKey, r.values⟩) := by
  obtain ⟨tenant, htenant, h₁⟩ := bind_eq_ok.mp h
  obtain ⟨hs, hload, h₂⟩ := bind_eq_ok.mp h₁
  replace hload := mapError_eq_ok.mp hload
  obtain ⟨rfl, hone⟩ := resolveTenant_eq hc hload (mapError_eq_ok.mp h₂)
  have hkeyed : Keyed ResolvedResource.resourceAlias (hs.map (resolvedEntry cryptor c)) :=
    resolvedEntry_aliases hc ha hload
  refine ⟨hkeyed, ?_⟩
  simp only [byHostnameAndAliasIn, htenant, bind, Except.bind]
  cases hfound : getActiveResourceByTenantAndAlias tenant.id resourceAlias c with
  | error err =>
    obtain rfl : err = .noRows := by
      unfold getActiveResourceByTenantAndAlias one at hfound
      split at hfound <;> cases hfound
      rfl
    have hnone : lookup ResolvedResource.resourceAlias (aliasKey resourceAlias)
        (hs.map (resolvedEntry cryptor c)) = none := by
      rw [lookup_eq_none]
      intro entry hentry halias
      obtain ⟨header, hheader, rfl⟩ := List.mem_map.mp hentry
      have hmem := loadResourceHeaders_mem hc hload header hheader
      cases hfound.symm.trans ((getActiveResourceByTenantAndAlias_eq_ok ha).mpr ⟨hmem, halias⟩)
    simp only [hnone]
    rfl
  | ok r =>
    obtain ⟨hmem, halias⟩ := (getActiveResourceByTenantAndAlias_eq_ok ha).mp hfound
    rw [← loadResourceHeaders_resources hc hload] at hmem
    obtain ⟨header, hheader, rfl⟩ := List.mem_map.mp hmem
    obtain ⟨row, hrow, rfl⟩ := loadResourceHeaders_row hload header hheader
    have hstored := (mem_resourcesOf.mp (loadResourceHeaders_mem hc hload _ hheader)).1
    have hget : getResourceHeader (resourceHeaderFromRow row).resource.id c = .ok row := by
      rw [getResourceHeader, one_eq_ok, lookup_self hc.resourceIds hstored, Option.bind_some, hrow]
    have hentry := (lookup_eq_some hkeyed (k := aliasKey resourceAlias)).mpr
      ⟨List.mem_map_of_mem hheader, halias⟩
    simp only [hget, Except.mapError, hone _ hheader, hentry]
    simp [resolvedEntry, resourceHeaderFromRow, pure, Except.pure]

/-- Where the whole configuration is not answered, the tenant is not found either way, or a
value of it cannot be decrypted. -/
theorem byHostname_error {e : ResolveError} (h : byHostname cryptor hostname c = .error e) :
    (∀ c₂ c₃ c₄, byHostnameAndAliasIn cryptor hostname resourceAlias c c₂ c₃ c₄ = .error e) ∨
      ∃ e', e = .service (.crypto e') := by
  cases htenant : tenantByHostname hostname c with
  | error e' =>
    simp only [byHostname, htenant, bind, Except.bind] at h
    cases h
    refine .inl fun c₂ c₃ c₄ => ?_
    simp only [byHostnameAndAliasIn, htenant, bind, Except.bind]
  | ok tenant =>
    refine .inr ?_
    cases hload : loadResourceHeaders tenant.id false c with
    | error err => cases hload
    | ok hs =>
      simp only [byHostname, htenant, hload, bind, Except.bind, Except.mapError, resolveTenant] at h
      cases hbatch : buildResourceFieldsBatch cryptor hs true c with
      | ok built =>
        rw [hbatch] at h
        cases h
      | error e' =>
        rw [hbatch] at h
        cases h
        obtain ⟨e'', rfl⟩ := buildResourceFieldsBatch_error hbatch
        exact ⟨e'', rfl⟩

/-- What an answer for one resource was read from. -/
theorem byHostnameAndAliasIn_some {c₁ c₂ c₃ c₄ : Catalog} {one : ResolvedTenantResource}
    (h : byHostnameAndAliasIn cryptor hostname resourceAlias c₁ c₂ c₃ c₄ = .ok (some one)) :
    ∃ tenant r row built, tenantByHostname hostname c₁ = .ok tenant ∧
      getActiveResourceByTenantAndAlias tenant.id resourceAlias c₂ = .ok r ∧
      getResourceHeader r.id c₃ = .ok row ∧
      buildResourceFieldsBatch cryptor [resourceHeaderFromRow row] true c₄ = .ok built ∧
      one = ⟨tenant.slug, row.resource.resourceAlias, row.definitionKey,
        fieldMap (built.flatMap fun b => b.fields)⟩ := by
  obtain ⟨tenant, htenant, h₁⟩ := bind_eq_ok.mp h
  cases hfound : getActiveResourceByTenantAndAlias tenant.id resourceAlias c₂ with
  | error err =>
    rw [hfound] at h₁
    cases err <;> cases h₁
  | ok r =>
    rw [hfound] at h₁
    obtain ⟨row, hrow, h₂⟩ := bind_eq_ok.mp h₁
    obtain ⟨built, hbuilt, h₃⟩ := bind_eq_ok.mp h₂
    cases h₃
    exact ⟨tenant, r, row, built, htenant, hfound, mapError_eq_ok.mp hrow,
      mapError_eq_ok.mp hbuilt, rfl⟩

end one

end Tenancit.Service
