import Tenancit.Service.ETag
import Tenancit.Store.CatalogStamps

/-!
Equal tags mean equal answers. Where two catalogues show the same content for every
definition and every resource that both show under one stamp, a tag computed in both
comes from the same headers, and `ResolveTenant` answers them alike.
-/
namespace Tenancit.Service

open Encoding Crypto Store Queries Table

variable {Key : Type} {aead : Aead Key} {cryptor : Cryptor aead} {s m c c' : Catalog}

/-- The keys hold, and what the tag delimits with colons has none. -/
structure TagReady (c : Catalog) : Prop where
  wellFormed : c.WellFormed
  slugs : ∀ t ∈ c.tenants, Undelimited t.slug
  definitionKeys : ∀ d ∈ c.definitions, Undelimited d.key

theorem TagReady.empty : TagReady {} := ⟨.empty, by simp, by simp⟩

/-- What `s` and `c` show under one stamp is the same, and `m` shows it too. -/
def SameUnderStamps (s m c : Catalog) : Prop :=
  ∀ o a x y, s.shown o = some (a, x) → c.shown o = some (a, y) → x = y ∧ m.shown o = some (a, y)

section headers

instance : Std.Total resourceOrder where
  total r s := by
    simp only [resourceOrder]
    rcases lt_trichotomy r.createdAt s.createdAt with h | h | h
    · exact .inl (.inl h)
    · rcases le_total r.id s.id with hid | hid
      · exact .inl (.inr ⟨h, hid⟩)
      · exact .inr (.inr ⟨h.symm, hid⟩)
    · exact .inr (.inl h)

instance : IsTrans TenantResource resourceOrder where
  trans r s t h h' := by
    simp only [resourceOrder] at h h' ⊢
    rcases h with h | ⟨h, hid⟩
    · rcases h' with h' | ⟨h', -⟩
      · exact .inl (h.trans h')
      · exact .inl (h' ▸ h)
    · rcases h' with h' | ⟨h', hid'⟩
      · exact .inl (h ▸ h')
      · exact .inr ⟨h.trans h', hid.trans hid'⟩

/-- The header of a resource with its definition. -/
def headerOf (c : Catalog) (r : TenantResource) (d : ResourceDefinition) : ResourceHeader :=
  let source := r.sourceResourceId.bind fun id => lookup TenantResource.id id c.resources
  ⟨r, d.key, d.name, d.updatedAt, (source.map (·.resourceAlias)).getD "",
    (source.map (·.updatedAt)).getD Timestamp.zero⟩

/-- A loaded header: its resource is one of the tenant's, and its definition is there. -/
theorem mem_headers {tenantId : UUID} {hs : List ResourceHeader}
    (hload : loadResourceHeaders tenantId false c = .ok hs) {h : ResourceHeader} (hh : h ∈ hs) :
    h.resource ∈ c.resources ∧ ∃ d ∈ c.definitions,
      lookup ResourceDefinition.id h.resource.resourceDefinitionId c.definitions = some d ∧
        h = headerOf c h.resource d := by
  cases hload
  obtain ⟨row, hrow, rfl⟩ := List.mem_map.mp hh
  obtain ⟨r, hr, hheader⟩ := List.mem_filterMap.mp hrow
  obtain ⟨d, hd, rfl⟩ := Option.map_eq_some_iff.mp hheader
  have hmem : r ∈ c.resources := (List.mem_filter.mp ((List.mem_insertionSort _).mp hr)).1
  exact ⟨hmem, d, mem_of_lookup hd, hd, rfl⟩

theorem pairwise_headers {tenantId : UUID} {hs : List ResourceHeader}
    (hload : loadResourceHeaders tenantId false c = .ok hs) :
    hs.Pairwise fun g h => resourceOrder g.resource h.resource := by
  cases hload
  rw [List.pairwise_map, List.pairwise_filterMap]
  refine (List.pairwise_insertionSort resourceOrder _).imp fun h g hg g' hg' => ?_
  obtain ⟨_, -, rfl⟩ := Option.map_eq_some_iff.mp hg
  obtain ⟨_, -, rfl⟩ := Option.map_eq_some_iff.mp hg'
  exact h

end headers

section same

/-- The resource's data is the same in both catalogues. -/
structure SameData (m c : Catalog) (r : TenantResource) : Prop where
  resource : lookup TenantResource.id r.id m.resources = lookup TenantResource.id r.id c.resources
  fields : fieldsOf m r.resourceDefinitionId = fieldsOf c r.resourceDefinitionId
  own : findValue m r.id = findValue c r.id
  inherited : ∀ id, r.sourceResourceId = some id → findValue m id = findValue c id

theorem SameData.rowsOf_eq {r : TenantResource} (h : SameData m c r) : rowsOf m r = rowsOf c r := by
  unfold rowsOf
  rw [h.fields]
  refine List.map_congr_left fun f _ => ?_
  have hinherited : (r.sourceResourceId.bind fun id => findValue m id f.id) =
      r.sourceResourceId.bind fun id => findValue c id f.id := by
    cases hs : r.sourceResourceId with
    | none => rfl
    | some id => simp [h.inherited id hs]
  simp only [fieldValueRow, h.own, hinherited]

theorem SameUnderStamps.definition (h : SameUnderStamps s m c) {id : UUID}
    {d d' : ResourceDefinition} (hd : lookup ResourceDefinition.id id s.definitions = some d)
    (hd' : lookup ResourceDefinition.id id c.definitions = some d')
    (hat : Timestamp.unixNano d.updatedAt = Timestamp.unixNano d'.updatedAt) :
    d = d' ∧ fieldsOf m id = fieldsOf c id := by
  have hs : s.shown (.definition id) =
      some (Timestamp.unixNano d.updatedAt, .definition d (fieldsOf s id)) := by
    simp only [Catalog.shown, hd, Option.map_some]
  have hc : c.shown (.definition id) =
      some (Timestamp.unixNano d.updatedAt, .definition d' (fieldsOf c id)) := by
    simp only [Catalog.shown, hd', Option.map_some, hat]
  obtain ⟨heq, hm⟩ := h _ _ _ _ hs hc
  obtain ⟨d₂, -, hm⟩ := Option.map_eq_some_iff.mp hm
  simp only [Prod.mk.injEq, Content.definition.injEq] at heq hm
  exact ⟨heq.1, hm.2.2⟩

theorem SameUnderStamps.resource (h : SameUnderStamps s m c) {id : UUID} {r r' : TenantResource}
    (hr : lookup TenantResource.id id s.resources = some r)
    (hr' : lookup TenantResource.id id c.resources = some r')
    (hat : Timestamp.unixNano r.updatedAt = Timestamp.unixNano r'.updatedAt) :
    r = r' ∧ lookup TenantResource.id id m.resources = some r' ∧
    findValue m id = findValue c id := by
  have hs : s.shown (.resource id) =
      some (Timestamp.unixNano r.updatedAt, .resource r (findValue s id)) := by
    simp only [Catalog.shown, hr, Option.map_some]
  have hc : c.shown (.resource id) =
      some (Timestamp.unixNano r.updatedAt, .resource r' (findValue c id)) := by
    simp only [Catalog.shown, hr', Option.map_some, hat]
  obtain ⟨heq, hm⟩ := h _ _ _ _ hs hc
  obtain ⟨r₂, hr₂, hm⟩ := Option.map_eq_some_iff.mp hm
  simp only [Prod.mk.injEq, Content.resource.injEq] at heq hm
  exact ⟨heq.1, hm.2.1 ▸ hr₂, hm.2.2⟩

/-- Headers that say the same in the tag are the same, and so is the data behind them. -/
theorem header_eq_of_tag (hsame : SameUnderStamps s m c) (hs : s.WellFormed) (hc : c.WellFormed)
    {tenantId tenantId' : UUID} {gs hs' : List ResourceHeader}
    (hgs : loadResourceHeaders tenantId false s = .ok gs)
    (hhs : loadResourceHeaders tenantId' false c = .ok hs') {g h : ResourceHeader} (hg : g ∈ gs)
    (hh : h ∈ hs') (htag : headerTag g = headerTag h) : g = h ∧ SameData m c h.resource := by
  obtain ⟨hgr, d, -, hd, hgd⟩ := mem_headers hgs hg
  obtain ⟨hhr, d', -, hd', hhd⟩ := mem_headers hhs hh
  simp only [headerTag, HeaderTag.mk.injEq] at htag
  obtain ⟨hid, -, hat, hdef, -, hdat, hsource⟩ := htag
  have hgr' : lookup TenantResource.id h.resource.id s.resources = some g.resource :=
    hid ▸ lookup_self hs.resourceIds hgr
  obtain ⟨hr, hmr, hown⟩ := hsame.resource hgr' (lookup_self hc.resourceIds hhr) hat
  obtain ⟨rfl, hfields⟩ := hsame.definition (hdef ▸ hd) hd' (by rw [hgd, hhd] at hdat; exact hdat)
  -- the source is there in both catalogues, under the same stamp
  have hsrc : ∀ id, h.resource.sourceResourceId = some id →
      lookup TenantResource.id id s.resources = lookup TenantResource.id id c.resources ∧
        findValue m id = findValue c id := by
    intro id hsid
    obtain ⟨x, hx, hxid, -⟩ := hs.resourceSource g.resource hgr id (hr ▸ hsid)
    obtain ⟨y, hy, hyid, -⟩ := hc.resourceSource h.resource hhr id hsid
    have hlx : lookup TenantResource.id id s.resources = some x :=
      hxid ▸ lookup_self hs.resourceIds hx
    have hly : lookup TenantResource.id id c.resources = some y :=
      hyid ▸ lookup_self hc.resourceIds hy
    have hgat : g.sourceUpdatedAt = x.updatedAt := by
      rw [hgd]
      simp [headerOf, hr, hsid, hlx]
    have hhat : h.sourceUpdatedAt = y.updatedAt := by
      rw [hhd]
      simp [headerOf, hsid, hly]
    have hnano : Timestamp.unixNano x.updatedAt = Timestamp.unixNano y.updatedAt := by
      simpa [hr, hsid, hgat, hhat] using hsource
    obtain ⟨rfl, -, hvals⟩ := hsame.resource hlx hly hnano
    exact ⟨hlx.trans hly.symm, hvals⟩
  refine ⟨?_, ⟨hmr.trans (lookup_self hc.resourceIds hhr).symm, hfields, hown,
    fun id hsid => (hsrc id hsid).2⟩⟩
  rw [hgd, hhd, hr]
  have hbind : (h.resource.sourceResourceId.bind fun id =>
    lookup TenantResource.id id s.resources) =
      h.resource.sourceResourceId.bind fun id => lookup TenantResource.id id c.resources := by
    cases hsid : h.resource.sourceResourceId with
    | none => rfl
    | some id => simp [(hsrc id hsid).1]
  simp only [headerOf, hbind]

end same

section batch

/-- Lists that have equal images under a map that tells their members apart are equal. -/
theorem eq_of_map_eq {α β : Type} {f : α → β} {l l' : List α} (h : l.map f = l'.map f)
    (hinj : ∀ a ∈ l, ∀ b ∈ l', f a = f b → a = b) : l = l' := by
  induction l generalizing l' with
  | nil => simpa [eq_comm] using h
  | cons a l ih =>
    cases l' with
    | nil => simp at h
    | cons b l' =>
      rw [List.map_cons, List.map_cons, List.cons.injEq] at h
      rw [hinj a (.head _) b (.head _) h.1, ih h.2 fun x hx y hy =>
        hinj x (.tail _ hx) y (.tail _ hy)]

instance : Std.Total fun r s : TenantResource => r.id ≤ s.id := ⟨fun r s => le_total r.id s.id⟩

instance : IsTrans TenantResource fun r s => r.id ≤ s.id := ⟨fun _ _ _ h h' => le_trans h h'⟩

/-- The batch query over the same identifiers returns the same rows. -/
theorem listResourceFieldValuesByResourceIDs_congr (hm : Keyed TenantResource.id m.resources)
    (hc : Keyed TenantResource.id c.resources) {ids : List UUID}
    (hlookup : ∀ id ∈ ids, lookup TenantResource.id id m.resources =
      lookup TenantResource.id id c.resources)
    (hrows : ∀ r ∈ c.resources, r.id ∈ ids → rowsOf m r = rowsOf c r) :
    listResourceFieldValuesByResourceIDs ids m = listResourceFieldValuesByResourceIDs ids c := by
  have hmem : ∀ r, r ∈ m.resources.filter (fun r => r.id ∈ ids) ↔ r ∈
      c.resources.filter (fun r => r.id ∈ ids) := by
    intro r
    simp only [List.mem_filter, decide_eq_true_eq]
    refine and_congr_left fun hid => ?_
    have h := hlookup r.id hid
    constructor
    · intro hr
      rw [lookup_self hm hr] at h
      exact mem_of_lookup h.symm
    · intro hr
      rw [lookup_self hc hr] at h
      exact mem_of_lookup h
  have hsorted : (m.resources.filter fun r => r.id ∈ ids).insertionSort (fun r s => r.id ≤ s.id) =
      (c.resources.filter fun r => r.id ∈ ids).insertionSort fun r s => r.id ≤ s.id := by
    refine List.Perm.eq_of_pairwise ?_ (List.pairwise_insertionSort _ _)
      (List.pairwise_insertionSort _ _) ?_
    · intro a b ha hb hab hba
      have ha := (hmem a).mp ((List.mem_insertionSort _).mp ha)
      have hb := (List.mem_insertionSort _).mp hb
      exact hc.eq_of_key (List.mem_filter.mp ha).1 (List.mem_filter.mp hb).1 (le_antisymm hab hba)
    · refine (List.perm_insertionSort _ _).trans
        (List.Perm.trans ?_ (List.perm_insertionSort _ _).symm)
      exact (List.perm_ext_iff_of_nodup ((List.Nodup.of_map _ hm).filter _)
        ((List.Nodup.of_map _ hc).filter _)).mpr hmem
  unfold listResourceFieldValuesByResourceIDs
  rw [hsorted]
  refine congrArg Except.ok (List.flatMap_congr fun r hr => ?_)
  obtain ⟨hr, hid⟩ := List.mem_filter.mp ((List.mem_insertionSort _).mp hr)
  exact hrows r hr (by simpa using hid)

theorem resolveTenant_congr (hm : m.WellFormed) (hc : c.WellFormed) {t t' : Tenant}
    (hslug : t.slug = t'.slug) {hs : List ResourceHeader}
    (hmem : ∀ h ∈ hs, h.resource ∈ c.resources) (hdata : ∀ h ∈ hs, SameData m c h.resource) :
    resolveTenant cryptor t hs m = resolveTenant cryptor t' hs c := by
  have hlist := listResourceFieldValuesByResourceIDs_congr hm.resourceIds
    hc.resourceIds
    (by
      intro id hid
      obtain ⟨h, hh, rfl⟩ := List.mem_map.mp hid
      exact (hdata h hh).resource)
    (by
      intro r hr hid
      obtain ⟨h, hh, hrid⟩ := List.mem_map.mp hid
      obtain rfl := hc.resourceIds.eq_of_key (hmem h hh) hr hrid
      exact (hdata h hh).rowsOf_eq)
  unfold resolveTenant buildResourceFieldsBatch
  rw [hlist, hslug]

end batch

/-- Equal tags come from equal headers, whose data `m` and `c` agree on: the answers of
`ResolveTenant` in `m` and in `c` are the same. -/
theorem resolveTenant_eq_of_version_eq {sha256 : Bytes → Bytes} (hsha : Function.Injective sha256)
    (hs : TagReady s) (hm : m.WellFormed) (hc : TagReady c) (hsame : SameUnderStamps s m c)
    {t t' : Tenant} (hslug : Undelimited t.slug) (hslug' : Undelimited t'.slug) {tag : String}
    {gs hs' : List ResourceHeader} (hgs : version sha256 t s = .ok (tag, gs))
    (hhs : version sha256 t' c = .ok (tag, hs')) :
    gs = hs' ∧ resolveTenant cryptor t gs m = resolveTenant cryptor t' hs' c := by
  obtain ⟨hgload, hgtag⟩ : loadResourceHeaders t.id false s = .ok gs ∧
      computeETag sha256 t gs = tag := by
    cases hgs
    exact ⟨rfl, rfl⟩
  obtain ⟨hhload, hhtag⟩ : loadResourceHeaders t'.id false c = .ok hs' ∧
      computeETag sha256 t' hs' = tag := by
    cases hhs
    exact ⟨rfl, rfl⟩
  have hkeys : ∀ {k : Catalog} {id : UUID} {l : List ResourceHeader}, TagReady k →
      loadResourceHeaders id false k = .ok l → ∀ h ∈ l, Undelimited h.definitionKey := by
    intro k id l hk hl h hh
    obtain ⟨-, d, hd, -, heq⟩ := mem_headers hl hh
    rw [heq]
    exact hk.definitionKeys d hd
  obtain ⟨-, hslugs, -, htags⟩ := etagPreimage_inj hslug hslug' (hkeys hs hgload) (hkeys hc hhload)
    (computeETag_inj hsha (hgtag.trans hhtag.symm))
  have hpair : ∀ g ∈ gs, ∀ h ∈ hs', headerTag g = headerTag h → g = h ∧ SameData m c h.resource :=
    fun g hg h hh => header_eq_of_tag hsame hs.wellFormed hc.wellFormed hgload hhload hg hh
  have hsorted : sortHeaders gs = sortHeaders hs' := eq_of_map_eq htags fun g hg h hh htag =>
    (hpair g (mem_sortHeaders.mp hg) h (mem_sortHeaders.mp hh) htag).1
  have hperm : gs.Perm hs' := by
    have hg : (sortHeaders gs).Perm gs := List.perm_insertionSort _ _
    have hh : (sortHeaders hs').Perm hs' := List.perm_insertionSort _ _
    exact hg.symm.trans (hsorted ▸ hh)
  have heq : gs = hs' := by
    refine List.Perm.eq_of_pairwise ?_ (pairwise_headers hgload) (pairwise_headers hhload) hperm
    intro g h hg hh hgh hhg
    have hg' := (mem_headers hhload (hperm.mem_iff.mp hg))
    have hh' := mem_headers hhload hh
    have hid : g.resource.id = h.resource.id := by
      simp only [resourceOrder] at hgh hhg
      rcases hgh with hlt | ⟨he, hle⟩
      · rcases hhg with hlt' | ⟨he, -⟩
        · exact absurd (hlt.trans hlt') (lt_irrefl _)
        · exact absurd (he ▸ hlt) (lt_irrefl _)
      · rcases hhg with hlt' | ⟨-, hle'⟩
        · exact absurd (he ▸ hlt') (lt_irrefl _)
        · exact le_antisymm hle hle'
    have hr : g.resource = h.resource := hc.wellFormed.resourceIds.eq_of_key hg'.1 hh'.1 hid
    obtain ⟨-, d, -, hd, hgd⟩ := hg'
    obtain ⟨-, d', -, hd', hhd⟩ := hh'
    rw [hr, hd'] at hd
    cases hd
    rw [hgd, hhd, hr]
  subst heq
  refine ⟨rfl, resolveTenant_congr hm hc.wellFormed hslugs (fun h hh =>
    (mem_headers hhload hh).1) fun h hh => ?_⟩
  exact (hpair h hh h hh rfl).2

end Tenancit.Service
