import Tenancit.Store.CatalogSpec

/-!
The constraints on the aliases of resources: their format, and that a tenant has one resource
for an alias. A stored alias is its own key, so that the index and a comparison of the texts
agree.
-/
namespace Tenancit.Store

open Encoding Table Queries Text

/-- The tenant and the alias as `uq_tenant_resource_alias` compares them. -/
def aliasIndex (r : TenantResource) : UUID × String := (r.tenantId, aliasKey r.resourceAlias)

/-- The aliases keep their format and their index. -/
structure Catalog.Aliased (c : Catalog) : Prop where
  format : ∀ r ∈ c.resources, aliasFormat r.resourceAlias = true
  aliases : Keyed aliasIndex c.resources

theorem aliasFormat_chars {s : String} (h : aliasFormat s = true) :
    ∀ c ∈ s.toList, isLower c = true ∨ isDigit c = true ∨ c = '.' ∨ c = '_' ∨ c = '-' := by
  unfold aliasFormat at h
  cases hs : s.toList with
  | nil => simp
  | cons c cs =>
    rw [hs] at h
    simp only [Bool.and_eq_true, Bool.or_eq_true, List.all_eq_true, decide_eq_true_eq] at h
    obtain ⟨⟨hhead, -⟩, htail⟩ := h
    intro x hx
    rcases List.mem_cons.mp hx with rfl | hx
    · rcases hhead with hlower | hdigit
      · exact .inl hlower
      · exact .inr (.inl hdigit)
    · have hx := htail x hx
      tauto

/-- An alias of the format is its own key. -/
theorem aliasKey_of_format {s : String} (h : aliasFormat s = true) : aliasKey s = s := by
  refine toLower_btrim_eq_self fun c hc => ?_
  have hupper : ¬('A' ≤ c ∧ c ≤ 'Z') ↔ ¬(65 ≤ c.toNat ∧ c.toNat ≤ 90) := by
    simp [Char.le_def, UInt32.le_iff_toNat_le]
  rw [hupper]
  rcases aliasFormat_chars h c hc with hlower | hdigit | rfl | rfl | rfl
  · have hrange := isLower_range hlower
    refine ⟨?_, by omega, by omega⟩
    rintro rfl
    exact absurd hrange (by decide)
  · have hrange := isDigit_range hdigit
    refine ⟨?_, by omega, by omega⟩
    rintro rfl
    exact absurd hrange (by decide)
  all_goals decide

namespace Catalog.Aliased

variable {now : Timestamp} {t : Tick} {c c' : Catalog} {r : TenantResource}

theorem empty : Aliased {} where
  format := by simp
  aliases := keyed_nil

theorem of_same (hc : c.Aliased) (h : c'.resources = c.resources) : c'.Aliased where
  format := h ▸ hc.format
  aliases := h ▸ hc.aliases

theorem delete (hc : c.Aliased) {p : TenantResource → Bool}
    (h : c'.resources = Table.delete p c.resources) : c'.Aliased where
  format := by
    intro r hr
    rw [h] at hr
    exact hc.format r (mem_delete.mp hr).1
  aliases := by
    rw [h]
    exact hc.aliases.delete

/-- Changes of the other columns keep the aliases. -/
theorem update (hc : c.Aliased) {p : TenantResource → Bool} {set : TenantResource → TenantResource}
    (h : c'.resources = Table.update p set c.resources)
    (htenant : ∀ r, (set r).tenantId = r.tenantId)
    (halias : ∀ r, (set r).resourceAlias = r.resourceAlias) : c'.Aliased where
  format := by
    rw [h]
    refine forall_mem_update (P := fun r : TenantResource => aliasFormat r.resourceAlias = true)
      hc.format fun r hr _ => ?_
    rw [halias]
    exact hc.format r hr
  aliases := by
    rw [h]
    exact hc.aliases.update fun r => by rw [aliasIndex, htenant, halias, aliasIndex]

theorem createTenantResource (hc : c.Aliased) {arg : CreateTenantResourceParams}
    (h : Queries.createTenantResource now arg t c = .ok (r, c')) : c'.Aliased := by
  simp only [Queries.createTenantResource, ite_error_eq_ok, Except.ok.injEq,
    Prod.mk.injEq, not_or, not_not] at h
  obtain ⟨-, ⟨⟨-, hformat, -⟩, -⟩, hnew, -, rfl, rfl⟩ := h
  constructor
  · intro r hr
    rcases List.mem_append.mp hr with hr | hr
    · exact hc.format r hr
    · rw [List.mem_singleton.mp hr]
      exact hformat
  · refine hc.aliases.append fun r hr he => ?_
    exact hnew ⟨r, hr, .inr (Prod.mk.injEq _ _ _ _ ▸ he)⟩

theorem updateTenantResourceIdentity (hc : c.Aliased)
    (hids : Keyed TenantResource.id c.resources) {id tenantId : UUID}
    {resourceAlias displayName : String}
    (h : Queries.updateTenantResourceIdentity now id tenantId resourceAlias displayName t c =
      .ok (r, c')) :
    c'.Aliased := by
  simp only [Queries.updateTenantResourceIdentity] at h
  split at h
  · cases h
  next row hrow =>
    simp only [ite_error_eq_ok, Except.ok.injEq, Prod.mk.injEq, not_not] at h
    obtain ⟨⟨-, hformat, -⟩, hfree, -, rfl⟩ := h
    obtain ⟨hmem, hid, htenant⟩ := findResource_some hrow
    constructor
    · exact forall_mem_update (P := fun r : TenantResource => aliasFormat r.resourceAlias = true)
        hc.format fun r _ _ => hformat
    · let set : TenantResource → TenantResource := fun r =>
        { r with
          tenantId := tenantId, resourceAlias := resourceAlias, displayName :=
            displayName, updatedAt := now }
      -- the row found has the tenant already
      have hset : (changeResource id tenantId
        (setIdentity now resourceAlias displayName) c).resources =
          Table.update (fun r => r.id = id && r.tenantId = tenantId) set c.resources := by
        refine List.map_congr_left fun x _ => ?_
        split
        next hp =>
          have hx : x.tenantId = tenantId := by simpa using (Bool.and_eq_true_iff.mp hp).2
          simp only [setIdentity, set, hx]
        · rfl
      show Keyed aliasIndex
        (changeResource id tenantId (setIdentity now resourceAlias displayName) c).resources
      rw [hset]
      refine hc.aliases.rekey (k := (tenantId, aliasKey resourceAlias))
        (i := id) hids ?_ (fun _ => rfl) ?_
      · intro x _ hp
        simpa using (Bool.and_eq_true_iff.mp hp).1
      · intro x hx hp he
        obtain ⟨hxt, hxa⟩ : x.tenantId = tenantId ∧ aliasKey x.resourceAlias =
            aliasKey resourceAlias :=
          Prod.mk.injEq _ _ _ _ ▸ he
        refine hfree ⟨x, hx, fun hxid => ?_, hxt, hxa⟩
        simp [hxid, hxt] at hp

end Catalog.Aliased

end Tenancit.Store
