import Tenancit.Service.ETag

/-!
What a tag stands for: with the texts that the validators let through and times that have a
count of nanoseconds, two tags are equal exactly if the tenants have the same identifier,
slug and update time and the headers are the same up to their order.
-/
namespace Tenancit.Service

open Encoding Crypto Store Queries

/-- The time has a count of nanoseconds. -/
def Representable (t : Timestamp) : Prop := -2 ^ 63 ≤ t * 1000 ∧ t * 1000 < 2 ^ 63

/-- What the tag takes from a header. -/
structure HeaderTuple where
  id : UUID
  status : Status
  updatedAt : Timestamp
  definitionId : UUID
  definitionKey : String
  definitionUpdatedAt : Timestamp
  source : Option (UUID × Timestamp)
  deriving DecidableEq

def headerTuple (h : ResourceHeader) : HeaderTuple where
  id := h.resource.id
  status := h.resource.status
  updatedAt := h.resource.updatedAt
  definitionId := h.resource.resourceDefinitionId
  definitionKey := h.definitionKey
  definitionUpdatedAt := h.definitionUpdatedAt
  source := h.resource.sourceResourceId.map fun id => (id, h.sourceUpdatedAt)

/-- A header that `computeETag` is given. -/
structure TagHeader (h : ResourceHeader) : Prop where
  key : ∃ raw, normalizeDefinitionKey raw = (h.definitionKey, true)
  updatedAt : Representable h.resource.updatedAt
  definitionUpdatedAt : Representable h.definitionUpdatedAt
  sourceUpdatedAt : h.resource.sourceResourceId.isSome → Representable h.sourceUpdatedAt

/-- The tenant and the headers that `computeETag` is given. -/
structure TagInput (t : Tenant) (hs : List ResourceHeader) : Prop where
  slug : ∃ raw, normalizeTenantSlug raw = (t.slug, true)
  updatedAt : Representable t.updatedAt
  headers : ∀ h ∈ hs, TagHeader h
  distinct : (hs.map fun h => h.resource.id).Nodup

section tuples

variable {t t' : Tenant} {h h' : ResourceHeader} {hs hs' : List ResourceHeader}

theorem unixNano_of_representable {a : Timestamp} (ha : Representable a) :
    Timestamp.unixNano a = a * 1000 := by
  obtain ⟨hlo, hhi⟩ := ha
  exact Int.bmod_eq_of_le hlo hhi

theorem unixNano_inj {a b : Timestamp} (ha : Representable a) (hb : Representable b)
    (h : Timestamp.unixNano a = Timestamp.unixNano b) : a = b := by
  rw [unixNano_of_representable ha, unixNano_of_representable hb] at h
  exact Int.eq_of_mul_eq_mul_right (by decide) h

theorem TagHeader.undelimited (h : TagHeader h') : Undelimited h'.definitionKey := by
  obtain ⟨raw, hraw⟩ := h.key
  have hkey : Undelimited (normalizeDefinitionKey raw).1 := undelimited_definitionKey (by rw [hraw])
  rwa [hraw] at hkey

theorem TagInput.undelimited (h : TagInput t hs) : Undelimited t.slug := by
  obtain ⟨raw, hraw⟩ := h.slug
  have hslug : Undelimited (normalizeTenantSlug raw).1 := undelimited_tenantSlug (by rw [hraw])
  rwa [hraw] at hslug

/-- The lines of a header are written from its tuple alone. -/
theorem headerLines_congr (heq : headerTuple h = headerTuple h') :
    headerLines h = headerLines h' := by
  simp only [headerTuple, HeaderTuple.mk.injEq] at heq
  obtain ⟨hid, hstatus, hat, hdef, hkey, hdefAt, hsource⟩ := heq
  have hline : sourceLine h.sourceUpdatedAt h.resource.sourceResourceId =
      sourceLine h'.sourceUpdatedAt h'.resource.sourceResourceId := by
    cases hsrc : h.resource.sourceResourceId with
    | none =>
      rw [hsrc, Option.map_none, eq_comm, Option.map_eq_none_iff] at hsource
      rw [hsource, sourceLine, sourceLine]
    | some id =>
      rw [hsrc, Option.map_some, eq_comm, Option.map_eq_some_iff] at hsource
      obtain ⟨id', hid', hpair⟩ := hsource
      obtain ⟨rfl, hat'⟩ := Prod.mk.inj hpair
      rw [hid', hat']
  rw [headerLines, headerLines, hid, hstatus, hat, hdef, hkey, hdefAt, hline]

/-- Headers with equal tags have equal tuples. -/
theorem headerTuple_inj (hh : TagHeader h) (hh' : TagHeader h') (heq : headerTag h = headerTag h') :
    headerTuple h = headerTuple h' := by
  simp only [headerTag, HeaderTag.mk.injEq] at heq
  obtain ⟨hid, hstatus, hat, hdef, hkey, hdefAt, hsource⟩ := heq
  simp only [headerTuple, HeaderTuple.mk.injEq]
  refine ⟨hid, hstatus, unixNano_inj hh.updatedAt hh'.updatedAt hat, hdef, hkey,
    unixNano_inj hh.definitionUpdatedAt hh'.definitionUpdatedAt hdefAt, ?_⟩
  have hs := hh.sourceUpdatedAt
  have hs' := hh'.sourceUpdatedAt
  cases hsrc : h.resource.sourceResourceId with
  | none =>
    cases hsrc' : h'.resource.sourceResourceId with
    | none => rfl
    | some id' => simp [hsrc, hsrc'] at hsource
  | some id =>
    cases hsrc' : h'.resource.sourceResourceId with
    | none => simp [hsrc, hsrc'] at hsource
    | some id' =>
      simp only [hsrc, hsrc', Option.map_some, Option.some.injEq, Prod.mk.injEq] at hsource
      simp only [Option.map_some, Option.some.injEq, Prod.mk.injEq]
      exact ⟨hsource.1, unixNano_inj (hs (by simp [hsrc])) (hs' (by simp [hsrc'])) hsource.2⟩

theorem map_headerTuple (hhs : ∀ h ∈ hs, TagHeader h) (hhs' : ∀ h ∈ hs', TagHeader h)
    (heq : hs.map headerTag = hs'.map headerTag) : hs.map headerTuple = hs'.map headerTuple := by
  induction hs generalizing hs' with
  | nil => simpa using heq
  | cons h hs ih =>
    cases hs' with
    | nil => simp at heq
    | cons h' hs' =>
      simp only [List.map_cons, List.cons.injEq] at heq
      simp only [List.mem_cons, forall_eq_or_imp] at hhs hhs'
      rw [List.map_cons, List.map_cons, headerTuple_inj hhs.1 hhs'.1 heq.1, ih hhs.2 hhs'.2 heq.2]

theorem flatMap_headerLines (heq : hs.map headerTuple = hs'.map headerTuple) :
    hs.flatMap headerLines = hs'.flatMap headerLines := by
  induction hs generalizing hs' with
  | nil => rw [List.map_eq_nil_iff.mp heq.symm]
  | cons h hs ih =>
    cases hs' with
    | nil => simp at heq
    | cons h' hs' =>
      simp only [List.map_cons, List.cons.injEq] at heq
      rw [List.flatMap_cons, List.flatMap_cons, headerLines_congr heq.1, ih heq.2]

/-- Sorting forgets the order of the headers and nothing else. -/
theorem sortHeaders_tuples (hdistinct : (hs.map fun h => h.resource.id).Nodup) :
    (sortHeaders hs).map headerTuple = (sortHeaders hs').map headerTuple ↔
      (hs.map headerTuple).Perm (hs'.map headerTuple) := by
  have hperm : ((sortHeaders hs).map headerTuple).Perm (hs.map headerTuple) :=
    (List.perm_insertionSort _ hs).map _
  have hperm' : ((sortHeaders hs').map headerTuple).Perm (hs'.map headerTuple) :=
    (List.perm_insertionSort _ hs').map _
  constructor
  · intro heq
    exact (hperm.symm.trans (heq ▸ .refl _)).trans hperm'
  · intro h
    have hsorted : ∀ l : List ResourceHeader,
        ((sortHeaders l).map headerTuple).Pairwise fun a b => a.id.text ≤ b.id.text := fun l =>
      List.pairwise_map.mpr (List.pairwise_insertionSort _ l)
    have hids : ((hs.map headerTuple).map HeaderTuple.id).Nodup := by
      rw [List.map_map]
      exact hdistinct
    refine List.Perm.eq_of_pairwise ?_ (hsorted hs) (hsorted hs')
      ((hperm.trans h).trans hperm'.symm)
    intro a b ha hb hab hba
    -- the identifiers are distinct, so the order is one of the tuples
    have hid : a.id = b.id := text_injective (String.le_antisymm hab hba)
    exact List.inj_on_of_nodup_map hids (hperm.mem_iff.mp ha)
      (h.mem_iff.mpr (hperm'.mem_iff.mp hb)) hid

/-- Tags are equal exactly if the tenants have the same identifier, slug and update time and
the headers are the same up to their order. -/
theorem computeETag_eq_iff {sha256 : Bytes → Bytes} (hsha : Function.Injective sha256)
    (ht : TagInput t hs) (ht' : TagInput t' hs') :
    computeETag sha256 t hs = computeETag sha256 t' hs' ↔
      (t.id, t.slug, t.updatedAt) = (t'.id, t'.slug, t'.updatedAt) ∧
        (hs.map headerTuple).Perm (hs'.map headerTuple) := by
  rw [← sortHeaders_tuples ht.distinct, Prod.mk.injEq, Prod.mk.injEq]
  constructor
  · intro h
    obtain ⟨hid, hslug, hat, htags⟩ := etagPreimage_inj ht.undelimited ht'.undelimited
      (fun h hh => (ht.headers h hh).undelimited) (fun h hh => (ht'.headers h hh).undelimited)
        (computeETag_inj hsha h)
    refine ⟨⟨hid, hslug, unixNano_inj ht.updatedAt ht'.updatedAt hat⟩, map_headerTuple ?_ ?_ htags⟩
    · exact fun h hh => ht.headers h (mem_sortHeaders.mp hh)
    · exact fun h hh => ht'.headers h (mem_sortHeaders.mp hh)
  · rintro ⟨⟨hid, hslug, hat⟩, htuples⟩
    have hlength : hs.length = hs'.length := by
      simpa [sortHeaders] using congrArg List.length htuples
    rw [computeETag, computeETag, etagPreimage, etagPreimage, tenantLine, tenantLine,
      hid, hslug, hat, hlength,
      flatMap_headerLines htuples]

/-- A tenant with two resources, one of them linked to the other. -/
def taggedTenant : Tenant := ⟨1, "acme", "Acme", .active, 0, 5⟩

def taggedHeader (id : UUID) (resourceAlias : String) (source : Option UUID) : ResourceHeader :=
  ⟨⟨id, 1, 7, .active, 0, 1700000000000000, resourceAlias, source, ""⟩, "db", "DB", 3, "", 4⟩

theorem tagHeader_tagged (id : UUID) (resourceAlias : String) (source : Option UUID) :
    TagHeader (taggedHeader id resourceAlias source) where
  key := ⟨"db", (by decide +kernel : normalizeDefinitionKey "db" = ("db", true))⟩
  updatedAt := (⟨by decide, by decide⟩ : Representable 1700000000000000)
  definitionUpdatedAt := (⟨by decide, by decide⟩ : Representable 3)
  sourceUpdatedAt _ := (⟨by decide, by decide⟩ : Representable 4)

theorem tagInput_tagged {hs : List ResourceHeader}
    (hdistinct : (hs.map fun h => h.resource.id).Nodup) (hhs : ∀ h ∈ hs, TagHeader h) :
    TagInput taggedTenant hs where
  slug := ⟨"acme", (by decide +kernel : normalizeTenantSlug "acme" = ("acme", true))⟩
  updatedAt := (⟨by decide, by decide⟩ : Representable 5)
  headers := hhs
  distinct := hdistinct

/-- The order of two headers does not show in the tag; a source does. -/
theorem swapped_headers_same_tag :
    computeETag (hashKnowing []) taggedTenant [taggedHeader 2 "main" none,
      taggedHeader 3 "copy" (some 2)] =
      computeETag (hashKnowing []) taggedTenant [taggedHeader 3 "copy" (some 2),
        taggedHeader 2 "main" none] ∧
    computeETag (hashKnowing []) taggedTenant [taggedHeader 3 "copy" (some 2)] ≠
      computeETag (hashKnowing []) taggedTenant [taggedHeader 3 "copy" none] := by
  have hsha : Function.Injective (hashKnowing []) := hashKnowing_injective (by decide)
  constructor
  · refine (computeETag_eq_iff hsha (tagInput_tagged (by decide) ?_)
      (tagInput_tagged (by decide) ?_)).mpr
      ⟨rfl, .swap _ _ _⟩
    all_goals simp [tagHeader_tagged]
  · intro heq
    have htags :=
      (computeETag_eq_iff hsha (tagInput_tagged (by decide) (by simp [tagHeader_tagged]))
      (tagInput_tagged (by decide) (by simp [tagHeader_tagged]))).mp heq
    exact absurd (List.singleton_perm_singleton.mp htags.2) (by decide)

end tuples

end Tenancit.Service
