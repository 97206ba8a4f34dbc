import Tenancit.Httpapi.AdminRead
import Tenancit.Service.ResolveOne
import Tenancit.Values.Legible

/-!
The listing of a tenant's resources that masks secrets, over stores that differ in the values
of secret fields only, and with whatever keys the server has.
-/
namespace Tenancit.Httpapi

open Encoding Crypto Store Service Queries Table
open Values (Legible)

variable {Key : Type} {aead : Aead Key} {cryptor : Cryptor aead} {c c' : Catalog}

/-- The value belongs to a secret field. -/
def OfSecret (c : Catalog) (v : TenantResourceValue) : Prop :=
  ∃ f ∈ c.fields, f.id = v.resourceFieldId ∧ f.isSecret = true

instance (c : Catalog) (v : TenantResourceValue) : Decidable (OfSecret c v) := by
  unfold OfSecret
  infer_instance

/-- The row of a value, without what it holds if its field is secret. -/
def blank (c : Catalog) (v : TenantResourceValue) : TenantResourceValue :=
  if OfSecret c v then { v with
    valuePlain := none, valueCipher := none, nonce := none, keyVersion := none } else v

/-- The catalogues agree but for what existing values of secret fields hold. -/
structure SameButSecrets (c c' : Catalog) : Prop where
  tenants : c'.tenants = c.tenants
  domains : c'.domains = c.domains
  definitions : c'.definitions = c.definitions
  fields : c'.fields = c.fields
  resources : c'.resources = c.resources
  values : c'.values.map (blank c) = c.values.map (blank c)

theorem lookup_map {α ρ κ : Type} [DecidableEq κ] {key : ρ → κ} {key' : α → κ} {f : ρ → α}
    (hf : ∀ r, key' (f r) = key r) {k : κ} {rows : List ρ} :
    lookup key' k (rows.map f) = (lookup key k rows).map f := by
  induction rows with
  | nil => rfl
  | cons r rows ih =>
    simp only [lookup, List.map_cons, List.find?_cons, hf] at ih ⊢
    split
    · rfl
    · exact ih

theorem valueKey_blank (v : TenantResourceValue) : valueKey (blank c v) = valueKey v := by
  unfold blank
  split <;> rfl

theorem SameButSecrets.findValue (h : SameButSecrets c c') (resourceId fieldId : UUID) :
    (Queries.findValue c' resourceId fieldId).map (blank c) =
      (Queries.findValue c resourceId fieldId).map (blank c) := by
  have hlookup := congrArg (lookup valueKey (resourceId, fieldId)) h.values
  rwa [lookup_map valueKey_blank, lookup_map valueKey_blank] at hlookup

/-- There are values for the same fields of the same resources. -/
theorem SameButSecrets.isSome_findValue (h : SameButSecrets c c') (resourceId fieldId : UUID) :
    (Queries.findValue c' resourceId fieldId).isSome =
      (Queries.findValue c resourceId fieldId).isSome := by
  have hsome := congrArg Option.isSome (h.findValue resourceId fieldId)
  simpa only [Option.isSome_map] using hsome

/-- The values of a plain field are the same. -/
theorem SameButSecrets.findValue_plain (h : SameButSecrets c c') (hc : c.WellFormed)
    {f : ResourceField} (hf : f ∈ c.fields) (hplain : f.isSecret = false) (resourceId : UUID) :
    Queries.findValue c' resourceId f.id = Queries.findValue c resourceId f.id := by
  have hkept : ∀ d v, Queries.findValue d resourceId f.id = some v → blank c v = v := by
    intro d v hv
    refine if_neg ?_
    rintro ⟨g, hg, hid, hsecret⟩
    obtain rfl : f = g := hc.fieldIds.eq_of_key hf hg ((findValue_some hv).2.2.symm.trans hid.symm)
    rw [hplain] at hsecret
    cases hsecret
  have hmap : ∀ d, (Queries.findValue d resourceId f.id).map (blank c) =
      Queries.findValue d resourceId f.id := by
    intro d
    cases hv : Queries.findValue d resourceId f.id with
    | none => rfl
    | some v => rw [Option.map_some, hkept d v hv]
  rw [← hmap c', ← hmap c]
  exact h.findValue resourceId f.id

/-- What a row shows with its secrets masked. -/
def maskedRow (header : ResourceHeader) (row : FieldValueRow) : ResourceFieldValue :=
  ⟨row.dataType, row.isSecret, row.fieldKey, row.fieldLabel, row.required, row.isOverride,
    if row.isOverride || header.resource.sourceResourceId.isNone then .ownValue else .inherited,
    if row.hasValue then if row.isSecret then maskedValue else row.valuePlain.getD "" else ""⟩

theorem fieldValue_masked {header : ResourceHeader} {row : FieldValueRow}
    (h : row.isSecret = false → row.valueCipher = none) :
    fieldValue cryptor false header row = .ok (maskedRow header row) := by
  cases hvalue : row.hasValue with
  | false => simp [fieldValue, maskedRow, hvalue, bind, Except.bind, pure, Except.pure]
  | true =>
    cases hsecret : row.isSecret with
    | true =>
      simp [fieldValue, maskedRow, presentValue, hvalue, hsecret, bind,
        Except.bind, pure, Except.pure]
    | false =>
      simp [fieldValue, maskedRow, presentValue, decodeValue, hvalue, hsecret, h hsecret,
        bind, Except.bind, pure,
        Except.pure]

/-- The row of a plain field carries no ciphertext. -/
theorem cipher_plain (h : Legible c) {r : TenantResource} (hr : r ∈ c.resources) {f : ResourceField}
    (hf : f ∈ c.fields) (hplain : f.isSecret = false) :
    (fieldValueRow c r f).valueCipher = none := by
  have hown : (findValue c r.id f.id).bind (·.valueCipher) = none := by
    cases hv : findValue c r.id f.id with
    | none => rfl
    | some v => exact h.plain r hr f hf hplain v hv
  have hsource : (r.sourceResourceId.bind fun id =>
      findValue c id f.id).bind (·.valueCipher) = none := by
    cases hs : r.sourceResourceId with
    | none => rfl
    | some id =>
      obtain ⟨s, hmem, rfl, -⟩ := h.wellFormed.resourceSource r hr id hs
      rw [Option.bind_some]
      cases hv : findValue c s.id f.id with
      | none => rfl
      | some v => exact h.plain s hmem f hf hplain v hv
  simp only [fieldValueRow, hown, hsource, Option.or_none]

theorem SameButSecrets.maskedRow_eq (h : SameButSecrets c c') (hc : c.WellFormed)
    {header : ResourceHeader} {r : TenantResource} {f : ResourceField} (hf : f ∈ c.fields) :
    maskedRow header (fieldValueRow c' r f) = maskedRow header (fieldValueRow c r f) := by
  cases hsecret : f.isSecret with
  | true =>
    have hsource : (r.sourceResourceId.bind fun id => Queries.findValue c' id f.id).isSome =
        (r.sourceResourceId.bind fun id => Queries.findValue c id f.id).isSome := by
      cases r.sourceResourceId with
      | none => rfl
      | some id => exact h.isSome_findValue id f.id
    simp only [maskedRow, fieldValueRow, hsecret, h.isSome_findValue, hsource, if_true]
  | false =>
    have hsource : (r.sourceResourceId.bind fun id => Queries.findValue c' id f.id) =
        r.sourceResourceId.bind fun id => Queries.findValue c id f.id := by
      cases r.sourceResourceId with
      | none => rfl
      | some id => exact h.findValue_plain hc hf hsecret id
    have hrow : fieldValueRow c' r f = fieldValueRow c r f := by
      unfold fieldValueRow
      rw [h.findValue_plain hc hf hsecret r.id, hsource]
    rw [hrow]

theorem SameButSecrets.rows_eq (h : SameButSecrets c c') (hc : c.WellFormed)
    (header : ResourceHeader) :
    (rowsOf c' header.resource).map (maskedRow header) =
      (rowsOf c header.resource).map (maskedRow header) := by
  simp only [rowsOf, fieldsOf, h.fields, List.map_map]
  exact List.map_congr_left fun f hf => h.maskedRow_eq hc (mem_fieldsOf.mp hf).1

/-- The headers do not depend on the values. -/
theorem SameButSecrets.loadResourceHeaders_eq (h : SameButSecrets c c') (tenantId : UUID)
    (includeInactive : Bool) :
    loadResourceHeaders tenantId includeInactive c' =
      loadResourceHeaders tenantId includeInactive c := by
  have hrow : headerRow c' = headerRow c := by
    funext r
    simp only [headerRow, h.definitions, h.resources]
  simp only [loadResourceHeaders, listResourceHeadersByTenant, resourcesOf, h.resources, hrow]

/-- The entries of the listing of a tenant that masks secrets. -/
def maskedResources (c : Catalog) (tenantId : UUID) : List BuiltResourceFields :=
  ((resourcesOf c tenantId true).filterMap (headerRow c)).map fun row =>
    let header := resourceHeaderFromRow row
    ⟨header, (rowsOf c header.resource).map (maskedRow header)⟩

theorem SameButSecrets.maskedResources_eq (h : SameButSecrets c c') (hc : c.WellFormed)
    (tenantId : UUID) :
    maskedResources c' tenantId = maskedResources c tenantId := by
  have hload := h.loadResourceHeaders_eq tenantId true
  simp only [loadResourceHeaders, listResourceHeadersByTenant, Except.map, Except.ok.injEq] at hload
  have heq : ∀ d, maskedResources d tenantId =
    (((resourcesOf d tenantId true).filterMap (headerRow d)).map
      resourceHeaderFromRow).map fun header =>
        ⟨header, (rowsOf d header.resource).map (maskedRow header)⟩ := by
    intro d
    rw [List.map_map]
    rfl
  rw [heq, heq, hload]
  exact List.map_congr_left fun header _ => by rw [h.rows_eq hc header]

theorem listing_shown (h : Legible c) {tenantId : UUID} {headers : List ResourceHeader}
    (hload : loadResourceHeaders tenantId true c = .ok headers) :
    ∀ header ∈ headers, ∀ row ∈ rowsOf c header.resource,
      fieldValue cryptor false header row = .ok (maskedRow header row) := by
  intro header hheader row hrow
  obtain ⟨f, hf, rfl⟩ := List.mem_map.mp hrow
  have hr := (mem_resourcesOf.mp (loadResourceHeaders_mem h.wellFormed hload header hheader)).1
  exact fieldValue_masked fun hplain => cipher_plain h hr (mem_fieldsOf.mp hf).1 hplain

/-- The values of the listing are masked, whatever keys the server has. -/
theorem loadResources_masked {d : Database} (h : Legible d.domain.catalog) (s : Server aead)
    (id : UUID) (t₁ t₂ : Tick) (ts : List Tick) :
    ∃ ts', loadResources s id false (t₁ :: t₂ :: ts) d =
      .ok (maskedResources d.domain.catalog id, ts', d) := by
  obtain ⟨headers, hload⟩ : ∃ headers, loadResourceHeaders id true d.domain.catalog =
    .ok headers := ⟨_, rfl⟩
  have hmasked : maskedResources d.domain.catalog id =
      headers.map fun header =>
      ⟨header, (rowsOf d.domain.catalog header.resource).map (maskedRow header)⟩ := by
    cases hload
    rw [List.map_map]
    rfl
  have hbuilt : buildResourceFieldsBatch s.cryptor headers false d.domain.catalog =
      .ok (maskedResources d.domain.catalog id) :=
    hmasked ▸ buildResourceFieldsBatch_eq h.wellFormed.resourceIds
      (loadResourceHeaders_ids h.wellFormed hload)
      (fun header hheader =>
        (mem_resourcesOf.mp (loadResourceHeaders_mem h.wellFormed hload header hheader)).1)
      (listing_shown h hload)
  have hheaders : query (loadResourceHeaders id true) (t₁ :: t₂ :: ts) d =
      .ok (headers, t₂ :: ts, d) :=
    onCatalog_query_eq_ok.mpr ⟨t₁, rfl, hload, rfl⟩
  by_cases hnil : headers = []
  · refine ⟨t₂ :: ts, Program.Tx.bind_eq_ok.mpr ⟨headers, t₂ :: ts, d, hheaders, ?_⟩⟩
    rw [if_pos hnil, hmasked, hnil]
    rfl
  · refine ⟨ts, Program.Tx.bind_eq_ok.mpr ⟨headers, t₂ :: ts, d, hheaders, ?_⟩⟩
    rw [if_neg hnil]
    exact onCatalog_query_eq_ok.mpr ⟨t₂, rfl, hbuilt, rfl⟩

/-- Where plain values are in clear the listing succeeds, whatever keys there are. -/
theorem listTenantResources_masked {d : Database} (h : Legible d.domain.catalog) (s : Server aead)
    (r : AdminRequest) (id : UUID) {ticks : List Tick} (hticks : 2 ≤ ticks.length) :
    Program.transact (listTenantResources s r (some id) false) ticks d =
      ⟨writeJSON 200 (.arr ((maskedResources d.domain.catalog id).map adminResourceJson)),
        true, d⟩ := by
  obtain ⟨t₁, t₂, ts, rfl⟩ : ∃ t₁ t₂ ts, ticks = t₁ :: t₂ :: ts := by
    match ticks, hticks with
    | t₁ :: t₂ :: ts, _ => exact ⟨t₁, t₂, ts, rfl⟩
  obtain ⟨ts', hload⟩ := loadResources_masked h s id t₁ t₂ ts
  have hlisted : listTenantResources s r (some id) false (t₁ :: t₂ :: ts) d = .ok
      (writeJSON 200 (.arr ((maskedResources d.domain.catalog id).map adminResourceJson)),
        ts', d) := by
    refine Program.Tx.ofExcept_bind_eq_ok.mpr ⟨id, rfl, Program.Tx.mapErr_eq_ok.mpr ?_⟩
    exact Program.Tx.bind_eq_ok.mpr ⟨_, ts', d, hload, rfl⟩
  simp only [Program.transact, hlisted]

/-- The listing that masks secrets reveals nothing about them. Over any two stores that actions
lead to and that agree but for what values of secret fields hold, it is the same, and it
succeeds, whatever keys the two servers have. -/
theorem masked_listing_conceals {Key₁ Key₂ : Type} {aead₁ : Aead Key₁} {aead₂ : Aead Key₂}
    {xs₁ : List (Values.Action aead₁ × List Tick)} {xs₂ : List (Values.Action aead₂ × List Tick)}
    {s₁ s₂ : Values.Recorded} (h₁ : Runs.Run Values.Action.Step ⟨{}, Overlay.empty⟩ xs₁ s₁)
    (h₂ : Runs.Run Values.Action.Step ⟨{}, Overlay.empty⟩ xs₂ s₂)
    (hsame : SameButSecrets s₁.catalog s₂.catalog) {d₁ d₂ : Database}
    (hd₁ : d₁.domain.catalog = s₁.catalog) (hd₂ : d₂.domain.catalog = s₂.catalog) {Key₃ Key₄ : Type}
    {aead₃ : Aead Key₃} {aead₄ : Aead Key₄} (server₁ : Server aead₃) (server₂ : Server aead₄)
    (r₁ r₂ : AdminRequest) (id : UUID) {ticks₁ ticks₂ : List Tick} (hticks₁ : 2 ≤ ticks₁.length)
    (hticks₂ : 2 ≤ ticks₂.length) :
    ∃ listing : List BuiltResourceFields,
      Program.transact (listTenantResources server₁ r₁ (some id) false) ticks₁ d₁ =
        ⟨writeJSON 200 (.arr (listing.map adminResourceJson)), true, d₁⟩ ∧
      Program.transact (listTenantResources server₂ r₂ (some id) false) ticks₂ d₂ =
        ⟨writeJSON 200 (.arr (listing.map adminResourceJson)), true, d₂⟩ := by
  have hlegible₁ : Legible d₁.domain.catalog := hd₁ ▸ Legible.run h₁
  have hlegible₂ : Legible d₂.domain.catalog := hd₂ ▸ Legible.run h₂
  refine ⟨maskedResources d₁.domain.catalog id,
    listTenantResources_masked hlegible₁ server₁ r₁ id hticks₁, ?_⟩
  rw [listTenantResources_masked hlegible₂ server₂ r₂ id hticks₂, hd₁, hd₂]
  rw [hsame.maskedResources_eq (Legible.run h₁).wellFormed id]

section sample

/-- A tenant, a definition with a plain and a secret field, a resource and one linked to it. -/
def sampleStored (secret : String) : List (Values.Action Aead.tagged × List Tick) :=
  let server : Cryptor Aead.tagged := .single Aead.tagged 7
  [(.maintain (.createDefinition "db" "DB" "" ""), ticksFrom 0 2),
   (.maintain (.createTenant "acme" "Acme"), ticksFrom 2 2),
   (.maintain (.addField (Values.sampleField "url" true false)), ticksFrom 4 2),
   (.maintain (.addField (Values.sampleField "password" false true)), ticksFrom 6 2),
   (.operate server (.provision ⟨"", "main", "db", none, 3001,
     [("url", "a"), ("password", secret)]⟩), ticksFrom 8 9),
   (.operate server (.provision ⟨"", "copy", "db", some 11001, 3001, []⟩), ticksFrom 20 9)]

def sampleStore (secret : String) : Values.Recorded :=
  (sampleStored secret).foldl (fun s x => x.1.after x.2 s) ⟨{}, Overlay.empty⟩

deriving instance DecidableEq for TenantDomain, ResourceDefinition, ResourceField, TenantResource

theorem sampleStore_same :
    SameButSecrets (sampleStore "p").catalog (sampleStore "other").catalog where
  tenants := by decide +kernel
  domains := by decide +kernel
  definitions := by decide +kernel
  fields := by decide +kernel
  resources := by decide +kernel
  values := by decide +kernel

/-- A server that has neither of the keys. -/
def sampleKeyless : Server Aead.tagged := ⟨.single Aead.tagged 9, fun b => b⟩

def sampleDatabase (secret : String) : Database where
  domain := { catalog := (sampleStore secret).catalog }

def sampleListing : Tx Database Response Response :=
  listTenantResources sampleKeyless ⟨"req", none, "GET", none⟩ (some 3001) false

theorem masked_listing_conceals_sample :
    (Program.transact sampleListing (ticksFrom 0 2) (sampleDatabase "p")).answer =
      (Program.transact sampleListing (ticksFrom 0 2) (sampleDatabase "other")).answer := by
  have hrun : ∀ secret, Runs.Run Values.Action.Step ⟨{}, Overlay.empty⟩ (sampleStored secret)
      (sampleStore secret) :=
    fun secret => Runs.run_foldl (fun x s => x.1.after x.2 s) _ (sampleStored secret)
  have hd : ∀ secret, (sampleDatabase secret).domain.catalog = (sampleStore secret).catalog := by
    intro secret
    rw [sampleDatabase]
  have hticks : 2 ≤ (ticksFrom 0 2).length := by decide
  obtain ⟨listing, h₁, h₂⟩ :=
    masked_listing_conceals (hrun "p") (hrun "other") sampleStore_same (hd "p") (hd "other")
    sampleKeyless sampleKeyless ⟨"req", none, "GET", none⟩ ⟨"req", none, "GET",
      none⟩ 3001 hticks hticks
  rw [sampleListing, h₁, h₂]

example : (maskedResources (sampleStore "p").catalog 3001).map (fun b => b.fields.map fun f =>
      (f.key, f.origin, f.value)) =
    [[("password", .ownValue, maskedValue), ("url", .ownValue, "a")],
      [("password", .inherited, maskedValue), ("url", .inherited, "a")]] := by
  decide +kernel

end sample

end Tenancit.Httpapi
