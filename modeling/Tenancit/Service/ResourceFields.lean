import Tenancit.Service.Values
import Tenancit.Store.CatalogSpec

/-!
`service/resource_fields.go`: resource headers, and the values of their fields read in one
batch and handed out to the header they belong to.
-/
namespace Tenancit.Service

open Encoding Crypto Store Queries

/-- Where the value shown for a field comes from. -/
inductive Origin where
  | ownValue
  | inherited
  deriving DecidableEq

def Origin.text : Origin → String
  | ownValue => "local"
  | inherited => "inherited"

structure ResourceFieldValue where
  dataType : String
  isSecret : Bool
  key : String
  label : String
  required : Bool
  isOverride : Bool
  origin : Origin
  value : String
  deriving DecidableEq

structure ResourceHeader where
  resource : TenantResource
  definitionKey : String
  definitionName : String
  definitionUpdatedAt : Timestamp
  sourceAlias : String
  sourceUpdatedAt : Timestamp

structure BuiltResourceFields where
  header : ResourceHeader
  fields : List ResourceFieldValue

/-- `resourceHeaderFromListRow` and `resourceHeaderFromGetRow`, whose rows are alike. -/
def resourceHeaderFromRow (row : ResourceHeaderRow) : ResourceHeader :=
  ⟨row.resource, row.definitionKey, row.definitionName, row.definitionUpdatedAt,
    row.sourceAlias.getD "", row.sourceUpdatedAt.getD Timestamp.zero⟩

def loadResourceHeaders (tenantId : UUID) (includeInactive : Bool) (c : Catalog) :
    Except PgError (List ResourceHeader) :=
  (listResourceHeadersByTenant tenantId includeInactive c).map fun rows =>
    rows.map resourceHeaderFromRow

/-- The index a map from identifiers to positions ends up with: the last one. -/
def indexByID (headers : List ResourceHeader) (id : UUID) : Option Nat :=
  headers.zipIdx.foldl (fun found h => if h.1.resource.id = id then some h.2 else found) none

variable {Key : Type} {aead : Aead Key}

/-- What a row shows under a header. -/
def fieldValue (cryptor : Cryptor aead) (reveal : Bool) (header : ResourceHeader)
    (row : FieldValueRow) : Except ServiceError ResourceFieldValue := do
  let origin :=
    if row.isOverride || header.resource.sourceResourceId.isNone then .ownValue else .inherited
  let shown ← if row.hasValue then
      presentValue cryptor row.isSecret ⟨UUID.nil, row.tenantResourceId, row.resourceFieldId,
        row.valuePlain, row.valueCipher, row.nonce, row.keyVersion⟩ reveal
    else .ok ""
  return ⟨row.dataType, row.isSecret, row.fieldKey, row.fieldLabel, row.required,
    row.isOverride, origin, shown⟩

/-- Hand a row to the header it belongs to. -/
def appendRow (cryptor : Cryptor aead) (reveal : Bool) (headers : List ResourceHeader)
    (out : List BuiltResourceFields) (row : FieldValueRow) :
    Except ServiceError (List BuiltResourceFields) :=
  match indexByID headers row.tenantResourceId with
  | none => .ok out
  | some i => match out[i]? with
    | none => .ok out
    | some built => (fieldValue cryptor reveal built.header row).map fun shown =>
        out.set i { built with fields := built.fields ++ [shown] }

def buildResourceFieldsBatch (cryptor : Cryptor aead) (headers : List ResourceHeader)
    (reveal : Bool) (c : Catalog) : Except ServiceError (List BuiltResourceFields) :=
  let out := headers.map fun header => ⟨header, []⟩
  if headers = [] then .ok out
  else
    match listResourceFieldValuesByResourceIDs (headers.map fun h => h.resource.id) c with
    | .error err => .error (.store err)
    | .ok rows => rows.foldlM (appendRow cryptor reveal headers) out

section batch

variable {cryptor : Cryptor aead} {reveal : Bool} {headers : List ResourceHeader} {c : Catalog}

theorem foldl_last {α β : Type} {p : α → Prop} [DecidablePred p] {g : α → β} (l : List α)
    (acc : Option β) :
    (∃ x ∈ l, p x ∧ l.foldl (fun acc x => if p x then some (g x) else acc) acc = some (g x)) ∨
      (∀ x ∈ l, ¬p x) ∧ l.foldl (fun acc x => if p x then some (g x) else acc) acc = acc := by
  induction l generalizing acc with
  | nil => simp
  | cons x xs ih =>
    rw [List.foldl_cons]
    rcases ih (if p x then some (g x) else acc) with ⟨y, hy, hpy, hfold⟩ | ⟨hnone, hfold⟩
    · exact .inl ⟨y, .tail _ hy, hpy, hfold⟩
    · by_cases hx : p x
      · exact .inl ⟨x, .head _, hx, by rw [hfold, if_pos hx]⟩
      · refine .inr ⟨?_, by rw [hfold, if_neg hx]⟩
        simpa [hx] using hnone

theorem indexByID_some {id : UUID} {i : Nat} (h : indexByID headers id = some i) :
    ∃ header, headers[i]? = some header ∧ header.resource.id = id := by
  unfold indexByID at h
  rcases foldl_last (p := fun h : ResourceHeader × Nat => h.1.resource.id = id) (g := Prod.snd)
    headers.zipIdx none with ⟨x, hx, hid, hfold⟩ | ⟨-, hfold⟩
  · obtain rfl : x.2 = i := by simpa [hfold] using h
    exact ⟨x.1, by simpa using List.mem_zipIdx_iff_getElem?.mp hx, hid⟩
  · simp [hfold] at h

theorem indexByID_none {id : UUID} (h : indexByID headers id = none) :
    ∀ header ∈ headers, header.resource.id ≠ id := by
  unfold indexByID at h
  rcases foldl_last (p := fun h : ResourceHeader × Nat => h.1.resource.id = id) (g := Prod.snd)
    headers.zipIdx none with ⟨x, -, -, hfold⟩ | ⟨hnone, -⟩
  · simp [hfold] at h
  · intro header hmem
    obtain ⟨i, hi⟩ := List.getElem?_of_mem hmem
    exact hnone (header, i) (List.mem_zipIdx_iff_getElem?.mpr hi)

/-- With one header for each resource, a row goes to the header of its resource. -/
theorem appendRow_eq {fv : ResourceHeader → FieldValueRow → ResourceFieldValue}
    {out : List BuiltResourceFields} {row : FieldValueRow}
    (hids : (headers.map fun h => h.resource.id).Nodup) (hout : out.map (·.header) = headers)
    (hfv : ∀ h ∈ headers, h.resource.id = row.tenantResourceId →
      fieldValue cryptor reveal h row = .ok (fv h row)) :
    appendRow cryptor reveal headers out row = .ok (out.map fun b =>
      if b.header.resource.id = row.tenantResourceId then { b with
        fields := b.fields ++ [fv b.header row] }
      else b) := by
  have hheader : ∀ {i : Nat} {b : BuiltResourceFields},
      out[i]? = some b → headers[i]? = some b.header := by
    intro i b hb
    rw [← hout, List.getElem?_map, hb]
    rfl
  unfold appendRow
  cases hi : indexByID headers row.tenantResourceId with
  | none =>
    have hne : ∀ b ∈ out, b.header.resource.id ≠ row.tenantResourceId := fun b hb =>
      indexByID_none hi _ (hout ▸ List.mem_map_of_mem hb)
    refine congrArg Except.ok ((List.map_id _).symm.trans (List.map_congr_left fun b hb => ?_))
    rw [if_neg (hne b hb)]
    rfl
  | some i =>
    obtain ⟨header, hget, hid⟩ := indexByID_some hi
    have hlen : out.length = headers.length := by rw [← hout, List.length_map]
    have hlt : i < out.length := by
      rw [hlen]
      exact (List.getElem?_eq_some_iff.mp hget).1
    have hb : out[i]? = some out[i] := List.getElem?_eq_getElem hlt
    obtain rfl : out[i].header = header := Option.some.inj ((hheader hb).symm.trans hget)
    simp only [hb, hfv _ (List.mem_of_getElem? hget) hid, Except.map]
    refine congrArg Except.ok (List.ext_getElem? fun j => ?_)
    rw [List.getElem?_map, List.getElem?_set]
    by_cases hij : i = j
    · subst hij
      simp [hid, hlt]
    · cases hj : out[j]? with
      | none => simp [hij]
      | some b =>
        -- another position has another resource, because the identifiers are distinct
        have hne : b.header.resource.id ≠ row.tenantResourceId := by
          intro heq
          apply hij
          have hjlt := (List.getElem?_eq_some_iff.mp (hheader hj)).1
          have hi : i < (headers.map fun h => h.resource.id).length := by simpa [hlen] using hlt
          have hj' : j < (headers.map fun h => h.resource.id).length := by simpa using hjlt
          have h₁ := (List.getElem?_eq_some_iff.mp (hheader hb)).2
          have h₂ := (List.getElem?_eq_some_iff.mp (hheader hj)).2
          have hsame : (headers.map fun h => h.resource.id)[i] = (headers.map fun h =>
              h.resource.id)[j] := by
            simp only [List.getElem_map, h₁, h₂, hid, heq]
          exact hids.getElem_inj_iff.mp hsame
        simp [hij, hne]

/-- The batch hands every header the rows of its resource, in order. -/
theorem foldlM_appendRow {fv : ResourceHeader → FieldValueRow → ResourceFieldValue}
    (hids : (headers.map fun h => h.resource.id).Nodup) {rows : List FieldValueRow}
    (hfv : ∀ h ∈ headers, ∀ row ∈ rows, h.resource.id = row.tenantResourceId →
      fieldValue cryptor reveal h row = .ok (fv h row))
    {out : List BuiltResourceFields} (hout : out.map (·.header) = headers) :
    rows.foldlM (appendRow cryptor reveal headers) out = .ok (out.map fun b => { b with
      fields := b.fields ++
        (rows.filter fun row => b.header.resource.id = row.tenantResourceId).map
          (fv b.header) }) := by
  induction rows generalizing out with
  | nil => simp [pure, Except.pure]
  | cons row rows ih =>
    have hstep := appendRow_eq hids hout fun h hh => hfv h hh row (.head _)
    rw [List.foldlM_cons, hstep]
    change List.foldlM _ _ rows = _
    rw [ih (fun h hh row hrow => hfv h hh row (.tail _ hrow)) ?_, List.map_map]
    · refine congrArg Except.ok (List.map_congr_left fun b _ => ?_)
      by_cases hid : b.header.resource.id = row.tenantResourceId <;> simp [hid]
    · rw [← hout, List.map_map]
      refine List.map_congr_left fun b _ => ?_
      simp only [Function.comp_apply]
      split <;> rfl

/-- One part of a concatenation is what the filter keeps of it. -/
theorem filter_flatMap_eq {α β : Type} {l : List α} {f : α → List β} {p : β → Bool} {a : α}
    (hl : l.Nodup) (ha : a ∈ l) (hself : ∀ b ∈ f a, p b = true)
    (hother : ∀ x ∈ l, x ≠ a → ∀ b ∈ f x, p b = false) : (l.flatMap f).filter p = f a := by
  induction l with
  | nil => simp at ha
  | cons x xs ih =>
    obtain ⟨hx, hxs⟩ := List.nodup_cons.mp hl
    rw [List.flatMap_cons, List.filter_append]
    have htail : x = a → (xs.flatMap f).filter p = [] := by
      rintro rfl
      refine List.filter_eq_nil_iff.mpr fun b hb => ?_
      obtain ⟨y, hy, hby⟩ := List.mem_flatMap.mp hb
      simp [hother y (.tail _ hy) (fun he => hx (he ▸ hy)) b hby]
    by_cases hxa : x = a
    · rw [htail hxa, List.append_nil, hxa]
      exact List.filter_eq_self.mpr hself
    · have hnil : (f x).filter p = [] :=
        List.filter_eq_nil_iff.mpr fun b hb => by simp [hother x (.head _) hxa b hb]
      rw [hnil, List.nil_append]
      exact ih hxs ((List.mem_cons.mp ha).resolve_left (Ne.symm hxa))
        fun y hy => hother y (.tail _ hy)

/-- The rows of a resource in the batch query are those of its fields, in order. -/
def rowsOf (c : Catalog) (r : TenantResource) : List FieldValueRow :=
  (fieldsOf c r.resourceDefinitionId).map (fieldValueRow c r)

/-- What the batch builds, where each of its rows can be presented. -/
theorem buildResourceFieldsBatch_eq {fv : ResourceHeader → FieldValueRow → ResourceFieldValue}
    (hc : Table.Keyed TenantResource.id c.resources)
    (hids : (headers.map fun h => h.resource.id).Nodup)
    (hmem : ∀ h ∈ headers, h.resource ∈ c.resources)
    (hfv : ∀ h ∈ headers, ∀ row ∈ rowsOf c h.resource,
      fieldValue cryptor reveal h row = .ok (fv h row)) :
    buildResourceFieldsBatch cryptor headers reveal c =
      .ok (headers.map fun h => ⟨h, (rowsOf c h.resource).map (fv h)⟩) := by
  unfold buildResourceFieldsBatch
  split
  · simp [*]
  simp only [listResourceFieldValuesByResourceIDs]
  have hrow : ∀ h ∈ headers, ∀ r ∈ c.resources, ∀ row ∈ rowsOf c r,
    h.resource.id = row.tenantResourceId →
      r = h.resource := by
    intro h hh r hr row hrow heq
    obtain ⟨f, -, rfl⟩ := List.mem_map.mp hrow
    exact hc.eq_of_key hr (hmem h hh) heq.symm
  rw [foldlM_appendRow hids ?_ (by simp [Function.comp_def]), List.map_map]
  · refine congrArg Except.ok (List.map_congr_left fun h hh => ?_)
    simp only [Function.comp_apply, List.nil_append, BuiltResourceFields.mk.injEq, true_and]
    congr 1
    -- of the sorted resources only the header's own contributes
    have hsorted : h.resource ∈ (c.resources.filter fun r => r.id ∈ headers.map fun h =>
      h.resource.id).insertionSort
        fun r s => r.id ≤ s.id := by
      rw [List.mem_insertionSort, List.mem_filter, decide_eq_true_eq]
      exact ⟨hmem h hh, List.mem_map_of_mem hh⟩
    have hnodup : ((c.resources.filter fun r => r.id ∈ headers.map fun h =>
      h.resource.id).insertionSort
        fun r s => r.id ≤ s.id).Nodup := by
      rw [(List.perm_insertionSort _ _).nodup_iff]
      exact (List.Nodup.of_map _ hc).filter _
    refine filter_flatMap_eq (f := rowsOf c) hnodup hsorted ?_ ?_
    · intro row hrow'
      obtain ⟨f, -, rfl⟩ := List.mem_map.mp hrow'
      simp [fieldValueRow]
    · intro r hr hne row hrow'
      rw [List.mem_insertionSort, List.mem_filter] at hr
      simpa using fun heq => hne (hrow h hh r hr.1 row hrow' heq)
  · intro h hh row hrow' heq
    obtain ⟨r, hr, hrow'⟩ := List.mem_flatMap.mp hrow'
    rw [List.mem_insertionSort, List.mem_filter] at hr
    obtain rfl := hrow h hh r hr.1 row hrow' heq
    exact hfv h hh row hrow'

variable {header : ResourceHeader} {row : FieldValueRow} {rows : List FieldValueRow}
  {out built : List BuiltResourceFields}

theorem appendRow_headers (h : appendRow cryptor reveal headers out row = .ok built) :
    built.map (·.header) = out.map (·.header) := by
  unfold appendRow at h
  split at h
  · cases h
    rfl
  split at h
  · cases h
    rfl
  next b hb =>
    obtain ⟨v, -, rfl⟩ := map_eq_ok.mp h
    refine List.ext_getElem? fun j => ?_
    rw [List.getElem?_map, List.getElem?_map, List.getElem?_set]
    split
    next hij =>
      subst hij
      obtain ⟨hlt, hb⟩ := List.getElem?_eq_some_iff.mp hb
      simp [hlt, hb]
    · rfl

/-- A row handed to its header was shown. -/
theorem appendRow_shown (hids : (headers.map fun h => h.resource.id).Nodup)
    (hout : out.map (·.header) = headers) (h : appendRow cryptor reveal headers out row = .ok built)
    (hheader : header ∈ headers) (hid : header.resource.id = row.tenantResourceId) :
    ∃ v, fieldValue cryptor reveal header row = .ok v := by
  unfold appendRow at h
  cases hi : indexByID headers row.tenantResourceId with
  | none => exact absurd hid (indexByID_none hi header hheader)
  | some i =>
    obtain ⟨found, hget, hfid⟩ := indexByID_some hi
    obtain rfl : found = header :=
      Table.Keyed.eq_of_key hids (List.mem_of_getElem? hget) hheader (hfid.trans hid.symm)
    rw [← hout, List.getElem?_map, Option.map_eq_some_iff] at hget
    obtain ⟨b, hb, rfl⟩ := hget
    simp only [hi, hb] at h
    obtain ⟨v, hv, -⟩ := map_eq_ok.mp h
    exact ⟨v, hv⟩

theorem foldlM_appendRow_shown (hids : (headers.map fun h => h.resource.id).Nodup)
    (hout : out.map (·.header) = headers)
    (h : rows.foldlM (appendRow cryptor reveal headers) out = .ok built) :
    ∀ header ∈ headers, ∀ row ∈ rows, header.resource.id = row.tenantResourceId →
      ∃ v, fieldValue cryptor reveal header row = .ok v := by
  induction rows generalizing out with
  | nil => simp
  | cons row rows ih =>
    rw [List.foldlM_cons] at h
    obtain ⟨out', hstep, h⟩ := bind_eq_ok.mp h
    intro header hheader x hx hid
    rcases List.mem_cons.mp hx with rfl | hx
    · exact appendRow_shown hids hout hstep hheader hid
    · exact ih ((appendRow_headers hstep).trans hout) h header hheader x hx hid

/-- What a row shows, where it can be decoded. -/
def shownRow (cryptor : Cryptor aead) (reveal : Bool) (header : ResourceHeader)
    (row : FieldValueRow) : ResourceFieldValue :=
  match fieldValue cryptor reveal header row with
  | .ok v => v
  | .error _ => ⟨"", false, "", "", false, false, .ownValue, ""⟩

theorem shownRow_eq {v : ResourceFieldValue} (h : fieldValue cryptor reveal header row = .ok v) :
    fieldValue cryptor reveal header row = .ok (shownRow cryptor reveal header row) := by
  rw [shownRow, h]

/-- A batch that is built could show every row of its resources. -/
theorem buildResourceFieldsBatch_shown (hids : (headers.map fun h => h.resource.id).Nodup)
    (hmem : ∀ h ∈ headers, h.resource ∈ c.resources)
    (h : buildResourceFieldsBatch cryptor headers reveal c = .ok built) :
    ∀ header ∈ headers, ∀ row ∈ rowsOf c header.resource,
      fieldValue cryptor reveal header row = .ok (shownRow cryptor reveal header row) := by
  intro header hheader row hrow
  unfold buildResourceFieldsBatch at h
  rw [if_neg (List.ne_nil_of_mem hheader)] at h
  simp only [listResourceFieldValuesByResourceIDs] at h
  have hrow' : row ∈
    ((c.resources.filter fun r => r.id ∈ headers.map fun h => h.resource.id).insertionSort
      fun r s => r.id ≤ s.id).flatMap (rowsOf c) := by
    refine List.mem_flatMap.mpr ⟨header.resource, ?_, hrow⟩
    rw [List.mem_insertionSort, List.mem_filter, decide_eq_true_eq]
    exact ⟨hmem header hheader, List.mem_map_of_mem hheader⟩
  have hid : header.resource.id = row.tenantResourceId := by
    obtain ⟨f, -, rfl⟩ := List.mem_map.mp hrow
    rfl
  obtain ⟨v, hv⟩ :=
    foldlM_appendRow_shown hids (by simp [Function.comp_def]) h header hheader row hrow' hid
  exact shownRow_eq hv

theorem fieldValue_ok {shown : ResourceFieldValue}
    (h : fieldValue cryptor reveal header row = .ok shown) :
    shown.key = row.fieldKey ∧ shown.isSecret = row.isSecret ∧
      if row.hasValue then presentValue cryptor row.isSecret ⟨UUID.nil,
        row.tenantResourceId, row.resourceFieldId,
        row.valuePlain, row.valueCipher, row.nonce, row.keyVersion⟩ reveal = .ok shown.value
      else shown.value = "" := by
  unfold fieldValue at h
  cases hvalue : row.hasValue with
  | true =>
    simp only [hvalue, if_true] at h ⊢
    obtain ⟨value, hpresent, hpure⟩ := bind_eq_ok.mp h
    cases hpure
    exact ⟨rfl, rfl, hpresent⟩
  | false =>
    rw [hvalue] at h
    cases h
    exact ⟨rfl, rfl, rfl⟩

/-- A batch that succeeds shows under every header the fields of its definition. -/
theorem buildResourceFieldsBatch_fields (hc : Table.Keyed TenantResource.id c.resources)
    (hids : (headers.map fun h => h.resource.id).Nodup)
    (hmem : ∀ h ∈ headers, h.resource ∈ c.resources)
    (h : buildResourceFieldsBatch cryptor headers reveal c = .ok built) :
    ∃ fv : ResourceHeader → FieldValueRow → ResourceFieldValue,
      built = headers.map (fun h => ⟨h, (rowsOf c h.resource).map (fv h)⟩) ∧
      ∀ header ∈ headers, ∀ row ∈ rowsOf c header.resource,
        (fv header row).key = row.fieldKey ∧ (fv header row).isSecret = row.isSecret := by
  have hshown := buildResourceFieldsBatch_shown hids hmem h
  refine ⟨shownRow cryptor reveal,
    Except.ok.inj (h.symm.trans (buildResourceFieldsBatch_eq hc hids hmem hshown)),
    fun header hheader row hrow => ?_⟩
  obtain ⟨hkey, hsecret, -⟩ := fieldValue_ok (hshown header hheader row hrow)
  exact ⟨hkey, hsecret⟩

end batch

end Tenancit.Service
