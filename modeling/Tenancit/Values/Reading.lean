import Tenancit.Values.Agreement

/-!
What the batch read shows when the tables agree with the plain map: for each field of a
resource its effective text. A row of the batch takes each column from the resource's own
value or else from its source's; values of one field agree on which columns are null, so the
columns of two values never mix.
-/
namespace Tenancit.Values

open Encoding Crypto Store Service Queries Table

variable {Key : Type} {aead : Aead Key} {cs : List (Cryptor aead)} {reader : Cryptor aead}
  {c : Catalog} {o : PlainValues}

/-- What the plain map shows for a field of a resource. -/
def shownField (o : PlainValues) (header : ResourceHeader) (f : ResourceField) :
    ResourceFieldValue :=
  let isOverride := (o.own header.resource.id f.id).isSome
  ⟨f.dataType, f.isSecret, f.key, f.label, f.required, isOverride,
    if isOverride || header.resource.sourceResourceId.isNone then .ownValue else .inherited,
    plainText o header.resource.id f.id⟩

/-- A text and a row that holds it, or neither. -/
def RowFor (cs : List (Cryptor aead)) (isSecret : Bool) :
    Option String → Option TenantResourceValue → Prop
  | none, none => True
  | some s, some v => WrittenBy cs isSecret s v
  | _, _ => False

/-- Columns coalesced with those of another value of the same field are the columns themselves. -/
theorem Columns.or {w w' : Cryptor aead} {isSecret : Bool} {s s' : String}
    {v v' : TenantResourceValue} (h : Holds w isSecret s v) (h' : Holds w' isSecret s' v') :
    Columns w isSecret s (v.valuePlain.or v'.valuePlain)
    (v.valueCipher.or v'.valueCipher) (v.nonce.or v'.nonce)
      (v.keyVersion.or v'.keyVersion) := by
  cases isSecret with
  | false =>
    obtain ⟨hp, hc, hn, hk⟩ : _ ∧ _ ∧ _ ∧ _ := by simpa [Holds, Columns] using h
    obtain ⟨-, hc', hn', hk'⟩ : _ ∧ _ ∧ _ ∧ _ := by simpa [Holds, Columns] using h'
    simp [Columns, hp, hc, hn, hk, hc', hn', hk']
  | true =>
    obtain ⟨hp, random, hc, hn, hk⟩ := by simpa only [Holds, Columns, if_true] using h
    obtain ⟨hp', -⟩ := by simpa only [Holds, Columns, if_true] using h'
    rw [hp, hp', hc, hn, hk]
    exact ⟨rfl, random, rfl, rfl, rfl⟩

/-- The value a row of the batch is decoded from. -/
def mergedValue (row : FieldValueRow) : TenantResourceValue :=
  ⟨UUID.nil, row.tenantResourceId, row.resourceFieldId, row.valuePlain, row.valueCipher,
   row.nonce, row.keyVersion⟩

theorem fieldValue_eq_ok {header : ResourceHeader} {row : FieldValueRow} {s : String}
    (h : if row.hasValue then decodeValue reader (mergedValue row) = .ok s else s = "") :
    fieldValue reader true header row =
      .ok ⟨row.dataType, row.isSecret, row.fieldKey, row.fieldLabel, row.required, row.isOverride,
      if row.isOverride || header.resource.sourceResourceId.isNone then .ownValue
        else .inherited, s⟩ := by
  have hpresent : (if row.hasValue then presentValue reader row.isSecret (mergedValue row) true
    else .ok "") =
      Except.ok s := by
    split at h
    · simp [*, presentValue]
    · simp [*]
  unfold fieldValue
  simp only [mergedValue] at hpresent
  cases hv : row.hasValue with
  | false =>
    rw [hv] at hpresent
    cases hpresent
    rfl
  | true =>
    simp only [hv, if_true] at hpresent ⊢
    rw [hpresent]
    rfl

namespace Agrees

theorem rowFor (h : Agrees cs c o) {r : TenantResource} (hr : r ∈ c.resources) {f : ResourceField}
    (hf : f ∈ c.fields) : RowFor cs f.isSecret (o.own r.id f.id) (findValue c r.id f.id) := by
  cases hv : findValue c r.id f.id with
  | none =>
    rw [h.absent r hr f.id hv]
    trivial
  | some v =>
    obtain ⟨s, hs, hw⟩ := h.present r hr f hf v hv
    rw [hs]
    exact hw

theorem sourceRowFor (h : Agrees cs c o) {r : TenantResource} (hr : r ∈ c.resources)
    {f : ResourceField} (hf : f ∈ c.fields) :
    RowFor cs f.isSecret ((o.base r.id).bind fun b => o.own b f.id)
      (r.sourceResourceId.bind fun b => findValue c b f.id) := by
  rw [← h.links r hr]
  cases hb : o.base r.id with
  | none => trivial
  | some b =>
    obtain ⟨source, hsource, rfl, -⟩ := h.source_mem hr hb
    exact h.rowFor hsource hf

/-- A row of the batch has a value exactly where there is an effective text, and then its
columns hold that text. -/
theorem row_columns (h : Agrees cs c o) {r : TenantResource} (hr : r ∈ c.resources)
    {f : ResourceField} (hf : f ∈ c.fields) :
    (o.effective r.id f.id = none ∧ (fieldValueRow c r f).hasValue = false) ∨
      ∃ s, o.effective r.id f.id = some s ∧ (fieldValueRow c r f).hasValue = true ∧
        WrittenBy cs f.isSecret s (mergedValue (fieldValueRow c r f)) := by
  have hown := h.rowFor hr hf
  have hsource := h.sourceRowFor hr hf
  cases hv : findValue c r.id f.id with
  | none =>
    cases hs : o.own r.id f.id with
    | some s => simp [hv, hs, RowFor] at hown
    | none =>
      cases hv' : r.sourceResourceId.bind fun b => findValue c b f.id with
      | none =>
        cases hs' : (o.base r.id).bind fun b => o.own b f.id with
        | some s' => simp [hv', hs', RowFor] at hsource
        | none =>
          exact .inl ⟨by simp [Overlay.effective, hs, hs'], by simp [fieldValueRow, hv, hv']⟩
      | some v' =>
        cases hs' : (o.base r.id).bind fun b => o.own b f.id with
        | none => simp [hv', hs', RowFor] at hsource
        | some s' =>
          rw [hv', hs'] at hsource
          refine .inr ⟨s', by simp [Overlay.effective, hs, hs'], by simp [fieldValueRow, hv'], ?_⟩
          obtain ⟨w, hw, hold⟩ := hsource
          exact ⟨w, hw, by simpa [Holds, mergedValue, fieldValueRow, hv, hv'] using hold⟩
  | some v =>
    cases hs : o.own r.id f.id with
    | none => simp [hv, hs, RowFor] at hown
    | some s =>
      rw [hv, hs] at hown
      obtain ⟨w, hw, hold⟩ := hown
      refine .inr ⟨s, Overlay.effective_of_own hs, by simp [fieldValueRow, hv], w, hw, ?_⟩
      cases hv' : r.sourceResourceId.bind fun b => findValue c b f.id with
      | none => simpa [Holds, mergedValue, fieldValueRow, hv, hv'] using hold
      | some v' =>
        cases hs' : (o.base r.id).bind fun b => o.own b f.id with
        | none => simp [hv', hs', RowFor] at hsource
        | some s' =>
          rw [hv', hs'] at hsource
          obtain ⟨w', -, hold'⟩ := hsource
          simpa [Holds, mergedValue, fieldValueRow, hv, hv'] using Columns.or hold hold'

/-- A row of the batch shows the effective text. -/
theorem fieldValue_eq (h : Agrees cs c o) (hkeep : ∀ w ∈ cs, w.Keeps reader)
    {header : ResourceHeader} (hr : header.resource ∈ c.resources) {f : ResourceField}
    (hf : f ∈ c.fields) :
    fieldValue reader true header (fieldValueRow c header.resource f) =
      .ok (shownField o header f) := by
  have hown : (o.own header.resource.id f.id).isSome =
      (findValue c header.resource.id f.id).isSome := by
    rw [Bool.eq_iff_iff, ← not_iff_not]
    simpa using h.own_eq_none hr
  rw [fieldValue_eq_ok (s := plainText o header.resource.id f.id)]
  · simp only [shownField, hown]
    rfl
  rcases h.row_columns hr hf with ⟨hnone, hvalue⟩ | ⟨s, hs, hvalue, w, hw, hold⟩
  · simp [hvalue, plainText, hnone]
  · rw [if_pos hvalue, plainText, hs, Option.getD_some]
    exact decodeValue_holds hold (hkeep w hw)

/-- What the batch builds, for any headers of different resources. -/
theorem buildResourceFieldsBatch_eq (h : Agrees cs c o) (hkeep : ∀ w ∈ cs, w.Keeps reader)
    {headers : List ResourceHeader} (hids : (headers.map fun x => x.resource.id).Nodup)
    (hmem : ∀ x ∈ headers, x.resource ∈ c.resources) :
    buildResourceFieldsBatch reader headers true c = .ok (headers.map fun header =>
      ⟨header, (fieldsOf c header.resource.resourceDefinitionId).map (shownField o header)⟩) := by
  -- a row tells its field only by the columns it carries
  let shown (header : ResourceHeader) (row : FieldValueRow) : ResourceFieldValue :=
    shownField o header ⟨row.resourceFieldId, header.resource.resourceDefinitionId,
      row.fieldKey, row.fieldLabel,
      "", row.dataType, row.required, row.isSecret, 0⟩
  have hshown : ∀ header ∈ headers, ∀ row ∈ rowsOf c header.resource,
      fieldValue reader true header row = .ok (shown header row) := by
    intro header hheader row hrow
    obtain ⟨f, hf, rfl⟩ := List.mem_map.mp hrow
    exact h.fieldValue_eq hkeep (hmem header hheader) (mem_fieldsOf.mp hf).1
  rw [Service.buildResourceFieldsBatch_eq h.wellFormed.resourceIds hids hmem hshown]
  refine congrArg Except.ok (List.map_congr_left fun header _ => ?_)
  simp only [rowsOf, List.map_map]
  rfl

end Agrees

section snapshot

theorem fieldsOf_ids_nodup (hc : c.WellFormed) (definitionId : UUID) :
    ((fieldsOf c definitionId).map ResourceField.id).Nodup := by
  unfold fieldsOf
  rw [((List.perm_insertionSort _ _).map _).nodup_iff]
  exact hc.fieldIds.sublist ((List.filter_sublist).map _)

theorem fieldsOf_keys_nodup (hc : c.WellFormed) (definitionId : UUID) :
    ((fieldsOf c definitionId).map ResourceField.key).Nodup := by
  refine List.Nodup.map_on ?_ (List.Nodup.of_map _ (fieldsOf_ids_nodup hc definitionId))
  intro f hf g hg hkey
  obtain ⟨hf, hfd⟩ := mem_fieldsOf.mp hf
  obtain ⟨hg, hgd⟩ := mem_fieldsOf.mp hg
  exact hc.fieldKeys.eq_of_key hf hg (Prod.ext (hfd.trans hgd.symm) hkey)

/-- Of fields with different keys the snapshot has those with a value that is not empty. -/
theorem get?_snapshotValues {fields : List ResourceFieldValue} (hkeys : (fields.map (·.key)).Nodup)
    {f : ResourceFieldValue} (hf : f ∈ fields) :
    (snapshotValues fields).get? f.key = if f.value ≠ "" then some f.value else none := by
  have hother : ∀ (fs : List ResourceFieldValue) (m : StringMap), (∀ g ∈ fs, g.key ≠ f.key) →
      (fs.foldl (fun m g => if g.value ≠ "" then m.set g.key g.value else m) m).get? f.key =
        m.get? f.key := by
    intro fs
    induction fs with
    | nil => simp
    | cons g gs ih =>
      intro m hne
      rw [List.foldl_cons, ih _ fun x hx => hne x (.tail _ hx)]
      split
      · rw [StringMap.get?_set, if_neg (hne g (.head _))]
      · rfl
  have hgeneral : ∀ (fs : List ResourceFieldValue) (m : StringMap),
    (fs.map (·.key)).Nodup → f ∈ fs →
      m.get? f.key = none →
      (fs.foldl (fun m g => if g.value ≠ "" then m.set g.key g.value else m) m).get? f.key =
        if f.value ≠ "" then some f.value else none := by
    intro fs
    induction fs with
    | nil => simp
    | cons g gs ih =>
      intro m hnodup hmem hm
      obtain ⟨hg, hgs⟩ := List.nodup_cons.mp hnodup
      rw [List.foldl_cons]
      rcases List.mem_cons.mp hmem with rfl | hmem
      · rw [hother gs _ fun x hx he => hg (List.mem_map.mpr ⟨x, hx, he⟩)]
        split
        · rw [StringMap.get?_set, if_pos rfl]
        · exact hm
      · have hne : g.key ≠ f.key := fun he => hg (List.mem_map.mpr ⟨f, hmem, he.symm⟩)
        refine ih _ hgs hmem ?_
        split
        · rw [StringMap.get?_set, if_neg hne, hm]
        · exact hm
  exact hgeneral fields [] hkeys hf rfl

/-- The snapshot a duplicate takes is the effective texts, under the header's own resource. -/
theorem Agrees.snapshotFields_eq (h : Agrees cs c o) (hkeep : ∀ w ∈ cs, w.Keeps reader)
    {row : ResourceHeaderRow} (hr : row.resource ∈ c.resources) : snapshotFields reader row c =
      .ok ((fieldsOf c row.resource.resourceDefinitionId).map
        (shownField o (resourceHeaderFromRow row))) := by
  unfold snapshotFields
  rw [h.buildResourceFieldsBatch_eq hkeep (by simp) (by simpa [resourceHeaderFromRow] using hr)]
  simp [Except.map, resourceHeaderFromRow]

theorem given_snapshot (hc : c.WellFormed) (header : ResourceHeader) (definitionId : UUID) :
    given (snapshotValues ((fieldsOf c definitionId).map (shownField o header)))
    (fieldsOf c definitionId) =
      copied o header.resource.id (fieldsOf c definitionId) := by
  refine List.filterMap_congr fun f hf => ?_
  have hkeys : (((fieldsOf c definitionId).map (shownField o header)).map (·.key)).Nodup := by
    simpa [List.map_map, Function.comp_def, shownField] using fieldsOf_keys_nodup hc definitionId
  have hget := get?_snapshotValues hkeys (List.mem_map_of_mem (f := shownField o header) hf)
  simp only [shownField] at hget
  rw [hget]
  by_cases hs : plainText o header.resource.id f.id = "" <;> simp [hs]

end snapshot

end Tenancit.Values
