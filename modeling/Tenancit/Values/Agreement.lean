import Tenancit.Rewrap.Batch
import Tenancit.Store.CatalogInvariant
import Tenancit.Values.Operations

/-!
The relation between the tables and the plain map of values: the links are those of the
resources, a resource has a value row for a field exactly where the map has a text of its
own, and the row holds that text, written by one of the cryptors in use. The statements
that write values keep it along with the plain map's own operations.
-/
namespace Tenancit.Values

open Encoding Crypto Store Service Queries Table

variable {Key : Type} {aead : Aead Key} {cs cs' : List (Cryptor aead)} {cryptor : Cryptor aead}
  {c c' : Catalog} {o o' : PlainValues} {now : Timestamp} {t : Tick} {ts ts' : List Tick}

/-- One of the cryptors wrote the text to the row. -/
def WrittenBy (cs : List (Cryptor aead)) (isSecret : Bool) (s : String) (v : TenantResourceValue) :
    Prop :=
  ∃ w ∈ cs, Holds w isSecret s v

theorem WrittenBy.mono {isSecret : Bool} {s : String} {v : TenantResourceValue}
    (h : WrittenBy cs isSecret s v) (hsub : ∀ w ∈ cs, w ∈ cs') : WrittenBy cs' isSecret s v := by
  obtain ⟨w, hw, hold⟩ := h
  exact ⟨w, hsub w hw, hold⟩

structure Agrees (cs : List (Cryptor aead)) (c : Catalog) (o : PlainValues) : Prop where
  wellFormed : c.WellFormed
  links : ∀ r ∈ c.resources, o.base r.id = r.sourceResourceId
  absent : ∀ r ∈ c.resources, ∀ fid, findValue c r.id fid = none → o.own r.id fid = none
  present : ∀ r ∈ c.resources, ∀ f ∈ c.fields, ∀ v, findValue c r.id f.id = some v →
    ∃ s, o.own r.id f.id = some s ∧ WrittenBy cs f.isSecret s v

namespace Agrees

theorem empty : Agrees cs {} Overlay.empty where
  wellFormed := Catalog.WellFormed.empty
  links := by simp
  absent := by simp
  present := by simp

theorem mono (h : Agrees cs c o) (hsub : ∀ w ∈ cs, w ∈ cs') : Agrees cs' c o where
  wellFormed := h.wellFormed
  links := h.links
  absent := h.absent
  present r hr f hf v hv := by
    obtain ⟨s, hs, hw⟩ := h.present r hr f hf v hv
    exact ⟨s, hs, hw.mono hsub⟩

theorem own_eq_none (h : Agrees cs c o) {r : TenantResource} (hr : r ∈ c.resources) {fid : UUID} :
    o.own r.id fid = none ↔ findValue c r.id fid = none := by
  refine ⟨fun hnone => ?_, h.absent r hr fid⟩
  cases hv : findValue c r.id fid with
  | none => rfl
  | some v =>
    obtain ⟨hmem, -, hfid⟩ := findValue_some hv
    obtain ⟨f, hf, hid⟩ := h.wellFormed.valueField v hmem
    obtain rfl : f.id = fid := hid.trans hfid
    obtain ⟨s, hs, -⟩ := h.present r hr f hf v hv
    rw [hnone] at hs
    cases hs

/-- A row of the source, by the link of the plain map. -/
theorem source_mem (h : Agrees cs c o) {r : TenantResource} (hr : r ∈ c.resources) {b : UUID}
    (hb : o.base r.id = some b) : ∃ s ∈ c.resources, s.id = b ∧ s.tenantId = r.tenantId ∧
      s.resourceDefinitionId = r.resourceDefinitionId ∧ s.sourceResourceId = none :=
  h.wellFormed.resourceSource r hr b ((h.links r hr).symm.trans hb)

/-- A change that keeps the links and the rows of the resources that stay, and the
kinds of the fields that values refer to. -/
theorem frame (h : Agrees cs c o) (hc' : c'.WellFormed)
    (hresources : ∀ r' ∈ c'.resources, ∃ r ∈ c.resources, r.id = r'.id ∧
      r.sourceResourceId = r'.sourceResourceId)
    (hvalues : ∀ r' ∈ c'.resources, ∀ fid, findValue c' r'.id fid = findValue c r'.id fid)
    (hfields : ∀ f' ∈ c'.fields, (∃ f ∈ c.fields, f.id = f'.id ∧ f.isSecret = f'.isSecret) ∨
      ∀ f ∈ c.fields, f.id ≠ f'.id)
    (hmap : ∀ r' ∈ c'.resources, o'.base r'.id = o.base r'.id ∧ o'.own r'.id = o.own r'.id) :
    Agrees cs c' o' where
  wellFormed := hc'
  links r' hr' := by
    obtain ⟨r, hr, hid, hsource⟩ := hresources r' hr'
    rw [(hmap r' hr').1, ← hid, h.links r hr, hsource]
  absent r' hr' fid hnone := by
    obtain ⟨r, hr, hid, -⟩ := hresources r' hr'
    rw [hvalues r' hr', ← hid] at hnone
    rw [(hmap r' hr').2, ← hid]
    exact h.absent r hr fid hnone
  present r' hr' f' hf' v hv := by
    obtain ⟨r, hr, hid, -⟩ := hresources r' hr'
    rw [hvalues r' hr'] at hv
    rw [(hmap r' hr').2]
    rcases hfields f' hf' with ⟨f, hf, hfid, hsecret⟩ | hfresh
    · rw [← hid, ← hfid] at hv
      rw [← hid, ← hfid, ← hsecret]
      exact h.present r hr f hf v hv
    · obtain ⟨hmem, -, hvf⟩ := findValue_some hv
      obtain ⟨f, hf, hfid⟩ := h.wellFormed.valueField v hmem
      exact absurd (hfid.trans hvf) (hfresh f hf)

end Agrees

/-- What the value statements leave of resources: everything but the stamps. -/
def resourceKey (r : TenantResource) : UUID × UUID × UUID × Option UUID :=
  (r.id, r.tenantId, r.resourceDefinitionId, r.sourceResourceId)

/-- The fields, and the keys of the resources, stayed. -/
structure SameShape (c c' : Catalog) : Prop where
  fields : c'.fields = c.fields
  resources : c'.resources.map resourceKey = c.resources.map resourceKey

namespace SameShape

theorem refl (c : Catalog) : SameShape c c := ⟨rfl, rfl⟩

theorem trans {c'' : Catalog} (h : SameShape c c') (h' : SameShape c' c'') : SameShape c c'' :=
  ⟨h'.fields.trans h.fields, h'.resources.trans h.resources⟩

theorem back (h : SameShape c c') {r' : TenantResource} (hr' : r' ∈ c'.resources) :
    ∃ r ∈ c.resources, resourceKey r = resourceKey r' := by
  have hmem : resourceKey r' ∈ c.resources.map resourceKey := h.resources ▸ List.mem_map_of_mem hr'
  simpa using hmem

theorem forth (h : SameShape c c') {r : TenantResource} (hr : r ∈ c.resources) :
    ∃ r' ∈ c'.resources, resourceKey r' = resourceKey r := by
  have hmem : resourceKey r ∈ c'.resources.map resourceKey :=
    h.resources.symm ▸ List.mem_map_of_mem hr
  simpa using hmem

theorem upsert {arg : UpsertResourceValueParams} {a : TenantResourceValue}
    (h : upsertResourceValue arg t c = .ok (a, c')) : SameShape c c' := by
  obtain ⟨-, -, -, -, vs, rfl, -⟩ := upsertResourceValue_ok h
  exact ⟨rfl, map_key_update fun _ => rfl⟩

end SameShape

namespace Agrees

/-- An upsert of an encoded text is a write to the plain map. -/
theorem upsert (h : Agrees cs c o) {arg : UpsertResourceValueParams} {a : TenantResourceValue}
    {f : ResourceField} {s : String} (hf : f ∈ c.fields) (hfield : arg.resourceFieldId = f.id)
    (hupsert : upsertResourceValue arg t c = .ok (a, c')) (hcryptor : cryptor ∈ cs)
    (ha : Holds cryptor f.isSecret s a) : Agrees cs c' (o.write arg.tenantResourceId f.id s) := by
  have hshape := SameShape.upsert hupsert
  have hfind := findValue_upsert hupsert
  rw [hfield] at hfind
  refine ⟨h.wellFormed.upsertResourceValue hupsert, ?_, ?_, ?_⟩
  · intro r' hr'
    obtain ⟨r, hr, hkey⟩ := hshape.back hr'
    simp only [resourceKey, Prod.mk.injEq] at hkey
    rw [Overlay.base_write, ← hkey.1, h.links r hr, hkey.2.2.2]
  · intro r' hr' fid hnone
    obtain ⟨r, hr, hkey⟩ := hshape.back hr'
    simp only [resourceKey, Prod.mk.injEq] at hkey
    rw [hfind] at hnone
    split at hnone
    · cases hnone
    next hne =>
      rw [Overlay.own_write_of_ne (by simpa using hne), ← hkey.1]
      exact h.absent r hr fid (hkey.1 ▸ hnone)
  · intro r' hr' g hg v hv
    obtain ⟨r, hr, hkey⟩ := hshape.back hr'
    simp only [resourceKey, Prod.mk.injEq] at hkey
    rw [hshape.fields] at hg
    rw [hfind] at hv
    split at hv
    next heq =>
      simp only [Prod.mk.injEq] at heq
      obtain rfl := h.wellFormed.fieldIds.eq_of_key hg hf heq.2
      cases hv
      exact ⟨s, by simp [heq.1], cryptor, hcryptor, ha⟩
    next hne =>
      rw [Overlay.own_write_of_ne (by simpa using hne), ← hkey.1]
      exact h.present r hr g hg v (hkey.1 ▸ hv)

theorem storeField (h : Agrees cs c o) {resourceId : UUID} {f : ResourceField} {s : String}
    (hf : f ∈ c.fields)
    (hstore : Service.storeField cryptor resourceId f s ts c = .ok ((), ts', c'))
    (hcryptor : cryptor ∈ cs) : Agrees cs c' (o.write resourceId f.id s) ∧ SameShape c c' := by
  obtain ⟨p, t, a, rfl, hfield, hupsert, ha⟩ := storeField_ok hstore
  exact ⟨h.upsert hf hfield hupsert hcryptor ha, SameShape.upsert hupsert⟩

/-- The values stored for the fields of a new resource are written to the plain map in turn. -/
theorem storeFields (h : Agrees cs c o) {values : StringMap} {resourceId : UUID}
    {fields : List ResourceField} (hfields : ∀ f ∈ fields, f ∈ c.fields)
    (hstore : Service.storeFields cryptor values resourceId fields ts c = .ok ((), ts', c'))
    (hcryptor : cryptor ∈ cs) :
    Agrees cs c' (o.writeAll resourceId (given values fields)) ∧ SameShape c c' := by
  induction fields generalizing ts c o with
  | nil =>
    cases Program.Tx.pure_eq_ok.mp hstore
    exact ⟨h, SameShape.refl _⟩
  | cons f fs ih =>
    rw [Service.storeFields] at hstore
    cases hv : values.get? f.key with
    | none =>
      simp only [hv] at hstore
      have hgiven : given values (f :: fs) = given values fs := by simp [given, hv]
      rw [hgiven]
      exact ih h (fun g hg => hfields g (.tail _ hg)) hstore
    | some s =>
      simp only [hv] at hstore
      obtain ⟨_, ts₁, c₁, hfirst, hrest⟩ := Program.Tx.bind_eq_ok.mp hstore
      obtain ⟨h₁, hshape₁⟩ := h.storeField (hfields f (.head _)) hfirst hcryptor
      obtain ⟨h₂, hshape₂⟩ := ih h₁ (fun g hg => hshape₁.fields ▸ hfields g (.tail _ hg)) hrest
      have hgiven : given values (f :: fs) = (f.id, s) :: given values fs := by simp [given, hv]
      rw [hgiven]
      exact ⟨h₂, hshape₁.trans hshape₂⟩

/-- A resource created is a new object of the plain map. -/
theorem create (h : Agrees cs c o) {arg : CreateTenantResourceParams} {a : TenantResource}
    (hcreate : createTenantResource now arg t c = .ok (a, c')) :
    Agrees cs c' (o.link a.id arg.sourceResourceId) := by
  have hc' := h.wellFormed.createTenantResource hcreate
  obtain ⟨-, hnew, -, -, ha, rfl⟩ := createTenantResource_ok hcreate
  have hsource : a.sourceResourceId = arg.sourceResourceId := by rw [ha]
  -- no row refers to an identifier that is new
  have hnone : ∀ fid, findValue { c with resources := c.resources ++ [a] } a.id fid = none := by
    intro fid
    refine lookup_eq_none.mpr fun v hv hkey => ?_
    obtain ⟨r, hr, hid⟩ := h.wellFormed.valueResource v hv
    simp only [valueKey, Prod.mk.injEq] at hkey
    exact hnew r hr (hid.trans hkey.1)
  refine ⟨hc', ?_, ?_, ?_⟩
  · intro r hr
    rcases List.mem_append.mp hr with hr | hr
    · rw [Overlay.base_link_of_ne (hnew r hr)]
      exact h.links r hr
    · rw [List.mem_singleton.mp hr, Overlay.base_link_self, hsource]
  · intro r hr fid hv
    rcases List.mem_append.mp hr with hr | hr
    · rw [Overlay.own_link_of_ne (hnew r hr)]
      exact h.absent r hr fid hv
    · rw [List.mem_singleton.mp hr, Overlay.own_link_self]
  · intro r hr f hf v hv
    rcases List.mem_append.mp hr with hr | hr
    · rw [Overlay.own_link_of_ne (hnew r hr)]
      exact h.present r hr f hf v hv
    · rw [List.mem_singleton.mp hr, hnone] at hv
      cases hv

/-- A value deleted is cleared in the plain map. -/
theorem deleteValue (h : Agrees cs c o) {resourceId fieldId : UUID} {n : Nat}
    (hdelete : deleteResourceValue resourceId fieldId t c = .ok (n, c')) :
    Agrees cs c' (o.clear resourceId fieldId) := by
  have hc' := h.wellFormed.deleteResourceValue hdelete
  have hfind := findValue_deleteResourceValue h.wellFormed.valueKeys hdelete
  obtain rfl := deleteResourceValue_ok hdelete
  refine ⟨hc', h.links, ?_, ?_⟩
  · intro r hr fid hnone
    by_cases heq : r.id = resourceId ∧ fid = fieldId
    · obtain ⟨rfl, rfl⟩ := heq
      exact Overlay.own_clear_self
    · rw [hfind, if_neg (by simpa using heq)] at hnone
      rw [Overlay.own_clear_of_ne heq]
      exact h.absent r hr fid hnone
  · intro r hr f hf v hv
    rw [hfind] at hv
    split at hv
    · cases hv
    next hne =>
      rw [Overlay.own_clear_of_ne (by simpa using hne)]
      exact h.present r hr f hf v hv

/-- A row that a campaign makes anew holds the same text, under the key of the campaign. -/
theorem rewrapped {isSecret : Bool} {s : String} {v : TenantResourceValue} {random : Nat → UInt8}
    {e : Encrypted} (hv : WrittenBy cs isSecret s v) (hcipher : v.valueCipher.isSome)
    (he : Rewrap.rewrapRow cryptor random v = .ok e) (hagree : ∀ w ∈ cs, w.Agree cryptor) :
    Holds cryptor isSecret s (Rewrap.rewrite cryptor.current e v) := by
  obtain ⟨plaintext, hplain, rfl⟩ := Rewrap.rewrapRow_ok he
  obtain ⟨w, hw, hold⟩ := hv
  cases isSecret with
  | false =>
    obtain ⟨-, hnone, -, -⟩ : _ ∧ _ ∧ _ ∧ _ := by simpa [Holds, Columns] using hold
    simp [hnone] at hcipher
  | true =>
    obtain ⟨hnull, random', hc', hn', hk'⟩ := by simpa only [Holds, Columns, if_true] using hold
    have hstored : Rewrap.encryptedOf v = w.encrypt random' s := by
      simp only [Rewrap.encryptedOf, hc', hn', hk', Option.getD_some, Option.map_some,
        Cryptor.toInt_ofInt_current]
      rfl
    rw [hstored] at hplain
    obtain rfl := (hagree w hw).decryptBytes hplain
    exact ⟨hnull, random, rfl, rfl, rfl⟩

/-- New forms for some rows, each of which a campaign made from a row that holds a text. -/
theorem replaceRows (h : Agrees cs c o) (hcryptor : cryptor ∈ cs)
    (hagree : ∀ w ∈ cs, w.Agree cryptor) {p : TenantResourceValue → Bool} {e : Encrypted}
    (hp : ∀ v ∈ c.values, p v = true → v.valueCipher.isSome ∧ ∃ random,
      Rewrap.rewrapRow cryptor random v = .ok e) :
    Agrees cs { c with values := update p (Rewrap.rewrite cryptor.current e) c.values } o := by
  have hfind : ∀ rid fid, lookup valueKey (rid, fid)
    (update p (Rewrap.rewrite cryptor.current e) c.values) =
      (findValue c rid fid).map fun v => if p v then Rewrap.rewrite cryptor.current e v
        else v := fun rid fid =>
    lookup_update (f := Rewrap.rewrite cryptor.current e) fun _ => rfl
  refine ⟨h.wellFormed.updateValues (fun _ => rfl) (fun _ => rfl) fun _ => rfl, h.links, ?_, ?_⟩
  · intro r hr fid hnone
    rw [findValue, hfind, Option.map_eq_none_iff] at hnone
    exact h.absent r hr fid hnone
  · intro r hr f hf v' hv'
    rw [findValue, hfind, Option.map_eq_some_iff] at hv'
    obtain ⟨v, hv, rfl⟩ := hv'
    obtain ⟨s, hs, hwritten⟩ := h.present r hr f hf v hv
    refine ⟨s, hs, ?_⟩
    split
    next hsame =>
      obtain ⟨hcipher, random, he⟩ := hp v (findValue_some hv).1 hsame
      exact ⟨cryptor, hcryptor, rewrapped hwritten hcipher he hagree⟩
    · exact hwritten

theorem processRow (h : Agrees cs c o) {row : TenantResourceValue}
    (hrow : Rewrap.processRow cryptor cryptor.current row ts c = .ok ((), ts', c'))
    (hcryptor : cryptor ∈ cs) (hkeep : ∀ w ∈ cs, w.Keeps cryptor) : Agrees cs c' o := by
  obtain ⟨random, e, _, he, -, -, -, rfl⟩ := Rewrap.processRow_ok hrow
  refine h.replaceRows hcryptor (fun w hw => (hkeep w hw).agree) fun v _ hsame => ?_
  obtain ⟨-, henc, -, hcipher, -, -, hsome, -⟩ := Rewrap.sameRow_iff.mp hsame
  exact ⟨hcipher ▸ hsome, random, (Rewrap.rewrapRow_congr henc) ▸ he⟩

theorem processRows (h : Agrees cs c o) {rows : List TenantResourceValue}
    (hrows : Rewrap.processRows cryptor cryptor.current rows ts c = .ok ((), ts', c'))
    (hcryptor : cryptor ∈ cs) (hkeep : ∀ w ∈ cs, w.Keeps cryptor) : Agrees cs c' o := by
  induction rows generalizing ts c with
  | nil =>
    cases Program.Tx.pure_eq_ok.mp hrows
    exact h
  | cons row rows ih =>
    obtain ⟨_, ts₁, c₁, hrow, hrest⟩ := Program.Tx.bind_eq_ok.mp hrows
    exact ih (h.processRow hrow hcryptor hkeep) hrest

end Agrees

end Tenancit.Values
