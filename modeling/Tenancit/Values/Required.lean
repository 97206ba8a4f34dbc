import Tenancit.Values.Effective

/-!
Required fields along runs of the operations on values. A resource's effective value of a
required field is never empty, as long as no resource is created with a link to a source and
an explicit empty text for a required field: the check of a provisioning takes the value of
the source for the field as given, and then stores the empty text over it.
-/
namespace Tenancit.Values

open Encoding Crypto Store Service Queries Table

variable {Key : Type} {aead : Aead Key} {cs : List (Cryptor aead)} {cryptor reader : Cryptor aead}
  {c c' : Catalog} {o : PlainValues} {ts ts' : List Tick}

/-- The effective value of a field: the resource's own, else its source's. -/
def effectiveText (reader : Cryptor aead) (c : Catalog) (r : TenantResource) (f : ResourceField) :
    Except ServiceError String :=
  match (findValue c r.id f.id).or (r.sourceResourceId.bind fun source =>
    findValue c source f.id) with
  | none => .ok ""
  | some v => decodeValue reader v

/-- Every required field of every resource has an effective value that is not empty. -/
def RequiredFilled (reader : Cryptor aead) (c : Catalog) : Prop :=
  ∀ r ∈ c.resources, ∀ f ∈ fieldsOf c r.resourceDefinitionId, f.required = true →
    ∃ s, effectiveText reader c r f = .ok s ∧ s ≠ ""

/-- An operation performed by a process with a cryptor. -/
structure Performed {Key : Type} (aead : Aead Key) where
  cryptor : Cryptor aead
  op : Operation
  ticks : List Tick

def Performed.after (x : Performed aead) (c : Catalog) : Catalog :=
  (x.op.body x.cryptor).after x.ticks c

def Performed.Step (c : Catalog) (x : Performed aead) (c' : Catalog) : Prop := c' = x.after c

/-- The operation links a new resource to a source and gives the empty text for a required
field that the source has a value for. -/
def BlanksRequired (c : Catalog) : Operation → Prop
  | .provision in_ => ∃ source, in_.sourceResourceId = some source ∧
      ∃ d, getDefinitionByKey in_.definitionKey c = .ok d ∧ ∃ f ∈
        fieldsOf c d.id, f.required = true ∧
        in_.values.get? f.key = some "" ∧ ∃ v ∈ valuesOf c source, v.resourceFieldId = f.id
  | _ => False

/-- No operation that takes place blanks a required field. -/
def Performed.Fills (c : Catalog) (x : Performed aead) : Prop :=
  ∀ e, x.op.body x.cryptor x.ticks c = .ok e → ¬BlanksRequired c x.op

/-- The plain map has a text that is not empty for every required field. -/
def Filled (c : Catalog) (o : PlainValues) : Prop :=
  ∀ r ∈ c.resources, ∀ f ∈ fieldsOf c r.resourceDefinitionId, f.required = true →
    ∃ s, o.effective r.id f.id = some s ∧ s ≠ ""

theorem Agrees.effectiveText_eq (h : Agrees cs c o) (hkeep : ∀ w ∈ cs, w.Keeps reader)
    {r : TenantResource} (hr : r ∈ c.resources) {f : ResourceField} (hf : f ∈ c.fields) :
    effectiveText reader c r f = .ok (plainText o r.id f.id) := by
  have hdecode : ∀ s v, WrittenBy cs f.isSecret s v → decodeValue reader v = .ok s := by
    rintro s v ⟨w, hw, hold⟩
    exact decodeValue_holds hold (hkeep w hw)
  have hown := h.rowFor hr hf
  have hsource := h.sourceRowFor hr hf
  unfold effectiveText plainText Overlay.effective
  cases hv : findValue c r.id f.id with
  | some v =>
    cases hs : o.own r.id f.id with
    | none => simp [hv, hs, RowFor] at hown
    | some s =>
      rw [hv, hs] at hown
      simpa using hdecode s v hown
  | none =>
    rw [h.absent r hr _ hv, Option.none_or, Option.none_or]
    cases hv' : r.sourceResourceId.bind fun source => findValue c source f.id with
    | none =>
      cases hs' : (o.base r.id).bind fun b => o.own b f.id with
      | none => rfl
      | some s => simp [hv', hs', RowFor] at hsource
    | some v =>
      cases hs' : (o.base r.id).bind fun b => o.own b f.id with
      | none => simp [hv', hs', RowFor] at hsource
      | some s =>
        rw [hv', hs'] at hsource
        exact hdecode s v hsource

theorem Filled.required (hfilled : Filled c o) (h : Agrees cs c o)
    (hkeep : ∀ w ∈ cs, w.Keeps reader) : RequiredFilled reader c := by
  intro r hr f hf hreq
  obtain ⟨s, hs, hne⟩ := hfilled r hr f hf hreq
  refine ⟨s, ?_, hne⟩
  rw [h.effectiveText_eq hkeep hr (mem_fieldsOf.mp hf).1, plainText, hs, Option.getD_some]

theorem fieldsOf_congr (h : c'.fields = c.fields) (definitionId : UUID) :
    fieldsOf c' definitionId = fieldsOf c definitionId := by
  unfold fieldsOf
  rw [h]

namespace Filled

/-- A write that leaves no required field empty. -/
theorem write (hfilled : Filled c o) (hc : c.WellFormed) {resourceId : UUID} {f : ResourceField}
    {s : String} (hf : f ∈ c.fields) (hshape : SameShape c c') (hs : f.required = true → s ≠ "") :
    Filled c' (o.write resourceId f.id s) := by
  intro r' hr' g hg hreq
  obtain ⟨r, hr, hkey⟩ := hshape.back hr'
  simp only [resourceKey, Prod.mk.injEq] at hkey
  rw [fieldsOf_congr hshape.fields, ← hkey.2.2.1] at hg
  obtain ⟨a, ha, hne⟩ := hfilled r hr g hg hreq
  rw [← hkey.1]
  rcases Overlay.effective_write ha s with h | ⟨hid, h⟩
  · exact ⟨a, h, hne⟩
  · obtain rfl := hc.fieldIds.eq_of_key (mem_fieldsOf.mp hg).1 hf hid
    exact ⟨s, h, hs hreq⟩

/-- A clear that leaves the value of the source to be inherited. -/
theorem clear (hfilled : Filled c o) (h : Agrees cs c o) {r : TenantResource} (hr : r ∈ c.resources)
    {b : UUID} (hb : r.sourceResourceId = some b) {f : ResourceField} (hf : f ∈ c.fields)
    (hreq : f.required = true → ∃ v, findValue c b f.id = some v) (hshape : SameShape c c') :
    Filled c' (o.clear r.id f.id) := by
  intro x' hx' g hg hrequired
  obtain ⟨x, hx, hkey⟩ := hshape.back hx'
  simp only [resourceKey, Prod.mk.injEq] at hkey
  rw [fieldsOf_congr hshape.fields, ← hkey.2.2.1] at hg
  rw [← hkey.1]
  obtain ⟨hgmem, hgdef⟩ := mem_fieldsOf.mp hg
  -- the source of a resource is not linked itself, so its values are not those cleared
  have hroot : ∀ y ∈ c.resources, ∀ z, o.base y.id = some z → ∃ s ∈ c.resources, s.id = z ∧
      s.resourceDefinitionId = y.resourceDefinitionId ∧ o.base s.id = none ∧ s.id ≠ r.id := by
    intro y hy z hz
    obtain ⟨s, hs, hid, -, hdef, hnone⟩ := h.source_mem hy hz
    refine ⟨s, hs, hid, hdef, (h.links s hs).trans hnone, fun he => ?_⟩
    obtain rfl := h.wellFormed.resourceIds.eq_of_key hs hr he
    rw [hnone] at hb
    cases hb
  by_cases heq : x.id = r.id ∧ g.id = f.id
  · obtain rfl := h.wellFormed.resourceIds.eq_of_key hx hr heq.1
    obtain rfl := h.wellFormed.fieldIds.eq_of_key hgmem hf heq.2
    obtain ⟨s, hs, hid, hdef, hsroot, hne⟩ := hroot x hx b ((h.links x hx).trans hb)
    obtain ⟨a, ha, hne'⟩ :=
      hfilled s hs g (mem_fieldsOf.mpr ⟨hgmem, hgdef.trans hdef.symm⟩) hrequired
    rw [Overlay.effective_of_root hsroot] at ha
    refine ⟨a, ?_, hne'⟩
    have hown : (o.clear x.id g.id).own s.id g.id = some a := by
      rw [Overlay.own_clear_of_ne fun he => hne he.1, ha]
    simp [Overlay.effective, h.links x hx, hb, ← hid, hown]
  · obtain ⟨a, ha, hne⟩ := hfilled x hx g hg hrequired
    refine ⟨a, ?_, hne⟩
    unfold Overlay.effective at ha ⊢
    rw [Overlay.own_clear_of_ne heq, Overlay.base_clear]
    cases hbase : o.base x.id with
    | none => simpa [hbase] using ha
    | some z =>
      obtain ⟨s, -, rfl, -, -, hne⟩ := hroot x hx z hbase
      rw [hbase] at ha
      simpa only [Option.bind_some, Overlay.own_clear_of_ne (fun he : s.id = r.id ∧
        g.id = f.id => hne he.1)] using ha

/-- A resource created with the required values given, or left to a source that has them. -/
theorem provision_new (hfilled : Filled c o) (h : Agrees cs c o) {in_ : ProvisionResourceInput}
    {res : TenantResource} (hp : Provisioned c c' in_ res)
    (hblank : ¬BlanksRequired c (.provision in_)) {f : ResourceField}
    (hf : f ∈ fieldsOf c res.resourceDefinitionId) (hreq : f.required = true) :
    ∃ s, ((o.link res.id in_.sourceResourceId).writeAll res.id
      (given in_.values (fieldsOf c res.resourceDefinitionId))).effective res.id f.id = some s ∧
      s ≠ "" := by
  obtain ⟨provided, hcheck, hnone, hsome⟩ := hp.checked
  have hids :=
    given_keys_nodup in_.values (fieldsOf_ids_nodup h.wellFormed res.resourceDefinitionId)
  -- a field that is not given a text is one the source has a row for
  have hsource : (∃ s, in_.values.get? f.key = some s ∧ s ≠ "") ∨ ∃ source,
    in_.sourceResourceId = some source ∧
      ∃ v ∈ valuesOf c source, v.resourceFieldId = f.id := by
    rcases checkProvided_ok hcheck f hf hreq with hgiven | hprovided
    · exact .inl hgiven
    · cases hs : in_.sourceResourceId with
      | none => simp [hnone hs] at hprovided
      | some source =>
        rw [hsome source hs] at hprovided
        exact .inr ⟨source, rfl, List.mem_map.mp hprovided⟩
  cases hv : in_.values.get? f.key with
  | some s =>
    refine ⟨s, Overlay.effective_of_own
      (Overlay.own_writeAll_mem hids (mem_given.mpr ⟨f, hf, rfl, hv⟩)), ?_⟩
    rintro rfl
    rcases hsource with ⟨s, hs, hne⟩ | ⟨source, hsource, hrow⟩
    · rw [hv] at hs
      exact hne (Option.some.inj hs).symm
    · obtain ⟨d, hd, hdid⟩ := hp.definition
      exact hblank ⟨source, hsource, d, hd, f, hdid ▸ hf, hreq, hv, hrow⟩
  | none =>
    obtain ⟨source, hsource, -⟩ : ∃ source, in_.sourceResourceId = some source ∧ _ := by
      simpa [hv] using hsource
    obtain ⟨s, hs, rfl, hsdef, hsroot⟩ := hp.linked source hsource
    obtain ⟨a, ha, hne⟩ := hfilled s hs f (hsdef ▸ hf) hreq
    rw [Overlay.effective_of_root ((h.links s hs).trans hsroot)] at ha
    have hnotgiven : ∀ e ∈ given in_.values (fieldsOf c res.resourceDefinitionId), e.1 ≠ f.id := by
      rintro ⟨id, t⟩ he rfl
      obtain ⟨g, hg, hgid, hget⟩ := mem_given.mp he
      obtain rfl :=
        h.wellFormed.fieldIds.eq_of_key (mem_fieldsOf.mp hg).1 (mem_fieldsOf.mp hf).1 hgid
      rw [hv] at hget
      cases hget
    have hne' : s.id ≠ res.id := hp.fresh s hs
    refine ⟨a, ?_, hne⟩
    unfold Overlay.effective
    rw [Overlay.own_writeAll_of_ne fun _ => hnotgiven, Overlay.base_writeAll,
      Overlay.base_link_self,
      Overlay.own_link_self, Option.none_or, hsource, Option.bind_some,
      Overlay.own_writeAll_of_ne fun he => absurd he hne', Overlay.own_link_of_ne hne', ha]

theorem provision (hfilled : Filled c o) (h : Agrees cs c o) {in_ : ProvisionResourceInput}
    {res : TenantResource} (hp : Provisioned c c' in_ res)
    (hblank : ¬BlanksRequired c (.provision in_)) :
    Filled c' ((o.link res.id in_.sourceResourceId).writeAll res.id
      (given in_.values (fieldsOf c res.resourceDefinitionId))) := by
  intro r' hr' f hf hreq
  have hback : resourceKey r' ∈ (c.resources ++ [res]).map resourceKey :=
    hp.resources ▸ List.mem_map_of_mem hr'
  obtain ⟨r, hr, hkey⟩ := List.mem_map.mp hback
  simp only [resourceKey, Prod.mk.injEq] at hkey
  rw [fieldsOf_congr hp.fields, ← hkey.2.2.1] at hf
  rw [← hkey.1]
  rcases List.mem_append.mp hr with hr | hr
  · obtain ⟨a, ha, hne⟩ := hfilled r hr f hf hreq
    refine ⟨a, ?_, hne⟩
    rw [Overlay.effective_link_writeAll (hp.fresh r hr), ha]
    intro hbase
    obtain ⟨s, hs, hid, -⟩ := h.source_mem hr hbase
    exact hp.fresh s hs hid
  · obtain rfl := List.mem_singleton.mp hr
    exact hfilled.provision_new h hp hblank hf hreq

end Filled

/-- One operation keeps required fields filled, unless it blanks one. -/
theorem Performed.filled (h : Agrees cs c o) (hfilled : Filled c o) {x : Performed aead}
    (hx : x.Fills c) :
    ∃ o', Agrees (cs ++ [x.cryptor]) (x.after c) o' ∧ Filled (x.after c) o' := by
  obtain ⟨cryptor, op, ticks⟩ := x
  have h' : Agrees (cs ++ [cryptor]) c o := h.mono fun w hw => List.mem_append_left _ hw
  have hmem : cryptor ∈ cs ++ [cryptor] := by simp
  cases hop : op.body cryptor ticks c with
  | error e =>
    rw [Performed.after, Program.Tx.after_of_error hop]
    exact ⟨o, h', hfilled⟩
  | ok r =>
    obtain ⟨e, ts', c'⟩ := r
    have hblank := hx _ hop
    rw [Performed.after, Program.Tx.after_of_ok hop]
    cases op with
    | provision in_ =>
      obtain ⟨now, ts₁, c₁, hbegin, h₁⟩ := Program.Tx.bind_eq_ok.mp hop
      obtain rfl := beginTx_ok hbegin
      obtain ⟨res, ts₃, c₃, hp, h₃⟩ := Program.Tx.bind_eq_ok.mp h₁
      cases Program.Tx.pure_eq_ok.mp h₃
      obtain ⟨hprovisioned, hagrees⟩ := h'.provisionResource hmem (Program.Tx.mapErr_eq_ok.mp hp)
      exact ⟨_, hagrees, hfilled.provision h hprovisioned hblank⟩
    | duplicate tenantId resourceId resourceAlias =>
      obtain ⟨now, ts₁, c₁, hbegin, h₁⟩ := Program.Tx.bind_eq_ok.mp hop
      obtain rfl := beginTx_ok hbegin
      obtain ⟨res, ts₃, c₃, hd, h₃⟩ := Program.Tx.bind_eq_ok.mp h₁
      cases Program.Tx.pure_eq_ok.mp h₃
      obtain ⟨row, fields, ts₄, -, -, -, hp⟩ :=
        duplicateResourceInTx_ok (Program.Tx.mapErr_eq_ok.mp hd)
      obtain ⟨hprovisioned, hagrees⟩ := h'.provisionResource hmem hp
      -- a duplicate has no source
      refine ⟨_, hagrees, hfilled.provision h hprovisioned ?_⟩
      rintro ⟨source, hsource, -⟩
      cases hsource
    | updateField in_ =>
      obtain ⟨f, ts₁, c₁, hu, h₁⟩ := Program.Tx.bind_eq_ok.mp hop
      cases Program.Tx.pure_eq_ok.mp h₁
      obtain ⟨hagrees, hshape, hf, hreq⟩ :=
        h'.updateResourceField hmem (Program.Tx.mapErr_eq_ok.mp hu)
      exact ⟨_, hagrees, hfilled.write h.wellFormed hf hshape hreq⟩
    | clearOverride in_ =>
      obtain ⟨f, ts₁, c₁, hu, h₁⟩ := Program.Tx.bind_eq_ok.mp hop
      cases Program.Tx.pure_eq_ok.mp h₁
      obtain ⟨hagrees, hshape, hf, r, hr, hid, b, hb, hreq⟩ :=
        h'.clearResourceFieldOverride (Program.Tx.mapErr_eq_ok.mp hu)
      exact ⟨_, hagrees, hid ▸ hfilled.clear h hr hb hf hreq hshape⟩
    | consumerWrite slug resourceAlias fieldKey value =>
      obtain ⟨target, ts₁, c₁, htarget, h₁⟩ := Program.Tx.bind_eq_ok.mp hop
      obtain ⟨f, ts₂, c₂, hu, h₂⟩ := Program.Tx.bind_eq_ok.mp h₁
      cases Program.Tx.pure_eq_ok.mp h₂
      obtain rfl := consumerTarget_ok (Program.Tx.mapErr_eq_ok.mp htarget)
      have hu := Program.Tx.mapErr_eq_ok.mp (Program.Tx.mapErr_eq_ok.mp hu)
      obtain ⟨hagrees, hshape, hf, hreq⟩ := h'.updateResourceField hmem hu
      exact ⟨_, hagrees, hfilled.write h.wellFormed hf hshape hreq⟩

/-- An operation that takes place and blanks a required field leaves it empty. -/
theorem Performed.blank (h : Agrees cs c o) {x : Performed aead}
    (hkeep : ∀ w ∈ cs ++ [x.cryptor], w.Keeps reader) (hx : ¬x.Fills c) :
    ¬RequiredFilled reader (x.after c) := by
  obtain ⟨cryptor, op, ticks⟩ := x
  simp only [Performed.Fills, not_forall, not_not] at hx
  obtain ⟨⟨e, ts', c'⟩, hop, hblank⟩ := hx
  rw [Performed.after, Program.Tx.after_of_ok hop]
  cases op with
  | provision in_ =>
    obtain ⟨source, -, d, hd, f, hf, hreq, hempty, -⟩ := hblank
    obtain ⟨now, ts₁, c₁, hbegin, h₁⟩ := Program.Tx.bind_eq_ok.mp hop
    obtain rfl := beginTx_ok hbegin
    obtain ⟨res, ts₃, c₃, hp, h₃⟩ := Program.Tx.bind_eq_ok.mp h₁
    cases Program.Tx.pure_eq_ok.mp h₃
    have h' : Agrees (cs ++ [cryptor]) _ o := h.mono fun w hw => List.mem_append_left _ hw
    obtain ⟨hprovisioned, hagrees⟩ := h'.provisionResource (by simp) (Program.Tx.mapErr_eq_ok.mp hp)
    obtain ⟨d', hd', hdid⟩ := hprovisioned.definition
    obtain rfl : d' = d := by
      rw [hd] at hd'
      exact (Except.ok.inj hd').symm
    rw [hdid] at hf
    have hmem : resourceKey res ∈ c'.resources.map resourceKey := by simp [hprovisioned.resources]
    obtain ⟨r, hr, hkey⟩ := List.mem_map.mp hmem
    simp only [resourceKey, Prod.mk.injEq] at hkey
    have hf' : f ∈ fieldsOf c' r.resourceDefinitionId := by
      rw [fieldsOf_congr hprovisioned.fields, hkey.2.2.1]
      exact hf
    intro hfilled
    obtain ⟨s, hs, hne⟩ := hfilled r hr f hf' hreq
    have hids :=
      given_keys_nodup in_.values (fieldsOf_ids_nodup h.wellFormed res.resourceDefinitionId)
    rw [hagrees.effectiveText_eq hkeep hr (mem_fieldsOf.mp hf').1, hkey.1, plainText,
      Overlay.effective_of_own
      (Overlay.own_writeAll_mem hids (mem_given.mpr ⟨f, hf, rfl, hempty⟩)), Option.getD_some] at hs
    exact hne (Except.ok.inj hs).symm
  | duplicate tenantId resourceId resourceAlias => exact hblank.elim
  | updateField in_ => exact hblank.elim
  | clearOverride in_ => exact hblank.elim
  | consumerWrite slug resourceAlias fieldKey value => exact hblank.elim

theorem Performed.run_filled {xs : List (Performed aead)}
    (hrun : Runs.Run (Runs.Guarded Performed.Fills Performed.Step) c xs c') (h : Agrees cs c o)
    (hfilled : Filled c o) : ∃ o', Agrees (cs ++ xs.map (·.cryptor)) c' o' ∧ Filled c' o' := by
  induction hrun generalizing cs o with
  | nil c => exact ⟨o, by simpa using h, hfilled⟩
  | @cons c m c' x xs hstep _ ih =>
    obtain ⟨hx, rfl⟩ := hstep
    obtain ⟨o₁, h₁, hfilled₁⟩ := x.filled h hfilled hx
    simpa using ih h₁ hfilled₁

/-- A run all of whose states have required fields filled is one without blanking operations. -/
theorem Performed.run_guarded {xs : List (Performed aead)} (hrun : Runs.Run Performed.Step c xs c')
    (h : Agrees cs c o) (hfilled : Filled c o)
    (hkeep : ∀ w ∈ cs ++ xs.map (·.cryptor), w.Keeps reader)
    (hall : ∀ ys zs m, xs = ys ++ zs → Runs.Run Performed.Step c ys m → RequiredFilled reader m) :
    Runs.Run (Runs.Guarded Performed.Fills Performed.Step) c xs c' := by
  induction hrun generalizing cs o with
  | nil c => exact .nil c
  | @cons c m c' x xs hstep hrest ih =>
    have hx : x.Fills c := by
      by_contra hx
      refine x.blank h (fun w hw => hkeep w ?_) hx (hall [x] xs _ rfl (.cons rfl (.nil _)))
      rcases List.mem_append.mp hw with hw | hw
      · exact List.mem_append_left _ hw
      · exact List.mem_append_right _ (List.mem_singleton.mp hw ▸ .head _)
    obtain ⟨o₁, h₁, hfilled₁⟩ := x.filled h hfilled hx
    obtain rfl : m = x.after c := hstep
    refine .cons ⟨hx, rfl⟩ (ih h₁ hfilled₁ (by simpa using hkeep) fun ys zs m hxs hrun => ?_)
    exact hall (x :: ys) zs m (by rw [hxs, List.cons_append]) (.cons rfl hrun)

/-- From a catalogue without resources, every state of a run has the required fields filled
exactly when no operation that takes place blanks one; an operation that fails changes nothing. -/
theorem required_filled_iff {xs : List (Performed aead)} (hwf : c.WellFormed)
    (hnone : c.resources = []) (hrun : Runs.Run Performed.Step c xs c')
    (hreader : ∀ x ∈ xs, x.cryptor.Keeps reader) :
    ((∀ ys zs m, xs = ys ++ zs → Runs.Run Performed.Step c ys m → RequiredFilled reader m) ↔
      Runs.Run (Runs.Guarded Performed.Fills Performed.Step) c xs c') ∧
    ∀ (x : Performed aead) m e, x.op.body x.cryptor x.ticks m = .error e → x.after m = m := by
  have h : Agrees ([] : List (Cryptor aead)) c Overlay.empty := by
    constructor <;> simp [hnone, hwf]
  have hfilled : Filled c Overlay.empty := by simp [Filled, hnone]
  have hkeep : ∀ w ∈ [] ++ xs.map (·.cryptor), w.Keeps reader := by simpa using hreader
  refine ⟨⟨fun hall => Performed.run_guarded hrun h hfilled hkeep hall, ?_⟩,
    fun x m e he => Program.Tx.after_of_error he⟩
  rintro hguarded ys zs m rfl hprefix
  obtain ⟨u, hys, -⟩ := Runs.run_append_iff.mp hguarded
  obtain rfl := hprefix.functional (fun _ _ _ _ h h' => h.trans h'.symm) hys.of_guarded
  obtain ⟨o, hagrees, hfilled'⟩ := Performed.run_filled hys h hfilled
  exact hfilled'.required hagrees fun w hw => hkeep w (by simpa using .inl (by simpa using hw))

section sample

/-- A tenant and a definition with one required field. -/
def sampleCatalog : Catalog where
  tenants := [⟨1, "acme", "Acme", .active, 0, 0⟩]
  definitions := [⟨2, "db", "DB", "", "", .active, 0, 0⟩]
  fields := [⟨3, 2, "url", "URL", "", "string", true, false, 0⟩]

theorem sampleCatalog_wellFormed : sampleCatalog.WellFormed := by
  constructor <;> simp [sampleCatalog, Keyed]

def sampleCryptor : Cryptor Aead.tagged := .single Aead.tagged 7

/-- A resource, and one linked to it that is given some values. -/
def sampleLinked (values : StringMap) : List (Performed Aead.tagged) :=
  [⟨sampleCryptor, .provision ⟨"", "main", "db", none, 1, [("url", "a")]⟩, ticksFrom 0 9⟩,
   ⟨sampleCryptor, .provision ⟨"", "copy", "db", some 3001, 1, values⟩, ticksFrom 10 9⟩]

def sampleLinkedAfter (values : StringMap) : Catalog :=
  (sampleLinked values).foldl (fun c x => x.after c) sampleCatalog

/-- A link with an explicit empty text leaves a required field empty. -/
theorem linked_blank_empties_required : sampleCatalog.WellFormed ∧ sampleCatalog.resources = [] ∧
    ∃ c, Runs.Run Performed.Step sampleCatalog (sampleLinked [("url", "")]) c ∧
      ¬RequiredFilled sampleCryptor c := by
  refine ⟨sampleCatalog_wellFormed, rfl, sampleLinkedAfter [("url", "")],
    Runs.run_foldl Performed.after _ _, fun hfilled => ?_⟩
  have hempty : ∃ r ∈ (sampleLinkedAfter [("url", "")]).resources,
      ∃ f ∈ fieldsOf (sampleLinkedAfter [("url", "")]) r.resourceDefinitionId, f.required = true ∧
        (effectiveText sampleCryptor (sampleLinkedAfter [("url", "")]) r f).toOption = some "" := by
    decide +kernel
  obtain ⟨r, hr, f, hf, hreq, htext⟩ := hempty
  obtain ⟨s, hs, hne⟩ := hfilled r hr f hf hreq
  rw [hs] at htext
  exact hne (Option.some.inj htext)

/-- A link without values inherits the required field, and after the run it is filled. -/
theorem required_filled_sample :
    RequiredFilled sampleCryptor ((sampleLinked []).foldl (fun c x =>
      x.after c) sampleCatalog) := by
  have hreader : ∀ x ∈ sampleLinked [], x.cryptor.Keeps sampleCryptor := by
    simp [sampleLinked, Cryptor.keeps_refl]
  have hrun := Runs.run_foldl Performed.after sampleCatalog (sampleLinked [])
  refine (required_filled_iff sampleCatalog_wellFormed rfl hrun hreader).1.mpr ?_ _ [] _
    (List.append_nil _).symm hrun
  refine .cons ⟨fun e _ => ?_, rfl⟩ (.cons ⟨fun e _ => ?_, rfl⟩ (.nil _))
  · rintro ⟨source, hsource, -⟩
    cases hsource
  · rintro ⟨source, -, d, -, f, -, -, hget, -⟩
    cases hget

end sample

end Tenancit.Values
