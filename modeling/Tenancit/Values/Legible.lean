import Tenancit.Values.Effective

/-!
The values of plain fields stay in clear, whatever keys the servers have: every action
keeps the schema, and writes ciphertext to the values of secret fields only.
-/
namespace Tenancit.Values

open Encoding Crypto Store Service Queries Table

variable {Key : Type} {aead : Aead Key} {cryptor : Cryptor aead} {c c' : Catalog} {now : Timestamp}
  {t : Tick} {ts ts' : List Tick}

structure Legible (c : Catalog) : Prop where
  wellFormed : c.WellFormed
  plain : ∀ r ∈ c.resources, ∀ f ∈ c.fields, f.isSecret = false → ∀ v,
    findValue c r.id f.id = some v →
    v.valueCipher = none

namespace Legible

theorem empty : Legible {} where
  wellFormed := .empty
  plain := by simp

/-- A step that writes no value. -/
theorem frame (h : Legible c) (hc' : c'.WellFormed) (hk : Keeps c c') : Legible c' where
  wellFormed := hc'
  plain r' hr' f' hf' hplain v hv := by
    obtain ⟨r, hr, hid, -⟩ := hk.resources r' hr'
    rw [hk.values r' hr', ← hid] at hv
    rcases hk.fields f' hf' with ⟨f, hf, hfid, hsecret⟩ | hfresh
    · rw [← hfid] at hv
      exact h.plain r hr f hf (hsecret.trans hplain) v hv
    · -- no value refers to a field that is new
      obtain ⟨hmem, -, hvf⟩ := findValue_some hv
      obtain ⟨f, hf, hfid⟩ := h.wellFormed.valueField v hmem
      exact absurd (hfid.trans hvf) (hfresh f hf)

theorem maintain (h : Legible c) (m : Maintenance) (ts : List Tick) :
    Legible (m.body.after ts c) := by
  cases hm : m.body ts c with
  | error e => rwa [Program.Tx.after_of_error hm]
  | ok x =>
    obtain ⟨a, ts', c'⟩ := x
    rw [Program.Tx.after_of_ok hm]
    obtain ⟨begun, rest, -, hrun⟩ := Program.Tx.draw_bind_eq_ok.mp hm
    obtain ⟨t, -, hstatement⟩ := Program.Tx.statement_eq_ok.mp hrun
    obtain ⟨c₁, hc₁, heq⟩ := map_eq_ok.mp hstatement
    cases heq
    obtain ⟨hc', hk⟩ := m.keeps h.wellFormed hc₁
    exact h.frame hc' hk

/-- A new resource has no values. -/
theorem create (h : Legible c) {arg : CreateTenantResourceParams} {a : TenantResource}
    (hcreate : createTenantResource now arg t c = .ok (a, c')) : Legible c' := by
  have hc' := h.wellFormed.createTenantResource hcreate
  obtain ⟨-, hnew, -, -, -, rfl⟩ := createTenantResource_ok hcreate
  refine ⟨hc', fun r hr f hf hplain v hv => ?_⟩
  rcases List.mem_append.mp hr with hr | hr
  · exact h.plain r hr f hf hplain v hv
  · obtain ⟨hmem, hvr, -⟩ := findValue_some hv
    obtain ⟨r₀, hr₀, hid⟩ := h.wellFormed.valueResource v hmem
    rw [List.mem_singleton.mp hr] at hvr
    exact absurd (hid.trans hvr) (hnew r₀ hr₀)

theorem storeField (h : Legible c) {resourceId : UUID} {f : ResourceField} {s : String}
    (hf : f ∈ c.fields)
    (hstore : Service.storeField cryptor resourceId f s ts c = .ok ((), ts', c')) :
    Legible c' ∧ SameShape c c' := by
  obtain ⟨p, t, a, -, hfield, hupsert, hold⟩ := storeField_ok hstore
  have hshape := SameShape.upsert hupsert
  have hfind := findValue_upsert hupsert
  refine ⟨⟨h.wellFormed.upsertResourceValue hupsert, ?_⟩, hshape⟩
  intro r' hr' g hg hplain v hv
  obtain ⟨r, hr, hkey⟩ := hshape.back hr'
  simp only [resourceKey, Prod.mk.injEq] at hkey
  rw [hshape.fields] at hg
  rw [hfind] at hv
  split at hv
  next heq =>
    -- the row written is one of the field it was encoded for
    simp only [Prod.mk.injEq] at heq
    obtain rfl : f = g := h.wellFormed.fieldIds.eq_of_key hf hg (hfield.symm.trans heq.2.symm)
    cases hv
    obtain ⟨-, hcipher, -, -⟩ : _ ∧ _ ∧ _ ∧ _ := by simpa [Holds, Columns, hplain] using hold
    exact hcipher
  · rw [← hkey.1] at hv
    exact h.plain r hr g hg hplain v hv

theorem storeFields (h : Legible c) {values : StringMap} {resourceId : UUID}
    {fields : List ResourceField} (hfields : ∀ f ∈ fields, f ∈ c.fields)
    (hstore : Service.storeFields cryptor values resourceId fields ts c = .ok ((), ts', c')) :
    Legible c' := by
  induction fields generalizing ts c with
  | nil =>
    cases Program.Tx.pure_eq_ok.mp hstore
    exact h
  | cons f fs ih =>
    rw [Service.storeFields] at hstore
    cases hv : values.get? f.key with
    | none =>
      simp only [hv] at hstore
      exact ih h (fun g hg => hfields g (.tail _ hg)) hstore
    | some s =>
      simp only [hv] at hstore
      obtain ⟨_, ts₁, c₁, hfirst, hrest⟩ := Program.Tx.bind_eq_ok.mp hstore
      obtain ⟨h₁, hshape⟩ := h.storeField (hfields f (.head _)) hfirst
      exact ih h₁ (fun g hg => hshape.fields ▸ hfields g (.tail _ hg)) hrest

theorem provisionResource (h : Legible c) {in_ : ProvisionResourceInput} {res : TenantResource}
    (hp : Service.provisionResource now cryptor in_ ts c = .ok (res, ts', c')) : Legible c' := by
  obtain ⟨d, provided, arg, t, c₁, ts₁, -, -, -, -, -, -, -, hcreate, hstore⟩ :=
    provisionResource_ok hp
  have h₁ := h.create hcreate
  obtain ⟨-, -, -, -, -, rfl⟩ := createTenantResource_ok hcreate
  exact h₁.storeFields (fun f hf => (mem_fieldsOf.mp hf).1) hstore

theorem updateResourceField (h : Legible c) {in_ : UpdateResourceFieldInput} {f : ResourceField}
    (hu : updateResourceFieldInTx cryptor in_ ts c = .ok (f, ts', c')) : Legible c' := by
  obtain ⟨resource, ts₁, -, hf, -, hstore⟩ := updateResourceFieldInTx_ok hu
  exact (h.storeField (mem_fieldsOf.mp (mem_of_lookup hf)).1 hstore).1

theorem clearResourceFieldOverride (h : Legible c) {in_ : UpdateResourceFieldInput}
    {f : ResourceField} (hclear : clearResourceFieldOverrideInTx in_ ts c = .ok (f, ts', c')) :
    Legible c' := by
  obtain ⟨r, b, -, -, -, -, -, rfl⟩ := clearResourceFieldOverrideInTx_ok hclear
  obtain ⟨t, n, hdelete⟩ : ∃ t n, deleteResourceValue r.id f.id t c =
      .ok (n, { c with values := delete (fun v => valueKey v = (r.id, f.id)) c.values }) :=
    ⟨⟨0, fun _ => 0, fun _ => 0, .plain⟩, _, rfl⟩
  refine ⟨h.wellFormed.deleteResourceValue hdelete, fun r' hr' g hg hplain v hv => ?_⟩
  rw [findValue_deleteResourceValue h.wellFormed.valueKeys hdelete] at hv
  split at hv
  · cases hv
  · exact h.plain r' hr' g hg hplain v hv

/-- An operation that takes place writes each value as its field has it. -/
theorem operate (h : Legible c) {op : Operation} {e : Effect}
    (hop : op.body cryptor ts c = .ok (e, ts', c')) : Legible c' := by
  cases op with
  | provision in_ =>
    obtain ⟨now, ts₁, c₁, hbegin, h₁⟩ := Program.Tx.bind_eq_ok.mp hop
    obtain rfl := beginTx_ok hbegin
    obtain ⟨res, ts₃, c₃, hp, h₃⟩ := Program.Tx.bind_eq_ok.mp h₁
    cases Program.Tx.pure_eq_ok.mp h₃
    exact h.provisionResource (Program.Tx.mapErr_eq_ok.mp hp)
  | duplicate tenantId resourceId resourceAlias =>
    obtain ⟨now, ts₁, c₁, hbegin, h₁⟩ := Program.Tx.bind_eq_ok.mp hop
    obtain rfl := beginTx_ok hbegin
    obtain ⟨res, ts₃, c₃, hd, h₃⟩ := Program.Tx.bind_eq_ok.mp h₁
    cases Program.Tx.pure_eq_ok.mp h₃
    obtain ⟨row, fields, ts₂, -, -, -, hp⟩ :=
      duplicateResourceInTx_ok (Program.Tx.mapErr_eq_ok.mp hd)
    exact h.provisionResource hp
  | updateField in_ =>
    obtain ⟨f, ts₁, c₁, hu, h₁⟩ := Program.Tx.bind_eq_ok.mp hop
    cases Program.Tx.pure_eq_ok.mp h₁
    exact h.updateResourceField (Program.Tx.mapErr_eq_ok.mp hu)
  | clearOverride in_ =>
    obtain ⟨f, ts₁, c₁, hu, h₁⟩ := Program.Tx.bind_eq_ok.mp hop
    cases Program.Tx.pure_eq_ok.mp h₁
    exact h.clearResourceFieldOverride (Program.Tx.mapErr_eq_ok.mp hu)
  | consumerWrite slug resourceAlias fieldKey value =>
    obtain ⟨target, ts₁, c₁, htarget, h₁⟩ := Program.Tx.bind_eq_ok.mp hop
    obtain ⟨f, ts₂, c₂, hu, h₂⟩ := Program.Tx.bind_eq_ok.mp h₁
    cases Program.Tx.pure_eq_ok.mp h₂
    obtain rfl := consumerTarget_ok (Program.Tx.mapErr_eq_ok.mp htarget)
    exact h.updateResourceField (Program.Tx.mapErr_eq_ok.mp (Program.Tx.mapErr_eq_ok.mp hu))

/-- A campaign gives new ciphertext to rows that had some, which are those of secret fields. -/
theorem processRow (h : Legible c) {targetVersion : Int} {row : TenantResourceValue}
    (hrow : Rewrap.processRow cryptor targetVersion row ts c = .ok ((), ts', c')) : Legible c' := by
  obtain ⟨random, e, -, -, -, -, -, rfl⟩ := Rewrap.processRow_ok hrow
  refine ⟨h.wellFormed.updateValues (fun _ => rfl) (fun _ => rfl) fun _ =>
    rfl, fun r hr f hf hplain v hv => ?_⟩
  have hfind : findValue { c with
    values := update (Rewrap.sameRow row) (Rewrap.rewrite targetVersion e) c.values } r.id
      f.id = (findValue c r.id f.id).map fun v => if Rewrap.sameRow row v
        then Rewrap.rewrite targetVersion e v else v :=
    lookup_update (f := Rewrap.rewrite targetVersion e) fun _ => rfl
  rw [hfind, Option.map_eq_some_iff] at hv
  obtain ⟨w, hw, rfl⟩ := hv
  have hnone := h.plain r hr f hf hplain w hw
  split
  next hsame =>
    obtain ⟨-, -, -, hcipher, -, -, hsome, -⟩ := Rewrap.sameRow_iff.mp hsame
    rw [← hcipher, hnone] at hsome
    cases hsome
  · exact hnone

theorem processRows (h : Legible c) {targetVersion : Int} {rows : List TenantResourceValue}
    (hrows : Rewrap.processRows cryptor targetVersion rows ts c = .ok ((), ts', c')) :
    Legible c' := by
  induction rows generalizing ts c with
  | nil =>
    cases Program.Tx.pure_eq_ok.mp hrows
    exact h
  | cons row rows ih =>
    obtain ⟨_, ts₁, c₁, hrow, hrest⟩ := Program.Tx.bind_eq_ok.mp hrows
    exact ih (h.processRow hrow) hrest

theorem processBatch (h : Legible c) (targetVersion : Int) (batchSize : Nat)
    (locked : TenantResourceValue → Bool) (ts : List Tick) :
    Legible ((Rewrap.processBatch cryptor targetVersion batchSize locked).after ts c) := by
  cases hb : Rewrap.processBatch cryptor targetVersion batchSize locked ts c with
  | error e => rwa [Program.Tx.after_of_error hb]
  | ok x =>
    obtain ⟨n, ts', c'⟩ := x
    rw [Program.Tx.after_of_ok hb]
    obtain ⟨t, ts₁, batch, -, -, h₁⟩ := Program.Tx.query_bind_eq_ok.mp hb
    obtain ⟨_, ts₂, c₂, hrows, h₂⟩ := Program.Tx.bind_eq_ok.mp h₁
    cases Program.Tx.pure_eq_ok.mp h₂
    exact h.processRows hrows

theorem step {s s' : Recorded} {x : Action aead × List Tick} (h : Legible s.catalog)
    (hstep : Action.Step s x s') : Legible s'.catalog := by
  obtain ⟨action, ts⟩ := x
  obtain rfl : s' = action.after ts s := hstep
  cases action with
  | operate cryptor op =>
    simp only [Action.after]
    split
    next hop => exact h.operate hop
    · exact h
  | maintain m => exact h.maintain m ts
  | rewrap cryptor batchSize locked => exact h.processBatch _ batchSize locked ts

/-- Every state that actions lead to has the values of plain fields in clear. -/
theorem run {xs : List (Action aead × List Tick)} {s : Recorded}
    (h : Runs.Run Action.Step ⟨{}, Overlay.empty⟩ xs s) : Legible s.catalog :=
  h.invariant (P := fun s => Legible s.catalog) (fun _ _ _ h hstep => h.step hstep) empty

end Legible

end Tenancit.Values
