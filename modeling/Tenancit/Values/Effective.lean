import Tenancit.Values.Maintenance
import Tenancit.Values.Reading

/-!
Runs of the operations on values, of maintenance and of rewrap batches, next to the plain
map they mean. In every state the batch read reveals exactly the plain map, and every value
row has the columns of its kind of field.
-/
namespace Tenancit.Values

open Encoding Crypto Store Service Queries Table

variable {Key : Type} {aead : Aead Key} {cs : List (Cryptor aead)} {cryptor reader : Cryptor aead}
  {c c' : Catalog} {o : PlainValues} {ts ts' : List Tick}

/-- A resource created by a provisioning, and the checks it passed. -/
structure Provisioned (c c' : Catalog) (in_ : ProvisionResourceInput) (res : TenantResource) :
    Prop where
  definition : ∃ d, getDefinitionByKey in_.definitionKey c = .ok d ∧ d.id = res.resourceDefinitionId
  checked : ∃ provided,
    checkProvided in_.values provided (fieldsOf c res.resourceDefinitionId) = .ok () ∧
    (in_.sourceResourceId = none → provided = []) ∧
    ∀ id, in_.sourceResourceId = some id → provided = (valuesOf c id).map (·.resourceFieldId)
  source : res.sourceResourceId = in_.sourceResourceId
  linked : ∀ id, in_.sourceResourceId = some id → ∃ s ∈ c.resources, s.id = id ∧
    s.resourceDefinitionId = res.resourceDefinitionId ∧ s.sourceResourceId = none
  fresh : ∀ r ∈ c.resources, r.id ≠ res.id
  fields : c'.fields = c.fields
  resources : c'.resources.map resourceKey = (c.resources ++ [res]).map resourceKey

namespace Agrees

theorem provisionResource (h : Agrees cs c o) {now : Timestamp} {in_ : ProvisionResourceInput}
    {res : TenantResource} (hcryptor : cryptor ∈ cs)
    (hp : Service.provisionResource now cryptor in_ ts c = .ok (res, ts', c')) :
    Provisioned c c' in_ res ∧ Agrees cs c' ((o.link res.id in_.sourceResourceId).writeAll res.id
      (given in_.values (fieldsOf c res.resourceDefinitionId))) := by
  obtain ⟨d, provided, arg, t, c₁, ts₁, hd, hcheck, hnone, hsome, -, hdef,
      hsource, hcreate, hstore⟩ :=
    provisionResource_ok hp
  have h₁ := h.create hcreate
  obtain ⟨hvalid, hfresh, -, -, ha, rfl⟩ := createTenantResource_ok hcreate
  have hresdef : res.resourceDefinitionId = d.id := by rw [ha, ← hdef]
  have hressource : res.sourceResourceId = in_.sourceResourceId := by rw [ha, ← hsource]
  have hlinked : ∀ id, in_.sourceResourceId = some id → ∃ s ∈ c.resources, s.id = id ∧
      s.resourceDefinitionId = res.resourceDefinitionId ∧ s.sourceResourceId = none := by
    intro id hid
    rw [hsource, hid] at hvalid
    obtain ⟨s, hs, -, hsdef, hsroot⟩ := hvalid
    exact ⟨s, mem_of_lookup hs, key_of_lookup hs, by rw [hsdef, hdef, hresdef], hsroot⟩
  obtain ⟨h₂, hshape⟩ := h₁.storeFields (fun f hf => (mem_fieldsOf.mp hf).1) hstore hcryptor
  rw [hsource] at h₂
  rw [hresdef]
  exact ⟨⟨⟨d, hd, hresdef.symm⟩, ⟨provided, hresdef ▸ hcheck, hnone, hsome⟩,
    hressource, hlinked, hfresh,
    hshape.fields, hshape.resources⟩, h₂⟩

/-- A field updated gets the value, which a required field never gets empty. -/
theorem updateResourceField (h : Agrees cs c o) {in_ : UpdateResourceFieldInput} {f : ResourceField}
    (hcryptor : cryptor ∈ cs) (hu : updateResourceFieldInTx cryptor in_ ts c = .ok (f, ts', c')) :
    Agrees cs c' (o.write in_.resourceId f.id in_.value) ∧ SameShape c c' ∧ f ∈ c.fields ∧
      (f.required = true → in_.value ≠ "") := by
  obtain ⟨resource, ts₁, hresource, hf, hreq, hstore⟩ := updateResourceFieldInTx_ok hu
  have hmem := (mem_fieldsOf.mp (mem_of_lookup hf)).1
  obtain ⟨h', hshape⟩ := h.storeField hmem hstore hcryptor
  rw [(findResource_some hresource).2.1] at h'
  exact ⟨h', hshape, hmem, hreq⟩

/-- A field cleared has a row in the source, if it is required. -/
theorem clearResourceFieldOverride (h : Agrees cs c o) {in_ : UpdateResourceFieldInput}
    {f : ResourceField} (hclear : clearResourceFieldOverrideInTx in_ ts c = .ok (f, ts', c')) :
    Agrees cs c' (o.clear in_.resourceId f.id) ∧ SameShape c c' ∧ f ∈ c.fields ∧
      ∃ r ∈ c.resources, r.id = in_.resourceId ∧ ∃ b, r.sourceResourceId = some b ∧
        (f.required = true → ∃ v, findValue c b f.id = some v) := by
  obtain ⟨r, b, hr, hb, hf, hreq, -, rfl⟩ := clearResourceFieldOverrideInTx_ok hclear
  obtain ⟨hmem, hid, -⟩ := findResource_some hr
  obtain ⟨t, n, hdelete⟩ : ∃ t n, deleteResourceValue r.id f.id t c =
      .ok (n, { c with values := delete (fun v => valueKey v = (r.id, f.id)) c.values }) :=
    ⟨⟨0, fun _ => 0, fun _ => 0, .plain⟩, _, rfl⟩
  have h' := h.deleteValue hdelete
  refine ⟨hid ▸ h', ⟨rfl, rfl⟩, (mem_fieldsOf.mp (mem_of_lookup hf)).1, r, hmem, hid, b,
    hb, fun hrequired => ?_⟩
  obtain ⟨v, hv, hvf⟩ := hreq hrequired
  obtain ⟨hv, hvr⟩ := mem_valuesOf.mp hv
  exact ⟨v, (lookup_eq_some h.wellFormed.valueKeys).mpr ⟨hv, by simp [valueKey, hvr, hvf]⟩⟩

/-- A duplicate is provisioned with the effective texts of the original. -/
theorem duplicateResource (h : Agrees cs c o) {now : Timestamp} {tenantId resourceId : UUID}
    {resourceAlias : String}
    {res : TenantResource} (hcryptor : cryptor ∈ cs) (hkeep : ∀ w ∈ cs, w.Keeps cryptor)
    (hd : duplicateResourceInTx now cryptor tenantId resourceId resourceAlias ts c =
      .ok (res, ts', c')) :
    Agrees cs c' ((o.link res.id none).writeAll res.id
      (copied o resourceId (fieldsOf c res.resourceDefinitionId))) := by
  obtain ⟨row, fields, ts₁, hrow, -, hsnapshot, hp⟩ := duplicateResourceInTx_ok hd
  obtain ⟨hprovisioned, h'⟩ := h.provisionResource hcryptor hp
  obtain ⟨r, hr, hheader⟩ := Option.bind_eq_some_iff.mp (one_eq_ok.mp hrow)
  obtain ⟨d, hd', rfl⟩ := Option.map_eq_some_iff.mp hheader
  obtain ⟨hr, hid⟩ := (lookup_eq_some h.wellFormed.resourceIds).mp hr
  obtain ⟨hdmem, hdid⟩ := (lookup_eq_some h.wellFormed.definitionIds).mp hd'
  -- the definition found by the key of the header is the one the original has
  obtain ⟨d', hbykey, hresdef⟩ := hprovisioned.definition
  obtain ⟨hdmem', hdkey⟩ := (lookup_eq_some h.wellFormed.definitionKeys).mp (one_eq_ok.mp hbykey)
  obtain rfl := h.wellFormed.definitionKeys.eq_of_key hdmem' hdmem hdkey
  have hsame : res.resourceDefinitionId = r.resourceDefinitionId := hresdef.symm.trans hdid
  rw [h.snapshotFields_eq hkeep hr] at hsnapshot
  cases hsnapshot
  rw [hsame] at h' ⊢
  rw [given_snapshot h.wellFormed] at h'
  simpa only [resourceHeaderFromRow, hid] using h'

/-- An operation that takes place does to the tables what it means for the plain map. -/
theorem operate (h : Agrees cs c o) (hcryptor : cryptor ∈ cs) (hkeep : ∀ w ∈ cs, w.Keeps cryptor)
    {op : Operation} {e : Effect} (hop : op.body cryptor ts c = .ok (e, ts', c')) :
    Agrees cs c' (op.record c o e) := by
  cases op with
  | provision in_ =>
    obtain ⟨now, ts₁, c₁, hbegin, h₁⟩ := Program.Tx.bind_eq_ok.mp hop
    obtain rfl := beginTx_ok hbegin
    obtain ⟨res, ts₃, c₃, hp, h₃⟩ := Program.Tx.bind_eq_ok.mp h₁
    cases Program.Tx.pure_eq_ok.mp h₃
    exact (h.provisionResource hcryptor (Program.Tx.mapErr_eq_ok.mp hp)).2
  | duplicate tenantId resourceId resourceAlias =>
    obtain ⟨now, ts₁, c₁, hbegin, h₁⟩ := Program.Tx.bind_eq_ok.mp hop
    obtain rfl := beginTx_ok hbegin
    obtain ⟨res, ts₃, c₃, hd, h₃⟩ := Program.Tx.bind_eq_ok.mp h₁
    cases Program.Tx.pure_eq_ok.mp h₃
    exact h.duplicateResource hcryptor hkeep (Program.Tx.mapErr_eq_ok.mp hd)
  | updateField in_ =>
    obtain ⟨f, ts₁, c₁, hu, h₁⟩ := Program.Tx.bind_eq_ok.mp hop
    cases Program.Tx.pure_eq_ok.mp h₁
    exact (h.updateResourceField hcryptor (Program.Tx.mapErr_eq_ok.mp hu)).1
  | clearOverride in_ =>
    obtain ⟨f, ts₁, c₁, hu, h₁⟩ := Program.Tx.bind_eq_ok.mp hop
    cases Program.Tx.pure_eq_ok.mp h₁
    exact (h.clearResourceFieldOverride (Program.Tx.mapErr_eq_ok.mp hu)).1
  | consumerWrite slug resourceAlias fieldKey value =>
    obtain ⟨target, ts₁, c₁, htarget, h₁⟩ := Program.Tx.bind_eq_ok.mp hop
    obtain ⟨f, ts₂, c₂, hu, h₂⟩ := Program.Tx.bind_eq_ok.mp h₁
    cases Program.Tx.pure_eq_ok.mp h₂
    obtain rfl := consumerTarget_ok (Program.Tx.mapErr_eq_ok.mp htarget)
    have hu := Program.Tx.mapErr_eq_ok.mp (Program.Tx.mapErr_eq_ok.mp hu)
    exact (h.updateResourceField hcryptor hu).1

end Agrees

/-- What happens to the tables: an operation, maintenance or a batch of a rewrap campaign,
which skips the rows that are locked. -/
inductive Action {Key : Type} (aead : Aead Key) where
  | operate (cryptor : Cryptor aead) (op : Operation)
  | maintain (m : Maintenance)
  | rewrap (cryptor : Cryptor aead) (batchSize : Nat) (locked : TenantResourceValue → Bool)

/-- The cryptor of the process that takes the action. -/
def Action.cryptors : Action aead → List (Cryptor aead)
  | operate cryptor _ => [cryptor]
  | maintain _ => []
  | rewrap cryptor _ _ => [cryptor]

/-- The tables, and the plain map of what was written to them. -/
structure Recorded where
  catalog : Catalog
  plain : PlainValues

/-- The tables and the plain map after an action, which changes neither if it fails. -/
def Action.after (ts : List Tick) (s : Recorded) : Action aead → Recorded
  | operate cryptor op => match op.body cryptor ts s.catalog with
    | .ok (e, _, c') => ⟨c', op.record s.catalog s.plain e⟩
    | .error _ => s
  | maintain m =>
    let c' := m.body.after ts s.catalog
    ⟨c', forget c' s.plain⟩
  | rewrap cryptor batchSize locked =>
    ⟨(Rewrap.processBatch cryptor cryptor.current batchSize locked).after ts s.catalog, s.plain⟩

def Action.Step (s : Recorded) (x : Action aead × List Tick) (s' : Recorded) : Prop :=
  s' = x.1.after x.2 s

theorem Agrees.processBatch (h : Agrees cs c o) (hcryptor : cryptor ∈ cs)
    (hkeep : ∀ w ∈ cs, w.Keeps cryptor) (batchSize : Nat) (locked : TenantResourceValue → Bool)
    (ts : List Tick) :
    Agrees cs ((Rewrap.processBatch cryptor cryptor.current batchSize locked).after ts c) o := by
  cases hb : Rewrap.processBatch cryptor cryptor.current batchSize locked ts c with
  | error e => rwa [Program.Tx.after_of_error hb]
  | ok x =>
    obtain ⟨n, ts', c'⟩ := x
    rw [Program.Tx.after_of_ok hb]
    obtain ⟨t, ts₁, batch, -, -, h₁⟩ := Program.Tx.query_bind_eq_ok.mp hb
    obtain ⟨_, ts₂, c₂, hrows, h₂⟩ := Program.Tx.bind_eq_ok.mp h₁
    cases Program.Tx.pure_eq_ok.mp h₂
    exact h.processRows hrows hcryptor hkeep

/-- One action keeps the agreement, if its cryptor has the keys in use. -/
theorem Agrees.after {s : Recorded} (h : Agrees cs s.catalog s.plain) (x : Action aead × List Tick)
    (hkeep : ∀ d ∈ x.1.cryptors, ∀ w ∈ cs, w.Keeps d) :
    Agrees (cs ++ x.1.cryptors) (x.1.after x.2 s).catalog (x.1.after x.2 s).plain := by
  obtain ⟨action, ts⟩ := x
  have hkeep' : ∀ d ∈ action.cryptors, ∀ w ∈ cs ++ [d], w.Keeps d := by
    intro d hd w hw
    rcases List.mem_append.mp hw with hw | hw
    · exact hkeep d hd w hw
    · rw [List.mem_singleton.mp hw]
      exact d.keeps_refl
  cases action with
  | operate cryptor op =>
    have h' : Agrees (cs ++ [cryptor]) s.catalog s.plain :=
      h.mono fun w hw => List.mem_append_left _ hw
    simp only [Action.after, Action.cryptors]
    split
    next e _ c' hop => exact h'.operate (by simp) (hkeep' cryptor (by simp [Action.cryptors])) hop
    · exact h'
  | maintain m =>
    rw [Action.cryptors, List.append_nil]
    exact h.maintain m ts
  | rewrap cryptor batchSize locked =>
    have h' : Agrees (cs ++ [cryptor]) s.catalog s.plain :=
      h.mono fun w hw => List.mem_append_left _ hw
    exact h'.processBatch (by simp) (hkeep' cryptor (by simp [Action.cryptors])) batchSize locked ts

/-- Along a run whose keys are kept the tables agree with the plain map. -/
theorem Agrees.run {s s' : Recorded} {xs : List (Action aead × List Tick)}
    (hrun : Runs.Run Action.Step s xs s') (h : Agrees cs s.catalog s.plain)
    (hkeys : Cryptor.KeysKept (cs ++ xs.flatMap fun x => x.1.cryptors)) :
    Agrees (cs ++ xs.flatMap fun x => x.1.cryptors) s'.catalog s'.plain := by
  induction hrun generalizing cs with
  | nil s => simpa using h
  | @cons s u t x xs hstep hrun ih =>
    obtain rfl : u = x.1.after x.2 s := hstep
    rw [List.flatMap_cons, ← List.append_assoc] at hkeys ⊢
    have hfirst := (List.pairwise_append.mp (List.pairwise_append.mp hkeys).1).2.2
    exact ih (h.after x fun d hd w hw => hfirst w hw d hd) hkeys

/-- The columns of a value of a secret field, or of a plain one. -/
def RowShape (isSecret : Bool) (v : TenantResourceValue) : Prop :=
  if isSecret then v.valuePlain = none ∧ v.valueCipher.isSome ∧ v.nonce.isSome ∧ v.keyVersion.isSome
  else v.valuePlain.isSome ∧ v.valueCipher = none ∧ v.nonce = none ∧ v.keyVersion = none

theorem Agrees.rowShape (h : Agrees cs c o) {v : TenantResourceValue} (hv : v ∈ c.values) :
    ∃ f ∈ c.fields, f.id = v.resourceFieldId ∧ RowShape f.isSecret v := by
  obtain ⟨f, hf, hfid⟩ := h.wellFormed.valueField v hv
  obtain ⟨r, hr, hrid⟩ := h.wellFormed.valueResource v hv
  have hfound : findValue c r.id f.id = some v :=
    (lookup_eq_some h.wellFormed.valueKeys).mpr ⟨hv, by simp [valueKey, hrid, hfid]⟩
  obtain ⟨s, -, w, -, hold⟩ := h.present r hr f hf v hfound
  refine ⟨f, hf, hfid, ?_⟩
  unfold Holds Columns at hold
  unfold RowShape
  split at hold
  next hsecret =>
    obtain ⟨hp, random, hc, hn, hk⟩ := hold
    simp [hp, hc, hn, hk, hsecret]
  next hsecret =>
    obtain ⟨hp, hc, hn, hk⟩ := hold
    simp [hp, hc, hn, hk, hsecret]

/-- After every run in which no key once used is dropped, the batch read with `reveal`
shows, for any resources, the texts of the plain map, and each value row has the columns of
its kind of field. -/
theorem effective_values_refine {xs : List (Action aead × List Tick)} {s : Recorded}
    (hrun : Runs.Run Action.Step ⟨{}, Overlay.empty⟩ xs s)
    (hkeys : Cryptor.KeysKept (xs.flatMap (fun x => x.1.cryptors) ++ [reader])) :
    (∀ headers : List ResourceHeader, (headers.map fun x => x.resource.id).Nodup →
      (∀ x ∈ headers, x.resource ∈ s.catalog.resources) →
      buildResourceFieldsBatch reader headers true s.catalog = .ok (headers.map fun header =>
        ⟨header, (fieldsOf s.catalog header.resource.resourceDefinitionId).map
          (shownField s.plain header)⟩)) ∧
    ∀ v ∈ s.catalog.values, ∃ f ∈ s.catalog.fields,
    f.id = v.resourceFieldId ∧ RowShape f.isSecret v := by
  obtain ⟨hkeys, -, hreader⟩ := List.pairwise_append.mp hkeys
  have hempty : Agrees ([] : List (Cryptor aead)) {} Overlay.empty := Agrees.empty
  have h : Agrees (xs.flatMap fun x => x.1.cryptors) s.catalog s.plain := by
    simpa using Agrees.run hrun hempty hkeys
  exact ⟨fun headers hids hmem =>
    h.buildResourceFieldsBatch_eq (fun w hw => hreader w hw reader (by simp)) hids hmem,
    fun v hv => h.rowShape hv⟩

section sample

def sampleField (key : String) (required isSecret : Bool) : AddFieldParams :=
  ⟨1001, key, key, "", "string", required, isSecret, 0⟩

/-- The cryptor after a second key was loaded and made the current one. -/
def sampleRotated : Cryptor Aead.tagged where
  aeads v := if v = 1 then some 7 else if v = 2 then some 9 else none
  current := 2
  currentKey := 9
  current_loaded := rfl
  loaded_stored := by
    intro v k h
    by_cases h₁ : v = 1
    · subst h₁
      decide
    by_cases h₂ : v = 2
    · subst h₂
      decide
    simp [h₁, h₂] at h

/-- A tenant, a definition with a plain and a secret field, a resource, one linked to it that
overrides the secret, a new key, a batch of a campaign, the override cleared, a duplicate. -/
def sampleActions : List (Action Aead.tagged × List Tick) :=
  let old : Cryptor Aead.tagged := .single Aead.tagged 7
  [(.maintain (.createDefinition "db" "DB" "" ""), ticksFrom 0 2),
   (.maintain (.createTenant "acme" "Acme"), ticksFrom 2 2),
   (.maintain (.addField (sampleField "url" true false)), ticksFrom 4 2),
   (.maintain (.addField (sampleField "password" false true)), ticksFrom 6 2),
   (.operate old (.provision ⟨"", "main", "db", none, 3001, [("url", "a"), ("password", "p")]⟩),
     ticksFrom 8 9),
   (.operate old (.provision ⟨"", "copy", "db", some 11001, 3001, [("password", "q")]⟩),
     ticksFrom 20 9),
   (.rewrap sampleRotated 10 fun _ => false, ticksFrom 30 5),
   (.operate sampleRotated (.clearOverride ⟨"password", 25001, 3001, ""⟩), ticksFrom 40 9),
   (.operate sampleRotated (.duplicate 3001 25001 "third"), ticksFrom 50 9)]

def sampleAfter : Recorded := sampleActions.foldl (fun s x => x.1.after x.2 s) ⟨{}, Overlay.empty⟩

theorem effective_values_refine_sample :
    (∀ headers : List ResourceHeader, (headers.map fun x => x.resource.id).Nodup →
      (∀ x ∈ headers, x.resource ∈ sampleAfter.catalog.resources) →
      buildResourceFieldsBatch sampleRotated headers true sampleAfter.catalog =
        .ok (headers.map fun header =>
        ⟨header, (fieldsOf sampleAfter.catalog header.resource.resourceDefinitionId).map
          (shownField sampleAfter.plain header)⟩)) ∧
    ∀ v ∈ sampleAfter.catalog.values, ∃ f ∈ sampleAfter.catalog.fields, f.id = v.resourceFieldId ∧
      RowShape f.isSecret v := by
  have hkeys : Cryptor.KeysKept (sampleActions.flatMap (fun x => x.1.cryptors) ++
      [sampleRotated]) := by
    unfold Cryptor.KeysKept Cryptor.Keeps
    decide
  exact effective_values_refine (Runs.run_foldl (fun x s => x.1.after x.2 s) _ sampleActions) hkeys

example : sampleAfter.catalog.resources.map (·.resourceAlias) = ["main", "copy", "third"] ∧
    plainText sampleAfter.plain 25001 5001 = "a" ∧
    plainText sampleAfter.plain 55001 7001 = "p" := by
  decide +kernel

end sample

end Tenancit.Values
