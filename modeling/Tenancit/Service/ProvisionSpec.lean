import Tenancit.Service.Provision
import Tenancit.Store.CatalogSpec

/-!
The operations on resources as sequences of statements: whatever relation the statements
they are made of keep, the operations keep.
-/
namespace Tenancit.Service

open Encoding Crypto Store Queries
open Program

variable {Key : Type} {aead : Aead Key} {cryptor : Cryptor aead} {now : Timestamp}
  {R : Catalog → List Tick → Catalog → Prop}

/-- The relation is kept by programs that read and by the statement that stores a value. -/
structure KeptByUpserts (R : Catalog → List Tick → Catalog → Prop) : Prop where
  composes : Composes R
  reads : ∀ t c, R c [t] c
  upserts : ∀ {arg t c a c'}, upsertResourceValue arg t c = .ok (a, c') → R c [t] c'

namespace KeptByUpserts

theorem read (hR : KeptByUpserts R) {α : Type} {q : Catalog → Except PgError α} {ε : Type}
    {f : PgError → ε} : Along R ((Store.read q).mapErr f) :=
  Along.mapErr (Along.query hR.reads) f

theorem encodeValue (hR : KeptByUpserts R) (isSecret : Bool) (s : String) :
    Along R (Service.encodeValue cryptor isSecret s) := by
  unfold Service.encodeValue
  split
  · exact Along.pure hR.composes _
  · exact Along.bind hR.composes (Along.draw hR.reads) fun _ => Along.pure hR.composes _

theorem storeField (hR : KeptByUpserts R) (resourceId : UUID) (f : ResourceField) (value : String) :
    Along R (Service.storeField cryptor resourceId f value) := by
  refine Along.bind hR.composes (hR.encodeValue _ _) fun p => ?_
  refine Along.bind hR.composes (Along.mapErr (Along.statement fun _ _ _ _ h =>
    hR.upserts h) _) fun _ => ?_
  exact Along.pure hR.composes _

theorem storeFields (hR : KeptByUpserts R) (values : StringMap) (resourceId : UUID)
    (fields : List ResourceField) :
    Along R (Service.storeFields cryptor values resourceId fields) := by
  induction fields with
  | nil => exact Along.pure hR.composes _
  | cons f fs ih =>
    rw [Service.storeFields]
    split
    · exact ih
    · exact Along.bind hR.composes (hR.storeField _ _ _) fun _ => ih

theorem updateResourceFieldInTx (hR : KeptByUpserts R) (in_ : UpdateResourceFieldInput) :
    Along R (Service.updateResourceFieldInTx cryptor in_) := by
  refine Along.bind hR.composes hR.read fun resource =>
    Along.bind hR.composes hR.read fun fields => ?_
  split
  · exact Along.fail _
  · refine Along.bind hR.composes (Along.require hR.composes _ _) fun _ => ?_
    refine Along.bind hR.composes (Along.require hR.composes _ _) fun _ => ?_
    exact Along.bind hR.composes (hR.storeField _ _ _) fun _ => Along.pure hR.composes _

theorem provisionSource (hR : KeptByUpserts R) (in_ : ProvisionResourceInput)
    (definition : ResourceDefinition) : Along R (Service.provisionSource in_ definition) := by
  unfold Service.provisionSource
  split
  · exact Along.pure hR.composes _
  · refine Along.bind hR.composes hR.read fun source => ?_
    refine Along.bind hR.composes (Along.require hR.composes _ _) fun _ => ?_
    exact Along.bind hR.composes hR.read fun values => Along.pure hR.composes _

theorem provisionResource (hR : KeptByUpserts R)
    (hcreate : ∀ {arg t c a c'}, createTenantResource now arg t c = .ok (a, c') → R c [t] c')
    (in_ : ProvisionResourceInput) : Along R (Service.provisionResource now cryptor in_) := by
  refine Along.bind hR.composes hR.read fun definition => ?_
  refine Along.bind hR.composes (Along.require hR.composes _ _) fun _ => ?_
  refine Along.bind hR.composes (Along.ofExcept hR.composes _) fun names => ?_
  refine Along.bind hR.composes (Along.require hR.composes _ _) fun _ => ?_
  refine Along.bind hR.composes hR.read fun fields => ?_
  refine Along.bind hR.composes (hR.provisionSource in_ definition) fun source => ?_
  refine Along.bind hR.composes (Along.ofExcept hR.composes _) fun _ => ?_
  refine Along.bind hR.composes (Along.mapErr (Along.statement fun _ _ _ _ h => hcreate h) _)
    fun res => ?_
  exact Along.bind hR.composes (hR.storeFields _ _ _) fun _ => Along.pure hR.composes _

theorem duplicateResourceInTx (hR : KeptByUpserts R)
    (hcreate : ∀ {arg t c a c'}, createTenantResource now arg t c = .ok (a, c') → R c [t] c')
    (tenantId resourceId : UUID) (resourceAlias : String) :
    Along R (Service.duplicateResourceInTx now cryptor tenantId resourceId resourceAlias) := by
  refine Along.bind hR.composes hR.read fun row => ?_
  refine Along.bind hR.composes (Along.require hR.composes _ _) fun _ => ?_
  exact Along.bind hR.composes (Along.query hR.reads) fun fields => hR.provisionResource hcreate _

end KeptByUpserts

/-- A clear that succeeds deletes the resource's own value for the field. -/
theorem clearResourceFieldOverrideInTx_ok {in_ : UpdateResourceFieldInput} {ts ts' : List Tick}
    {c c' : Catalog} {f : ResourceField}
    (h : clearResourceFieldOverrideInTx in_ ts c = .ok (f, ts', c')) :
    ∃ resource source, findResource c in_.resourceId in_.tenantId = some resource ∧
      resource.sourceResourceId = some source ∧
      Table.lookup ResourceField.key in_.fieldKey
        (fieldsOf c resource.resourceDefinitionId) = some f ∧
      (f.required = true → ∃ v ∈ valuesOf c source, v.resourceFieldId = f.id) ∧
      (∃ used, ts = used ++ ts') ∧
      c' = { c with
        values := Table.delete (fun v => valueKey v = (resource.id, f.id)) c.values } := by
  obtain ⟨t₁, ts₁, resource, rfl, hres, h₁⟩ := Tx.query_bind_eq_ok.mp h
  have hfound : findResource c in_.resourceId in_.tenantId = some resource := one_eq_ok.mp hres
  cases hsource : resource.sourceResourceId with
  | none => simp [hsource] at h₁
  | some source =>
    simp only [hsource] at h₁
    obtain ⟨t₂, ts₂, fields, rfl, hfields, h₂⟩ := Tx.query_bind_eq_ok.mp h₁
    cases hfields
    cases hfield : Table.lookup ResourceField.key in_.fieldKey
      (fieldsOf c resource.resourceDefinitionId) with
    | none => simp [hfield] at h₂
    | some field =>
      simp only [hfield] at h₂
      -- the check of a required field reads and changes nothing
      obtain ⟨pre, ts₃, hreq, rfl, h₃⟩ : ∃ pre ts₃, (field.required = true →
          ∃ v ∈ valuesOf c source, v.resourceFieldId = field.id) ∧ ts₂ = pre ++ ts₃ ∧
          (do let _ ← (run (deleteResourceValue resource.id field.id)).mapErr .store
              pure field : Store.Tx Catalog ServiceError ResourceField) ts₃ c =
                .ok (f, ts', c') := by
        by_cases hr : field.required = true
        · rw [if_pos hr] at h₂
          obtain ⟨t₃, ts₃, values, rfl, hvalues, h₃⟩ := Tx.query_bind_eq_ok.mp h₂
          cases hvalues
          obtain ⟨hex, h₄⟩ := Tx.require_bind_eq_ok.mp h₃
          exact ⟨[t₃], ts₃, fun _ => hex, rfl, h₄⟩
        · rw [if_neg hr] at h₂
          exact ⟨[], ts₂, fun h => absurd h hr, rfl, h₂⟩
      obtain ⟨t₄, ts₄, n, c₄, rfl, hdel, h₄⟩ := Tx.statement_bind_eq_ok.mp h₃
      cases Tx.pure_eq_ok.mp h₄
      exact ⟨resource, source, hfound, hsource, hfield, hreq, ⟨t₁ :: t₂ :: (pre ++ [t₄]), by simp⟩,
        deleteResourceValue_ok hdel⟩

/-- A value stored for a field is encoded by the cryptor for the kind of the field. -/
theorem storeField_ok {resourceId : UUID} {f : ResourceField} {s : String} {ts ts' : List Tick}
    {c c' : Catalog} (h : storeField cryptor resourceId f s ts c = .ok ((), ts', c')) :
    ∃ p t a, p.tenantResourceId = resourceId ∧ p.resourceFieldId = f.id ∧
      upsertResourceValue p t c = .ok (a, c') ∧ Holds cryptor f.isSecret s a := by
  obtain ⟨p, ts₁, c₁, hp, h₁⟩ := Tx.bind_eq_ok.mp h
  obtain ⟨rfl, -, hcolumns⟩ := encodeValue_ok hp
  obtain ⟨t, ts₂, a, c₂, -, hupsert, h₂⟩ := Tx.statement_bind_eq_ok.mp h₁
  cases Tx.pure_eq_ok.mp h₂
  refine ⟨_, t, a, rfl, rfl, hupsert, ?_⟩
  obtain ⟨-, -, -, ha, -⟩ := upsertResourceValue_ok hupsert
  rw [ha]
  exact hcolumns

/-- The values given for the fields of a list, by field. -/
def given (values : StringMap) (fields : List ResourceField) : List (UUID × String) :=
  fields.filterMap fun f => (values.get? f.key).map fun s => (f.id, s)

theorem mem_given {values : StringMap} {fields : List ResourceField} {id : UUID} {s : String} :
    (id, s) ∈ given values fields ↔ ∃ f ∈ fields, f.id = id ∧ values.get? f.key = some s := by
  simp only [given, List.mem_filterMap, Option.map_eq_some_iff, Prod.mk.injEq]
  constructor
  · rintro ⟨f, hf, _, hs, rfl, rfl⟩
    exact ⟨f, hf, rfl, hs⟩
  · rintro ⟨f, hf, rfl, hs⟩
    exact ⟨f, hf, s, hs, rfl, rfl⟩

theorem given_keys_nodup (values : StringMap) {fields : List ResourceField}
    (h : (fields.map ResourceField.id).Nodup) : ((given values fields).map Prod.fst).Nodup := by
  refine h.sublist ?_
  unfold given
  induction fields with
  | nil => simp
  | cons f fs ih =>
    have ih := ih (List.nodup_cons.mp h).2
    cases hv : values.get? f.key with
    | none => simpa [hv] using ih.cons _
    | some s => simpa [hv] using ih

/-- A value that passes the check is given, or the source has one. -/
theorem checkProvided_ok {values : StringMap} {providedBySource : List UUID}
    {fields : List ResourceField} (h : checkProvided values providedBySource fields = .ok ()) :
    ∀ f ∈ fields, f.required = true →
      (∃ s, values.get? f.key = some s ∧ s ≠ "") ∨ f.id ∈ providedBySource := by
  induction fields with
  | nil => simp
  | cons f fs ih =>
    simp only [checkProvided, ite_error_eq_ok] at h
    obtain ⟨-, hreq, h⟩ := h
    intro g hg hrequired
    rcases List.mem_cons.mp hg with rfl | hg
    · by_cases hsource : g.id ∈ providedBySource
      · exact .inr hsource
      · cases hv : values.get? g.key with
        | none => exact absurd ⟨hrequired, .inl hv, hsource⟩ hreq
        | some s => exact .inl ⟨s, rfl, fun he => hreq ⟨hrequired, .inr (he ▸ hv), hsource⟩⟩
    · exact ih h g hg hrequired

/-- The source a resource may be linked to, and the fields that have a row there. -/
theorem provisionSource_ok {in_ : ProvisionResourceInput} {definition : ResourceDefinition}
    {ts ts' : List Tick} {c c' : Catalog} {source : Option UUID × List UUID}
    (h : provisionSource in_ definition ts c = .ok (source, ts', c')) :
    c' = c ∧ source.1 = in_.sourceResourceId ∧ (in_.sourceResourceId = none → source.2 = []) ∧
      ∀ id, in_.sourceResourceId = some id → source.2 =
        (valuesOf c id).map (·.resourceFieldId) := by
  cases hid : in_.sourceResourceId with
  | none =>
    simp only [provisionSource, hid] at h
    cases Tx.pure_eq_ok.mp h
    simp
  | some id =>
    simp only [provisionSource, hid] at h
    obtain ⟨t₁, ts₁, r, -, hr, h₁⟩ := Tx.query_bind_eq_ok.mp h
    obtain ⟨-, h₂⟩ := Tx.require_bind_eq_ok.mp h₁
    obtain ⟨t₂, ts₂, values, -, hvalues, h₃⟩ := Tx.query_bind_eq_ok.mp h₂
    cases hvalues
    cases Tx.pure_eq_ok.mp h₃
    obtain ⟨-, hrid, -⟩ := findResource_some (one_eq_ok.mp hr)
    simp [hrid]

/-- A provisioning that succeeds creates the resource and stores the values given. -/
theorem provisionResource_ok {in_ : ProvisionResourceInput} {ts ts' : List Tick} {c c' : Catalog}
    {res : TenantResource} (h : provisionResource now cryptor in_ ts c = .ok (res, ts', c')) :
    ∃ definition provided arg t c₁ ts₁, getDefinitionByKey in_.definitionKey c = .ok definition ∧
      checkProvided in_.values provided (fieldsOf c definition.id) = .ok () ∧
      (in_.sourceResourceId = none → provided = []) ∧
      (∀ id, in_.sourceResourceId = some id → provided = (valuesOf c id).map (·.resourceFieldId)) ∧
      arg.tenantId = in_.tenantId ∧ arg.resourceDefinitionId = definition.id ∧
      arg.sourceResourceId = in_.sourceResourceId ∧
      createTenantResource now arg t c = .ok (res, c₁) ∧
      storeFields cryptor in_.values res.id (fieldsOf c definition.id) ts₁ c₁ =
        .ok ((), ts', c') := by
  obtain ⟨t₁, ts₁, definition, -, hdef, h₁⟩ := Tx.query_bind_eq_ok.mp h
  obtain ⟨-, h₂⟩ := Tx.require_bind_eq_ok.mp h₁
  obtain ⟨names, -, h₃⟩ := Tx.ofExcept_bind_eq_ok.mp h₂
  obtain ⟨-, h₄⟩ := Tx.require_bind_eq_ok.mp h₃
  obtain ⟨t₅, ts₅, fields, -, hfields, h₅⟩ := Tx.query_bind_eq_ok.mp h₄
  cases hfields
  obtain ⟨source, ts₆, c₆, hsource, h₆⟩ := Tx.bind_eq_ok.mp h₅
  obtain ⟨rfl, hid, hnone, hsome⟩ := provisionSource_ok hsource
  obtain ⟨_, hcheck, h₇⟩ := Tx.ofExcept_bind_eq_ok.mp h₆
  obtain ⟨t₈, ts₈, a, c₈, -, hcreate, h₈⟩ := Tx.statement_bind_eq_ok.mp h₇
  obtain ⟨_, ts₉, c₉, hstore, h₉⟩ := Tx.bind_eq_ok.mp h₈
  cases Tx.pure_eq_ok.mp h₉
  exact ⟨definition, source.2, _, t₈, c₈, ts₈, hdef, hcheck, hnone, hsome, rfl,
    rfl, hid, hcreate, hstore⟩

/-- The alias of a new resource: the one given, less the space around it, or the definition's
key. -/
theorem provisionResource_alias {in_ : ProvisionResourceInput} {ts ts' : List Tick} {c c' : Catalog}
    {res : TenantResource} (h : provisionResource now cryptor in_ ts c = .ok (res, ts', c')) :
    res.resourceAlias = if Text.trimSpace in_.resourceAlias ≠
      "" then Text.trimSpace in_.resourceAlias else in_.definitionKey := by
  obtain ⟨t₁, ts₁, definition, -, hdef, h₁⟩ := Tx.query_bind_eq_ok.mp h
  obtain ⟨-, h₂⟩ := Tx.require_bind_eq_ok.mp h₁
  obtain ⟨names, hnames, h₃⟩ := Tx.ofExcept_bind_eq_ok.mp h₂
  obtain ⟨-, h₄⟩ := Tx.require_bind_eq_ok.mp h₃
  obtain ⟨t₅, ts₅, fields, -, -, h₅⟩ := Tx.query_bind_eq_ok.mp h₄
  obtain ⟨source, ts₆, c₆, -, h₆⟩ := Tx.bind_eq_ok.mp h₅
  obtain ⟨_, -, h₇⟩ := Tx.ofExcept_bind_eq_ok.mp h₆
  obtain ⟨t₈, ts₈, a, c₈, -, hcreate, h₈⟩ := Tx.statement_bind_eq_ok.mp h₇
  obtain ⟨_, ts₉, c₉, -, h₉⟩ := Tx.bind_eq_ok.mp h₈
  cases Tx.pure_eq_ok.mp h₉
  obtain ⟨-, -, -, -, rfl, -⟩ := createTenantResource_ok hcreate
  simp only [normalizeResourceIdentity, ite_error_eq_ok, Except.ok.injEq] at hnames
  obtain ⟨-, -, rfl⟩ := hnames
  have hkey : definition.key = in_.definitionKey := Table.key_of_lookup (one_eq_ok.mp hdef)
  simp only [defaultAlias, hkey, ite_self]

/-- A duplicate is a provisioning, without a source, of the values read from the original. -/
theorem duplicateResourceInTx_ok {tenantId resourceId : UUID}
    {resourceAlias : String} {ts ts' : List Tick} {c c' : Catalog} {res : TenantResource}
    (h : duplicateResourceInTx now cryptor tenantId resourceId resourceAlias ts c =
      .ok (res, ts', c')) :
    ∃ row fields ts₁, getResourceHeader resourceId c = .ok row ∧ row.resource.tenantId = tenantId ∧
      snapshotFields cryptor row c = .ok fields ∧
      provisionResource now cryptor
        ⟨"", resourceAlias, row.definitionKey, none, tenantId, snapshotValues fields⟩ ts₁ c =
          .ok (res, ts', c') := by
  obtain ⟨t₁, ts₁, row, -, hrow, h₁⟩ := Tx.query_bind_eq_ok.mp h
  obtain ⟨htenant, h₂⟩ := Tx.require_bind_eq_ok.mp h₁
  obtain ⟨fields, ts₃, c₃, hfields, h₃⟩ := Tx.bind_eq_ok.mp h₂
  obtain ⟨t, -, hfields, rfl⟩ := Tx.query_eq_ok.mp hfields
  exact ⟨row, fields, ts₃, hrow, htenant, hfields, h₃⟩

/-- An update that succeeds stores the value for the field, which is not required or not empty. -/
theorem updateResourceFieldInTx_ok {in_ : UpdateResourceFieldInput} {ts ts' : List Tick}
    {c c' : Catalog} {f : ResourceField}
    (h : updateResourceFieldInTx cryptor in_ ts c = .ok (f, ts', c')) :
    ∃ resource ts₁, findResource c in_.resourceId in_.tenantId = some resource ∧
      Table.lookup ResourceField.key in_.fieldKey
        (fieldsOf c resource.resourceDefinitionId) = some f ∧
      (f.required = true → in_.value ≠ "") ∧
      storeField cryptor resource.id f in_.value ts₁ c = .ok ((), ts', c') := by
  obtain ⟨t₁, ts₁, resource, -, hres, h₁⟩ := Tx.query_bind_eq_ok.mp h
  obtain ⟨t₂, ts₂, fields, -, hfields, h₂⟩ := Tx.query_bind_eq_ok.mp h₁
  cases hfields
  cases hfield : Table.lookup ResourceField.key in_.fieldKey
    (fieldsOf c resource.resourceDefinitionId) with
  | none => simp [hfield] at h₂
  | some field =>
    simp only [hfield] at h₂
    obtain ⟨hreq, h₃⟩ := Tx.require_bind_eq_ok.mp h₂
    obtain ⟨-, h₄⟩ := Tx.require_bind_eq_ok.mp h₃
    obtain ⟨_, ts₅, c₅, hstore, h₅⟩ := Tx.bind_eq_ok.mp h₄
    cases Tx.pure_eq_ok.mp h₅
    exact ⟨resource, ts₂, one_eq_ok.mp hres, hfield, fun hr he => hreq ⟨hr, he⟩, hstore⟩

end Tenancit.Service
