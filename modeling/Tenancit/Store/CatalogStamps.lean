import Tenancit.Lib.Stamps
import Tenancit.Lib.Program
import Tenancit.Store.CatalogInvariant

/-!
The `updated_at` columns of definitions and resources as version stamps: of a definition
with its fields, and of a resource with its values. Every statement but one that changes
either gives it the time of the transaction or of the statement; the one that does not
is `DeleteResourceValue`.
-/
namespace Tenancit.Store

open Table Queries

inductive Versioned where
  | definition (id : UUID)
  | resource (id : UUID)

inductive Content where
  | definition (d : ResourceDefinition) (fields : List ResourceField)
  | resource (r : TenantResource) (values : UUID → Option TenantResourceValue)

namespace Catalog

/-- A definition or a resource under its update time. -/
def shown (c : Catalog) : Versioned → Option (Int × Content)
  | .definition id => (lookup ResourceDefinition.id id c.definitions).map fun d =>
      (Timestamp.unixNano d.updatedAt, .definition d (fieldsOf c id))
  | .resource id => (lookup TenantResource.id id c.resources).map fun r =>
      (Timestamp.unixNano r.updatedAt, .resource r (findValue c id))

theorem shown_definition_congr {c c' : Catalog} {id : UUID}
    (hd : lookup ResourceDefinition.id id c'.definitions =
      lookup ResourceDefinition.id id c.definitions)
    (hf : fieldsOf c' id = fieldsOf c id) :
    c'.shown (.definition id) = c.shown (.definition id) := by
  simp only [shown, hd, hf]

theorem shown_resource_congr {c c' : Catalog} {id : UUID}
    (hr : lookup TenantResource.id id c'.resources = lookup TenantResource.id id c.resources)
    (hv : ∀ r, lookup TenantResource.id id c.resources = some r →
      findValue c' id = findValue c id) :
    c'.shown (.resource id) = c.shown (.resource id) := by
  simp only [shown, hr]
  cases h : lookup TenantResource.id id c.resources with
  | none => rfl
  | some r => simp only [Option.map_some, hv r h]

end Catalog

open Catalog

/-- The readings a program that began at `now` can have stamped with. -/
def stamps (now : Timestamp) (used : List Tick) : List Int :=
  Timestamp.unixNano now :: used.map fun t => Timestamp.unixNano t.clock

/-- The program may change a definition or a resource only with a stamp of its own. -/
def Restamps (now : Timestamp) (c : Catalog) (used : List Tick) (c' : Catalog) : Prop :=
  Stamps.Moves shown c (stamps now used) c'

variable {now : Timestamp} {t : Tick} {c c' : Catalog} {id tenantId : UUID} {used : List Tick}

theorem mem_stamps_now : Timestamp.unixNano now ∈ stamps now used := .head _

theorem mem_stamps_clock : Timestamp.unixNano t.clock ∈ stamps now [t] := .tail _ (.head _)

theorem Restamps.refl : Restamps now c used c := Stamps.Moves.refl _ _

theorem Restamps.append {c₁ c₂ c₃ : Catalog} {xs ys : List Tick} (h : Restamps now c₁ xs c₂)
    (h' : Restamps now c₂ ys c₃) : Restamps now c₁ (xs ++ ys) c₃ := by
  refine (Stamps.Moves.append h h').mono fun a ha => ?_
  simp only [stamps, List.cons_append, List.mem_cons, List.mem_append, List.map_append] at ha ⊢
  tauto

/-- What a program stamps: each object shows what it showed, or a stamp of the program. -/
theorem restamps_of {P : List Int} (hP : P = stamps now used)
    (hdef : ∀ k, c'.shown (.definition k) = c.shown (.definition k) ∨
      ∀ d, lookup ResourceDefinition.id k c'.definitions =
        some d → Timestamp.unixNano d.updatedAt ∈ P)
    (hres : ∀ k, c'.shown (.resource k) = c.shown (.resource k) ∨
      ∀ r, lookup TenantResource.id k c'.resources = some r → Timestamp.unixNano r.updatedAt ∈ P) :
    Restamps now c used c' := by
  subst hP
  rintro (k | k)
  · refine (hdef k).imp id fun h a content ha => ?_
    obtain ⟨d, hd, heq⟩ := Option.map_eq_some_iff.mp ha
    cases heq
    exact h d hd
  · refine (hres k).imp id fun h a content ha => ?_
    obtain ⟨r, hr, heq⟩ := Option.map_eq_some_iff.mp ha
    cases heq
    exact h r hr

/-- Statements that leave definitions, fields, resources and values alone stamp nothing. -/
theorem restamps_of_eq (hd : c'.definitions = c.definitions) (hf : c'.fields = c.fields)
    (hr : c'.resources = c.resources) (hv : c'.values = c.values) : Restamps now c used c' := by
  refine restamps_of rfl (fun k => .inl ?_) fun k => .inl ?_
  · exact shown_definition_congr (by rw [hd]) (by unfold fieldsOf; rw [hf])
  · exact shown_resource_congr (by rw [hr]) fun _ _ => by unfold findValue; rw [hv]

section definitions

/-- A statement on definitions and fields that gives the definitions it selects a new stamp. -/
theorem restamps_definitions {defs : List ResourceDefinition} {fs : List ResourceField}
    (h : ∀ k, (lookup ResourceDefinition.id k defs = lookup ResourceDefinition.id k c.definitions ∧
        fieldsOf { c with fields := fs } k = fieldsOf c k) ∨
      ∀ d, lookup ResourceDefinition.id k defs =
        some d → Timestamp.unixNano d.updatedAt ∈ stamps now used) :
    Restamps now c used { c with definitions := defs, fields := fs } := by
  refine restamps_of rfl (fun k => ?_) fun k => .inl (shown_resource_congr rfl fun _ _ => rfl)
  exact (h k).imp (fun hk => shown_definition_congr hk.1 hk.2) id

theorem restamps_createDefinition {key name description icon : String} {a : ResourceDefinition}
    (h : createDefinition now key name description icon t c = .ok (a, c')) :
    Restamps now c [t] c' := by
  obtain ⟨hnew, ha, rfl⟩ := createDefinition_ok h
  refine restamps_definitions fun k => ?_
  rw [lookup_append]
  cases hk : lookup ResourceDefinition.id k c.definitions with
  | some d => exact .inl ⟨by simp, rfl⟩
  | none =>
    refine .inr fun d hd => ?_
    obtain rfl : d = a := List.mem_singleton.mp (mem_of_lookup (by simpa using hd))
    rw [ha]
    exact mem_stamps_now

/-- A definition found in an updated table was updated, or it is the one found before. -/
theorem lookup_update_definitions {set : ResourceDefinition → ResourceDefinition} {k : UUID}
    (hid : ∀ d, (set d).id = d.id) :
    lookup ResourceDefinition.id k (update (fun d => d.id = id) set c.definitions) =
      if k = id then (lookup ResourceDefinition.id k c.definitions).map set
      else lookup ResourceDefinition.id k c.definitions := by
  rw [lookup_update hid]
  cases hk : lookup ResourceDefinition.id k c.definitions with
  | none => simp
  | some d =>
    have hd : d.id = k := key_of_lookup hk
    by_cases he : k = id <;> simp [hd, he]

/-- The statements that set `updated_at` of a definition and may change its fields. -/
theorem restamps_update_definition {set : ResourceDefinition → ResourceDefinition}
    {fs : List ResourceField} (hid : ∀ d, (set d).id = d.id)
    (hat : ∀ d, Timestamp.unixNano (set d).updatedAt ∈ stamps now used)
    (hfs : ∀ k, k ≠ id → fieldsOf { c with fields := fs } k = fieldsOf c k) :
    Restamps now c used { c with
      definitions := update (fun d => d.id = id) set c.definitions, fields := fs } := by
  refine restamps_definitions fun k => ?_
  rw [lookup_update_definitions hid]
  by_cases hk : k = id
  · refine .inr fun d hd => ?_
    rw [if_pos hk] at hd
    obtain ⟨d₀, -, rfl⟩ := Option.map_eq_some_iff.mp hd
    exact hat d₀
  · exact .inl ⟨by rw [if_neg hk], hfs k hk⟩

theorem restamps_setDefinitionStatus {status : Status} {a : ResourceDefinition}
    (h : setDefinitionStatus now id status t c = .ok (a, c')) : Restamps now c [t] c' := by
  obtain ⟨_, -, -, rfl⟩ := changeDefinition_ok h
  exact restamps_update_definition (fun _ => rfl) (fun _ => mem_stamps_now) fun _ _ => rfl

theorem restamps_updateDefinition {name description : String} {a : ResourceDefinition}
    (h : updateDefinition now id name description t c = .ok (a, c')) : Restamps now c [t] c' := by
  obtain ⟨_, -, -, rfl⟩ := changeDefinition_ok h
  exact restamps_update_definition (fun _ => rfl) (fun _ => mem_stamps_now) fun _ _ => rfl

theorem restamps_deleteDefinition {n : Nat} (hc : c.WellFormed)
    (h : deleteDefinition id t c = .ok (n, c')) : Restamps now c [t] c' := by
  obtain ⟨-, rfl⟩ | ⟨-, -, -, rfl⟩ := deleteDefinition_ok h
  · exact Restamps.refl
  refine restamps_definitions fun k => ?_
  rw [lookup_delete hc.definitionIds]
  by_cases hk : k = id
  · refine .inr fun d hd => ?_
    rw [Option.filter_eq_some_iff] at hd
    have : d.id = k := key_of_lookup hd.1
    simp [this, hk] at hd
  · refine .inl ⟨?_, ?_⟩
    · cases hd : lookup ResourceDefinition.id k c.definitions with
      | none => rfl
      | some d =>
        have : d.id = k := key_of_lookup hd
        simp [this, hk]
    · simp only [fieldsOf, delete, List.filter_filter]
      refine congrArg _ (List.filter_congr fun f _ => ?_)
      by_cases hf : f.resourceDefinitionId = k <;> simp [hf, hk]

theorem fieldsOf_append {a : ResourceField} {k : UUID} (hk : k ≠ a.resourceDefinitionId) :
    fieldsOf { c with fields := c.fields ++ [a] } k = fieldsOf c k := by
  simp [fieldsOf, List.filter_append, hk.symm]

theorem restamps_addField {arg : AddFieldParams} {a : ResourceField}
    (h : addField arg t c = .ok (a, c')) : Restamps now c [t] c' := by
  obtain ⟨-, -, -, rfl⟩ := addField_ok h
  exact restamps_update_definition (fun _ => rfl) (fun _ => mem_stamps_clock)
    fun k hk => fieldsOf_append hk

/-- Fields of other definitions are not among those a statement on one definition selects. -/
theorem fieldsOf_update {p : ResourceField → Bool} {set : ResourceField → ResourceField} {k : UUID}
    (hset : ∀ f, (set f).resourceDefinitionId = f.resourceDefinitionId)
    (hp : ∀ f, p f = true → f.resourceDefinitionId = id) (hk : k ≠ id) :
    fieldsOf { c with fields := update p set c.fields } k = fieldsOf c k := by
  simp only [fieldsOf, update, List.filter_map]
  have hfilter : c.fields.filter ((fun f : ResourceField => decide (f.resourceDefinitionId = k)) ∘
      fun r => if p r = true then set r else r) = c.fields.filter fun f =>
        f.resourceDefinitionId = k := by
    refine List.filter_congr fun f _ => ?_
    simp only [Function.comp_apply]
    split <;> simp [hset]
  rw [hfilter]
  refine congrArg _ ((List.map_congr_left fun f hf => ?_).trans (List.map_id _))
  have hfk : f.resourceDefinitionId = k := by simpa using (List.mem_filter.mp hf).2
  have : p f ≠ true := fun hpf => hk (hfk.symm.trans (hp f hpf))
  simp [this]

theorem restamps_updateField {fieldId definitionId : UUID} {label : String} {required : Bool}
    {a : ResourceField} (h : updateField fieldId definitionId label required t c = .ok (a, c')) :
    Restamps now c [t] c' := by
  obtain ⟨_, -, -, rfl⟩ := updateField_ok h
  refine restamps_update_definition (fun _ => rfl) (fun _ => mem_stamps_clock) fun k hk => ?_
  refine fieldsOf_update (fun _ => rfl) (fun f hf => ?_) hk
  simp only [Bool.and_eq_true, decide_eq_true_eq] at hf
  exact hf.2

theorem restamps_removeField {fieldId definitionId : UUID} {n : Nat}
    (h : removeField fieldId definitionId t c = .ok (n, c')) : Restamps now c [t] c' := by
  obtain ⟨-, rfl⟩ | ⟨-, -, rfl⟩ := removeField_ok h
  · exact Restamps.refl
  refine restamps_update_definition (fun _ => rfl) (fun _ => mem_stamps_clock) fun k hk => ?_
  simp only [fieldsOf, delete, List.filter_filter]
  refine congrArg _ (List.filter_congr fun f _ => ?_)
  by_cases hf : f.resourceDefinitionId = k <;> simp [hf, hk]

end definitions

section resources

/-- A statement on resources and values that gives the resources it changes a new stamp. -/
theorem restamps_resources {rs : List TenantResource} {vs : List TenantResourceValue}
    (h : ∀ k, (lookup TenantResource.id k rs = lookup TenantResource.id k c.resources ∧
        ∀ r, lookup TenantResource.id k c.resources = some r →
          findValue { c with values := vs } k = findValue c k) ∨
      ∀ r, lookup TenantResource.id k rs =
        some r → Timestamp.unixNano r.updatedAt ∈ stamps now used) :
    Restamps now c used { c with resources := rs, values := vs } := by
  refine restamps_of rfl (fun k => .inl (shown_definition_congr rfl rfl)) fun k => ?_
  exact (h k).imp (fun hk => shown_resource_congr hk.1 hk.2) id

theorem restamps_createTenantResource {arg : CreateTenantResourceParams} {a : TenantResource}
    (h : createTenantResource now arg t c = .ok (a, c')) : Restamps now c [t] c' := by
  obtain ⟨-, -, -, -, ha, rfl⟩ := createTenantResource_ok h
  refine restamps_resources fun k => ?_
  rw [lookup_append]
  cases hk : lookup TenantResource.id k c.resources with
  | some r => exact .inl ⟨by simp, fun _ _ => rfl⟩
  | none =>
    refine .inr fun r hr => ?_
    obtain rfl : r = a := List.mem_singleton.mp (mem_of_lookup (by simpa using hr))
    rw [ha]
    exact mem_stamps_now

/-- The statements that set `updated_at` of the resources they select. -/
theorem restamps_update_resources {p : TenantResource → Bool}
    {set : TenantResource → TenantResource} (hid : ∀ r, (set r).id = r.id)
    (hat : ∀ r, Timestamp.unixNano (set r).updatedAt ∈ stamps now used) :
    Restamps now c used { c with resources := update p set c.resources } := by
  refine restamps_resources fun k => ?_
  rw [lookup_update hid]
  cases hk : lookup TenantResource.id k c.resources with
  | none => exact .inl ⟨rfl, fun _ _ => rfl⟩
  | some r =>
    by_cases hp : p r = true
    · refine .inr fun r' hr' => ?_
      obtain rfl : set r = r' := by simpa [hp] using hr'
      exact hat r
    · exact .inl ⟨by simp [hp], fun _ _ => rfl⟩

theorem restamps_updateTenantResourceIdentity {resourceAlias displayName : String}
    {a : TenantResource}
    (h : updateTenantResourceIdentity now id tenantId resourceAlias displayName t c = .ok (a, c')) :
    Restamps now c [t] c' := by
  obtain ⟨_, -, -, rfl⟩ := updateTenantResourceIdentity_ok h
  exact restamps_update_resources (fun _ => rfl) fun _ => mem_stamps_now

theorem restamps_setTenantResourceStatus {status : Status} {a : TenantResource}
    (h : setTenantResourceStatus now id tenantId status t c = .ok (a, c')) :
    Restamps now c [t] c' := by
  obtain ⟨_, -, -, rfl⟩ := setTenantResourceStatus_ok h
  exact restamps_update_resources (fun _ => rfl) fun _ => mem_stamps_now

theorem restamps_removeResources {p : TenantResource → Bool} (hc : c.WellFormed)
    (h : removeResources p c = .ok c') : Restamps now c used c' := by
  obtain ⟨-, rfl⟩ := removeResources_ok h
  refine restamps_resources fun k => ?_
  rw [lookup_delete hc.resourceIds]
  cases hk : lookup TenantResource.id k c.resources with
  | none => exact .inl ⟨rfl, fun _ h => by cases h⟩
  | some r =>
    obtain ⟨hr, rfl⟩ := (lookup_eq_some hc.resourceIds).mp hk
    cases hp : p r with
    | true =>
      refine .inr fun r' hr' => ?_
      obtain ⟨rfl, hkept⟩ : r = r' ∧ p r' = false := by simpa using hr'
      simp [hp] at hkept
    | false =>
      refine .inl ⟨by simp [hp], fun _ _ => funext fun fieldId => ?_⟩
      -- the values of a resource that stays, stay
      have hstays : ¬Gone p c r.id := by
        rintro ⟨s, hs, hps, hid⟩
        rw [hc.resourceIds.eq_of_key hs hr hid, hp] at hps
        cases hps
      simp only [findValue]
      rw [lookup_delete hc.valueKeys]
      cases hv : lookup valueKey (r.id, fieldId) c.values with
      | none => rfl
      | some v =>
        have hkey : v.tenantResourceId = r.id := congrArg Prod.fst (key_of_lookup hv)
        simp [hkey, hstays]

theorem restamps_deleteTenantResource {n : Nat} (hc : c.WellFormed)
    (h : deleteTenantResource id tenantId t c = .ok (n, c')) : Restamps now c [t] c' := by
  obtain ⟨-, rfl⟩ | ⟨-, h⟩ := deleteTenantResource_ok h
  · exact Restamps.refl
  · exact restamps_removeResources hc h

theorem restamps_deleteTenant {n : Nat} (hc : c.WellFormed)
    (h : deleteTenant id t c = .ok (n, c')) : Restamps now c [t] c' := by
  obtain ⟨-, rfl⟩ | ⟨-, c₁, h₁, rfl⟩ := deleteTenant_ok h
  · exact Restamps.refl
  · have h₂ : Restamps now c₁ [] { c₁ with
        tenants := delete (fun x => x.id = id) c.tenants
        domains := delete (fun d => d.tenantId = id) c.domains } := restamps_of_eq rfl rfl rfl rfl
    have hremoved : Restamps now c [t] c₁ := restamps_removeResources hc h₁
    exact hremoved.append h₂

theorem restamps_upsertResourceValue {arg : UpsertResourceValueParams} {a : TenantResourceValue}
    (h : upsertResourceValue arg t c = .ok (a, c')) : Restamps now c [t] c' := by
  obtain ⟨-, -, -, -, vs, rfl, -⟩ := upsertResourceValue_ok h
  refine restamps_resources fun k => ?_
  rw [lookup_update (f := fun r : TenantResource => { r with updatedAt := t.clock }) fun _ => rfl]
  cases hk : lookup TenantResource.id k c.resources with
  | none => exact .inl ⟨rfl, fun _ h => by cases h⟩
  | some r =>
    have hrk : r.id = k := key_of_lookup hk
    by_cases hid : r.id = arg.tenantResourceId
    · refine .inr fun r' hr' => ?_
      obtain rfl : _ = r' := by simpa [hid] using hr'
      exact mem_stamps_clock
    · refine .inl ⟨by simp [hid], fun _ _ => funext fun fieldId => ?_⟩
      -- a value of another resource has another key
      have hne : (arg.tenantResourceId, arg.resourceFieldId) ≠ (k, fieldId) := fun he =>
        hid (hrk.trans (congrArg Prod.fst he).symm)
      exact (findValue_upsert h k fieldId).trans (if_neg hne.symm)

end resources

end Tenancit.Store
