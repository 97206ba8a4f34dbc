import Tenancit.Httpapi.Availability
import Tenancit.Lib.Locks

/-!
Value writes of consumers beside admin transactions. A write reads its tenant, its resource
and the fields for its checks, each for itself; then its transaction locks the resource,
reads the fields again and stores the value. Admin transactions that delete a field, add one
or change the status of a resource take effect between any two of these steps, unless they
wait for a row that a write has locked.
-/
namespace Tenancit.Httpapi.ConsumerWrites

open Encoding Crypto Store Service Queries Table

/-- How far a write has come. From `holding` on the row of its resource is locked for it. -/
inductive Session where
  | begun (slug resourceAlias fieldKey value : String)
  | foundTenant (tenant : Tenant) (resourceAlias fieldKey value : String)
  | foundResource (tenant : Tenant) (resource : TenantResource) (fieldKey value : String)
  | checked (in_ : UpdateResourceFieldInput)
  | holding (in_ : UpdateResourceFieldInput) (resource : TenantResource)
  | encoded (resource : TenantResource) (field : ResourceField) (arg : UpsertResourceValueParams)
  | written (resource : TenantResource) (field : ResourceField)
      (arg : UpsertResourceValueParams) (t : Tick)
  | ended

/-- The resource whose row the transaction of a write has locked. -/
def Session.held : Session → Option UUID
  | .holding _ resource => some resource.id
  | .encoded resource _ _ => some resource.id
  | .written resource _ _ _ => some resource.id
  | _ => none

/-- The field that a stored value refers to: its row cannot be deleted before the commit. -/
def Session.referred : Session → Option UUID
  | .written _ field _ _ => some field.id
  | _ => none

/-- The field a write has chosen, before it is referred to. -/
def Session.chosen : Session → Option UUID
  | .encoded _ field _ => some field.id
  | _ => none

variable {Key : Type} {aead : Aead Key}

/-- The next statement of a write on the store that is committed, or nothing where the
request fails. -/
def Session.advance (cryptor : Cryptor aead) (c : Catalog) (t : Tick) : Session → Option Session
  | .begun slug resourceAlias fieldKey value =>
    (getTenantBySlug slug c).toOption.map fun tenant =>
      .foundTenant tenant resourceAlias fieldKey value
  | .foundTenant tenant resourceAlias fieldKey value =>
    (getActiveResourceByTenantAndAlias tenant.id resourceAlias c).toOption.map fun resource =>
      .foundResource tenant resource fieldKey value
  | .foundResource tenant resource fieldKey value =>
    match lookup ResourceField.key fieldKey (fieldsOf c resource.resourceDefinitionId) with
    | none => none
    | some field =>
      if field.isSecret then none else some (.checked ⟨fieldKey, resource.id, tenant.id, value⟩)
  | .checked in_ => (getTenantResource in_.resourceId in_.tenantId c).toOption.map (.holding in_)
  | .holding in_ resource =>
    match lookup ResourceField.key in_.fieldKey (fieldsOf c resource.resourceDefinitionId) with
    | none => none
    | some field =>
      if (field.required = true ∧ in_.value = "") ∨
        validResourceValue field.dataType in_.value = false then none
      else (encodeValue cryptor field.isSecret in_.value [t] c).toOption.map fun r =>
        .encoded resource field { r.1 with
          tenantResourceId := resource.id, resourceFieldId := field.id }
  | .encoded resource field arg =>
    (upsertResourceValue arg t c).toOption.map fun _ => .written resource field arg t
  | _ => none

/-- The admin transactions beside the writes. -/
inductive AdminChange where
  | deleteField (definitionId fieldId : UUID)
  | addField (arg : AddFieldParams)
  | setResourceStatus (tenantId resourceId : UUID) (status : Status)

/-- What the transaction does to the catalogue, begun at `now`. -/
def AdminChange.apply (now : Timestamp) (ticks : List Tick) (c : Catalog) :
    AdminChange → Option Catalog
  | .deleteField definitionId fieldId =>
    (Change.deleteField definitionId fieldId ticks c).toOption.map (·.2.2)
  | .addField arg => (Change.addField arg ticks c).toOption.map (·.2.2)
  | .setResourceStatus tenantId resourceId status =>
    (Change.setResourceStatus tenantId resourceId status now ticks c).toOption.map (·.2.2)

/-- The transaction needs a row that is locked for the write. -/
def AdminChange.WaitsFor (s : Session) : AdminChange → Prop
  | .deleteField _ fieldId => s.referred = some fieldId
  | .addField _ => False
  | .setResourceStatus _ resourceId _ => s.held = some resourceId

instance (s : Session) : (a : AdminChange) → Decidable (a.WaitsFor s)
  | .deleteField _ fieldId => inferInstanceAs (Decidable (s.referred = some fieldId))
  | .addField _ => inferInstanceAs (Decidable False)
  | .setResourceStatus _ resourceId _ => inferInstanceAs (Decidable (s.held = some resourceId))

/-- The transaction would give a new field the identifier of one that the write has chosen. -/
def AdminChange.Collides (ticks : List Tick) (s : Session) : AdminChange → Prop
  | .addField _ => ∃ t ∈ ticks, s.chosen = some (t.ids 0)
  | _ => False

instance (ticks : List Tick) (s : Session) : (a : AdminChange) → Decidable (a.Collides ticks s)
  | .addField _ => inferInstanceAs (Decidable (∃ t ∈ ticks, s.chosen = some (t.ids 0)))
  | .deleteField _ _ => inferInstanceAs (Decidable False)
  | .setResourceStatus _ _ _ => inferInstanceAs (Decidable False)

/-- The committed store and the requests so far. -/
structure World where
  store : Catalog
  sessions : List Session := []

inductive Label where
  | request (slug resourceAlias fieldKey value : String)
  | statement (n : Nat) (t : Tick)
  | commit (n : Nat)
  | abort (n : Nat)
  | admin (a : AdminChange) (now : Timestamp) (ticks : List Tick)

/-- The resource whose row the next statement locks. -/
def Session.wants : Session → Option UUID
  | .checked in_ => some in_.resourceId
  | _ => none

/-- The next statement has to wait for another write. -/
def Session.Blocked (ss : List Session) (s : Session) : Prop :=
  ∃ s' ∈ ss, s.wants ≠ none ∧ s'.held = s.wants

instance (ss : List Session) (s : Session) : Decidable (s.Blocked ss) :=
  inferInstanceAs (Decidable (∃ s' ∈ ss, s.wants ≠ none ∧ s'.held = s.wants))

/-- One step. A request whose statement fails has ended; identifiers that are generated are new. -/
def step (cryptor : Cryptor aead) (w : World) : Label → Option World
  | .request slug resourceAlias fieldKey value =>
    if slug = "" ∨ resourceAlias = "" ∨ fieldKey = "" then none
    else some { w with sessions := w.sessions ++ [.begun slug resourceAlias fieldKey value] }
  | .statement n t => match w.sessions[n]? with
    | none | some .ended | some (.written _ _ _ _) => none
    | some s =>
      if s.Blocked w.sessions then none
      else some { w with sessions := w.sessions.set n ((s.advance cryptor w.store t).getD .ended) }
  | .commit n => match w.sessions[n]? with
    | some (.written _ _ arg t) => (upsertResourceValue arg t w.store).toOption.map fun r =>
        ⟨r.2, w.sessions.set n .ended⟩
    | _ => none
  | .abort n => some { w with sessions := w.sessions.set n .ended }
  | .admin a now ticks =>
    if ∃ s ∈ w.sessions, a.WaitsFor s ∨ a.Collides ticks s then none
    else (a.apply now ticks w.store).map fun c => { w with store := c }

/-- The value of a write belongs to an active resource and to a field that is not secret. -/
def Clean (c : Catalog) (arg : UpsertResourceValueParams) : Prop :=
  ∃ v ∈ c.values, valueKey v = (arg.tenantResourceId, arg.resourceFieldId) ∧
    (∃ f ∈ c.fields, f.id = v.resourceFieldId ∧ f.isSecret = false) ∧
    ∃ r ∈ c.resources, r.id = v.tenantResourceId ∧ r.status = .active

/-- What the rows read by the transaction of a write are in the store. -/
def Session.Reads (c : Catalog) : Session → Prop
  | .holding _ resource => resource ∈ c.resources
  | .encoded resource field arg =>
    resource ∈ c.resources ∧ (∀ f ∈ c.fields, f.id = field.id → f = field) ∧
    arg.tenantResourceId = resource.id ∧ arg.resourceFieldId = field.id
  | .written resource field arg _ => resource ∈ c.resources ∧ field ∈ c.fields ∧
    arg.tenantResourceId = resource.id ∧ arg.resourceFieldId = field.id
  | _ => True

/-- What holds in every state reached: no row is locked for two writes, and what the
transactions have read is still there. -/
structure Inv (w : World) : Prop where
  wellFormed : w.store.WellFormed
  exclusive : Locks.HeldOnce Session.held w.sessions
  reads : ∀ (n : Nat) (s : Session), w.sessions[n]? = some s → s.Reads w.store

section sessions

variable {cryptor : Cryptor aead} {c c' : Catalog} {t : Tick} {s s' : Session} {ss : List Session}
  {m n : Nat}

/-- The rows read stay read while the rows locked and referred to stay, and no row comes
under the identifier of one chosen. -/
theorem Session.Reads.of_kept (h : s.Reads c)
    (hresources : ∀ r ∈ c.resources, s.held = some r.id → r ∈ c'.resources)
    (hfields : ∀ f ∈ c.fields, s.referred = some f.id → f ∈ c'.fields)
    (hnew : ∀ f ∈ c'.fields, s.chosen = some f.id → f ∈ c.fields) : s.Reads c' := by
  cases s with
  | holding in_ resource => exact hresources _ h rfl
  | encoded resource field arg =>
    exact ⟨hresources _ h.1 rfl, fun f hf he =>
      h.2.1 f (hnew f hf (congrArg some he.symm)) he, h.2.2⟩
  | written resource field arg t => exact ⟨hresources _ h.1 rfl, hfields _ h.2.1 rfl, h.2.2⟩
  | _ => trivial

theorem getTenantResource_ok {id tenantId : UUID} {r : TenantResource}
    (h : getTenantResource id tenantId c = .ok r) : r ∈ c.resources ∧ r.id = id := by
  have hfound : findResource c id tenantId = some r := one_eq_ok.mp h
  have hkey := List.find?_some hfound
  exact ⟨List.mem_of_find?_eq_some hfound, of_decide_eq_true (Bool.and_eq_true_iff.mp hkey).1⟩

theorem toOption_eq_some {ε α : Type} {x : Except ε α} {a : α} :
    x.toOption = some a ↔ x = .ok a := by
  cases x <;> simp [Except.toOption]

/-- A statement reads rows that are there, and locks at most the row it waits for. -/
theorem Session.advance_spec (hc : c.WellFormed) (h : s.advance cryptor c t = some s')
    (hs : s.Reads c) :
    s'.Reads c ∧ (s'.held = s.held ∨ s'.held = s.wants) := by
  cases s with
  | begun slug resourceAlias fieldKey value =>
    obtain ⟨tenant, -, rfl⟩ := Option.map_eq_some_iff.mp h
    exact ⟨trivial, .inl rfl⟩
  | foundTenant tenant resourceAlias fieldKey value =>
    obtain ⟨resource, -, rfl⟩ := Option.map_eq_some_iff.mp h
    exact ⟨trivial, .inl rfl⟩
  | foundResource tenant resource fieldKey value =>
    simp only [advance] at h
    split at h
    · cases h
    · split at h
      · cases h
      · cases h
        exact ⟨trivial, .inl rfl⟩
  | checked in_ =>
    obtain ⟨resource, hres, rfl⟩ := Option.map_eq_some_iff.mp h
    obtain ⟨hmem, hid⟩ := getTenantResource_ok (toOption_eq_some.mp hres)
    exact ⟨hmem, .inr (congrArg some hid)⟩
  | holding in_ resource =>
    simp only [advance] at h
    split at h
    · cases h
    next field hfield =>
      split at h
      · cases h
      · obtain ⟨r, -, rfl⟩ := Option.map_eq_some_iff.mp h
        have hmem : field ∈ c.fields := (mem_fieldsOf.mp (mem_of_lookup hfield)).1
        exact ⟨⟨hs, fun f hf he => hc.fieldIds.eq_of_key hf hmem he, rfl, rfl⟩, .inl rfl⟩
  | encoded resource field arg =>
    obtain ⟨r, hput, rfl⟩ := Option.map_eq_some_iff.mp h
    obtain ⟨-, ⟨f, hf, hid⟩, -⟩ := upsertResourceValue_ok (toOption_eq_some.mp hput)
    obtain rfl := hs.2.1 f hf (hid.trans hs.2.2.2)
    exact ⟨⟨hs.1, hf, hs.2.2⟩, .inl rfl⟩
  | written | ended => cases h

end sessions

section admin

variable {a : AdminChange} {now : Timestamp} {ticks : List Tick} {c c' : Catalog} {s : Session}

/-- An admin transaction keeps the keys, and the rows that the writes have read unless it
had to wait for them. -/
theorem AdminChange.apply_spec (hc : c.WellFormed) (h : a.apply now ticks c = some c') :
    c'.WellFormed ∧
    ∀ s : Session, ¬a.WaitsFor s → ¬a.Collides ticks s → s.Reads c → s.Reads c' := by
  cases a with
  | deleteField definitionId fieldId =>
    obtain ⟨⟨f, ts', c₁⟩, hok, rfl⟩ := Option.map_eq_some_iff.mp h
    obtain ⟨_, ts₁, f₀, rfl, -, h₁⟩ := Program.Tx.query_bind_eq_ok.mp (toOption_eq_some.mp hok)
    obtain ⟨_, ts₂, c₂, hdelete, h₂⟩ := Program.Tx.bind_eq_ok.mp h₁
    cases Program.Tx.pure_eq_ok.mp h₂
    obtain ⟨t, ts₃, n, c₃, rfl, hremove, h₃⟩ := Program.Tx.statement_bind_eq_ok.mp hdelete
    obtain ⟨-, heq⟩ := Program.Tx.require_eq_ok.mp h₃
    cases heq
    refine ⟨hc.removeField hremove, fun s hwaits _ hs => ?_⟩
    rcases removeField_ok hremove with ⟨-, rfl⟩ | ⟨-, -, rfl⟩
    · exact hs
    refine hs.of_kept (fun r hr _ => hr) (fun f hf hreferred => mem_delete.mpr ⟨hf, ?_⟩)
      fun f hf _ => (mem_delete.mp hf).1
    have hne : f.id ≠ fieldId := fun he => hwaits (he ▸ hreferred)
    simp [hne]
  | addField arg =>
    obtain ⟨⟨f, ts', c₁⟩, hok, rfl⟩ := Option.map_eq_some_iff.mp h
    obtain ⟨t, rfl, hadd⟩ :=
      Program.Tx.statement_eq_ok.mp (Program.Tx.mapErr_eq_ok.mp (toOption_eq_some.mp hok))
    refine ⟨hc.addField hadd, fun s _ hcollides hs => ?_⟩
    obtain ⟨-, -, hf, rfl⟩ := addField_ok hadd
    refine hs.of_kept (fun r hr _ => hr) (fun f hf _ => List.mem_append_left _ hf)
      fun g hg hchosen => ?_
    rcases List.mem_append.mp hg with hg | hg
    · exact hg
    · obtain rfl := List.mem_singleton.mp hg
      rw [hf] at hchosen
      exact absurd ⟨t, .head _, hchosen⟩ hcollides
  | setResourceStatus tenantId resourceId status =>
    obtain ⟨⟨x, ts', c₁⟩, hok, rfl⟩ := Option.map_eq_some_iff.mp h
    obtain ⟨_, ts₁, previous, rfl, -, h₁⟩ :=
      Program.Tx.query_bind_eq_ok.mp (toOption_eq_some.mp hok)
    obtain ⟨t, ts₂, r, c₂, rfl, hset, h₂⟩ := Program.Tx.statement_bind_eq_ok.mp h₁
    cases Program.Tx.pure_eq_ok.mp h₂
    obtain ⟨_, -, -, rfl⟩ := setTenantResourceStatus_ok hset
    refine ⟨hc.updateResources (fun _ => rfl) (fun _ => rfl) (fun _ => rfl) fun _ =>
      rfl, fun s hwaits _ hs => ?_⟩
    refine hs.of_kept (fun r hr hheld => mem_update_of_not hr ?_)
      (fun f hf _ => hf) fun f hf _ => hf
    have hne : r.id ≠ resourceId := fun he => hwaits (he ▸ hheld)
    simp [hne]

end admin

section steps

variable {cryptor : Cryptor aead} {w w' : World} {n : Nat} {resource : TenantResource}
  {field : ResourceField} {arg : UpsertResourceValueParams} {t : Tick} {l : Label}

/-- A commit stores the value that the write has prepared. -/
theorem step_commit (h : step cryptor w (.commit n) = some w') : ∃ resource field arg t a c,
    w.sessions[n]? = some (.written resource field arg t) ∧
    upsertResourceValue arg t w.store = .ok (a, c) ∧
      w' = ⟨c, w.sessions.set n .ended⟩ := by
  simp only [step] at h
  split at h
  next resource field arg t hs =>
    obtain ⟨⟨a, c⟩, hput, rfl⟩ := Option.map_eq_some_iff.mp h
    exact ⟨resource, field, arg, t, a, c, hs, toOption_eq_some.mp hput, rfl⟩
  · cases h

/-- A request that has ended holds nothing, wherever it is put. -/
theorem Inv.finish (hw : Inv w) : Inv { w with sessions := w.sessions.set n .ended } where
  wellFormed := hw.wellFormed
  exclusive := hw.exclusive.set fun id hid => by cases hid
  reads := by
    intro m s hs
    rcases Locks.set_cases hs with ⟨-, rfl⟩ | ⟨-, hs⟩
    · trivial
    · exact hw.reads m s hs

/-- A session goes on: it keeps what it holds, or locks the row it wants, which nobody has. -/
theorem Inv.advance {s s' : Session} (hw : Inv w) (hs : w.sessions[n]? = some s)
    (hfree : ¬s.Blocked w.sessions) (h : s.advance cryptor w.store t = some s') :
    Inv { w with sessions := w.sessions.set n s' } := by
  obtain ⟨hreads, hheld'⟩ := Session.advance_spec hw.wellFormed h (hw.reads n s hs)
  refine ⟨hw.wellFormed, hw.exclusive.set fun id hid' m x hm hx hid => ?_, fun m x hx => ?_⟩
  -- whoever else holds a row does not hold that of the session
  · rcases hheld' with heq | heq
    · exact hm (hw.exclusive m n x s id hx hs hid (heq ▸ hid'))
    · have hwants : s.wants = some id := heq ▸ hid'
      exact hfree ⟨x, List.mem_of_getElem? hx, by simp [hwants], hid.trans hwants.symm⟩
  · rcases Locks.set_cases hx with ⟨-, rfl⟩ | ⟨-, hx⟩
    · exact hreads
    · exact hw.reads m x hx

theorem Inv.step (hw : Inv w) (h : step cryptor w l = some w') : Inv w' := by
  cases l with
  | request slug resourceAlias fieldKey value =>
    simp only [ConsumerWrites.step] at h
    split at h
    · cases h
    cases h
    refine ⟨hw.wellFormed, hw.exclusive.concat (fun id hid => by cases hid), fun m x hx => ?_⟩
    rcases Locks.concat_cases hx with ⟨-, rfl⟩ | ⟨-, hx⟩
    · trivial
    · exact hw.reads m x hx
  | statement n t =>
    simp only [ConsumerWrites.step] at h
    split at h
    · cases h
    · cases h
    · cases h
    next s _ _ hs =>
      split at h
      · cases h
      next hfree =>
        cases h
        cases hadvance : s.advance cryptor w.store t with
        | none => exact hw.finish
        | some s' => exact hw.advance hs hfree hadvance
  | commit n =>
    obtain ⟨resource, field, arg, t, a, c, hs, hput, rfl⟩ := step_commit h
    have hfinished : Inv { w with sessions := w.sessions.set n .ended } := hw.finish
    refine ⟨hw.wellFormed.upsertResourceValue hput, hfinished.exclusive, fun m x hx => ?_⟩
    have hx₀ := hfinished.reads m x hx
    obtain ⟨-, -, hkey, -, vs, rfl, -⟩ := upsertResourceValue_ok hput
    refine hx₀.of_kept (fun r hr hheld => mem_update_of_not hr ?_)
      (fun f hf _ => hf) fun f hf _ => hf
    -- the row touched is locked for the write that commits, not for another
    rcases Locks.set_cases hx with ⟨-, rfl⟩ | ⟨hm, hx⟩
    · cases hheld
    have hne : r.id ≠ arg.tenantResourceId := by
      intro he
      refine hm (hw.exclusive m n x _ r.id hx hs hheld ?_)
      exact congrArg some ((hw.reads n _ hs).2.2.1.symm.trans he.symm)
    simp [hne]
  | abort n =>
    cases h
    exact hw.finish
  | admin a now ticks =>
    simp only [ConsumerWrites.step] at h
    split at h
    · cases h
    next hfree =>
      obtain ⟨c, hc, rfl⟩ := Option.map_eq_some_iff.mp h
      obtain ⟨hwf, hkeeps⟩ := AdminChange.apply_spec hw.wellFormed hc
      refine ⟨hwf, hw.exclusive, fun m x hx => hkeeps x (fun hwaits => ?_) (fun hcollides =>
        ?_) (hw.reads m x hx)⟩
      · exact hfree ⟨x, List.mem_of_getElem? hx, .inl hwaits⟩
      · exact hfree ⟨x, List.mem_of_getElem? hx, .inr hcollides⟩

/-- A commit is clean if and only if the rows its transaction read are those of an active
resource and of a field that is not secret. -/
theorem commit_clean_iff (hw : Inv w) (h : ConsumerWrites.step cryptor w (.commit n) = some w')
    (hs : w.sessions[n]? = some (.written resource field arg t)) :
    Clean w'.store arg ↔ resource.status = .active ∧ field.isSecret = false := by
  obtain ⟨resource', field', arg', t', a, c, hs', hput, rfl⟩ := step_commit h
  cases hs.symm.trans hs'
  obtain ⟨hresource, hfield, hrid, hfid⟩ := hw.reads n _ hs
  obtain ⟨-, -, hkey, -, vs, rfl, hvs⟩ := upsertResourceValue_ok hput
  have hrow : a ∈ vs := by
    rcases hvs with ⟨v, hv, rfl, rfl⟩ | ⟨-, -, rfl⟩
    · exact mem_update.mpr ⟨v, mem_of_lookup hv, if_pos (decide_eq_true (key_of_lookup hv))⟩
    · exact List.mem_append_right _ (List.mem_singleton_self a)
  have htouched : ∀ r ∈ (touchResource arg.tenantResourceId t.clock { w.store with
    values := vs }).resources,
      r.id = arg.tenantResourceId → r.status = resource.status := by
    intro r hr hid
    obtain ⟨r₀, hr₀, rfl⟩ := mem_update.mp hr
    have hid₀ : r₀.id = resource.id := by
      split at hid <;> exact hid.trans hrid
    rw [hw.wellFormed.resourceIds.eq_of_key hr₀ hresource hid₀]
    split <;> rfl
  constructor
  · rintro ⟨v, -, hv, ⟨f, hf, hfv, hsecret⟩, r, hr, hrv, hactive⟩
    have hv₁ : v.tenantResourceId = arg.tenantResourceId := congrArg Prod.fst hv
    have hv₂ : v.resourceFieldId = arg.resourceFieldId := congrArg Prod.snd hv
    obtain rfl := hw.wellFormed.fieldIds.eq_of_key hf hfield (hfv.trans (hv₂.trans hfid))
    exact ⟨(htouched r hr (hrv.trans hv₁)).symm.trans hactive, hsecret⟩
  · rintro ⟨hactive, hsecret⟩
    have ha₁ : a.tenantResourceId = arg.tenantResourceId := congrArg Prod.fst hkey
    have ha₂ : a.resourceFieldId = arg.resourceFieldId := congrArg Prod.snd hkey
    refine ⟨a, hrow, hkey, ⟨field, hfield, hfid.symm.trans ha₂.symm, hsecret⟩, ?_⟩
    exact ⟨_, mem_update.mpr ⟨resource, hresource, if_pos (decide_eq_true hrid.symm)⟩,
      hrid.symm.trans ha₁.symm, hactive⟩

end steps

section runs

variable {cryptor : Cryptor aead} {xs : List (Served aead)} {d : Database} {ls : List Label}
  {w : World}

theorem inv_run (hd : Runs.Run Served.Step {} xs d)
    (h : Runs.Run (Runs.Steps (step cryptor)) ⟨d.domain.catalog, []⟩ ls w) : Inv w := by
  refine h.invariant (P := Inv) (fun _ _ _ hw hstep => hw.step hstep) ⟨(named_run hd).toWellFormed,
    Locks.heldOnce_nil, ?_⟩
  intro n s hs
  cases hs

end runs

end Tenancit.Httpapi.ConsumerWrites
