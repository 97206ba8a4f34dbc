import Tenancit.Httpapi.Names
import Tenancit.Values.Agreement

/-!
The links of resources to their sources, under statements of requests that interleave. An
insert reads the source in its trigger and adds the row later; in between any other statement
may take effect. What the trigger read still holds then, because no statement changes the
tenant, the definition or the source of a resource, and the foreign key finds a source that
was deleted.
-/
namespace Tenancit.Store.Queries

open Encoding Table

variable {now : Timestamp} {arg : CreateTenantResourceParams} {t : Tick} {c c' : Catalog}
  {r : TenantResource}

/-- The insert of a resource after its trigger: the checks of the row, its keys, and the
references, that to the source among them. -/
def insertTenantResource (now : Timestamp) (arg : CreateTenantResourceParams) (t : Tick)
    (c : Catalog) : Except PgError (TenantResource × Catalog) :=
  let row : TenantResource := ⟨t.ids 0, arg.tenantId, arg.resourceDefinitionId, .active, now, now,
    arg.resourceAlias, arg.sourceResourceId, arg.displayName⟩
  if ¬ResourceNamesOk row.resourceAlias row.displayName ∨ row.sourceResourceId = some row.id then
    .error .checkViolation
  else if ∃ r ∈ c.resources, r.id = row.id ∨
      r.tenantId = row.tenantId ∧ aliasKey r.resourceAlias = aliasKey row.resourceAlias then
    .error .uniqueViolation
  else if (¬∃ x ∈ c.tenants, x.id = row.tenantId) ∨
    (¬∃ d ∈ c.definitions, d.id = row.resourceDefinitionId) ∨
      ∃ id ∈ row.sourceResourceId, ¬∃ source ∈ c.resources, source.id = id then
    .error .foreignKeyViolation
  else .ok (row, { c with resources := c.resources ++ [row] })

theorem SourceValid.exists {tenantId definitionId : UUID} {source : Option UUID}
    (h : SourceValid c tenantId definitionId source) :
    ∀ id ∈ source, ∃ s ∈ c.resources, s.id = id := by
  intro id hid
  rw [Option.mem_def.mp hid] at h
  obtain ⟨s, hs, -⟩ := h
  exact ⟨s, mem_of_lookup hs, key_of_lookup hs⟩

/-- Where nothing comes between, the statement is its trigger and the insert. -/
theorem createTenantResource_eq : createTenantResource now arg t c =
    if SourceValid c arg.tenantId arg.resourceDefinitionId arg.sourceResourceId
      then insertTenantResource now arg t c
    else .error .checkViolation := by
  by_cases hsource : SourceValid c arg.tenantId arg.resourceDefinitionId arg.sourceResourceId
  · have hexists : ¬∃ id ∈ arg.sourceResourceId, ¬∃ source ∈ c.resources, source.id = id := by
      rintro ⟨id, hid, hnone⟩
      exact hnone (hsource.exists id hid)
    simp only [createTenantResource, insertTenantResource, hsource, hexists,
      not_true_eq_false, or_false, if_true,
      if_false]
  · simp only [createTenantResource, hsource, not_false_eq_true, if_true, if_false]

theorem insertTenantResource_ok (h : insertTenantResource now arg t c = .ok (r, c')) :
    r.id = t.ids 0 ∧ c' = { c with resources := c.resources ++ [r] } := by
  simp only [insertTenantResource, ite_error_eq_ok, Except.ok.injEq, Prod.mk.injEq] at h
  obtain ⟨-, -, -, rfl, rfl⟩ := h
  exact ⟨rfl, rfl⟩

/-- An insert finds the source there, by its foreign key. -/
theorem insertTenantResource_source (h : insertTenantResource now arg t c = .ok (r, c')) :
    ∀ id, arg.sourceResourceId = some id → ∃ source ∈ c.resources, source.id = id := by
  simp only [insertTenantResource, ite_error_eq_ok, not_or] at h
  obtain ⟨-, -, ⟨-, -, hsource⟩, -⟩ := h
  intro id hid
  by_contra hnone
  exact hsource ⟨id, hid, hnone⟩

/-- The source of another resource of the schema is not deleted. -/
theorem deleteTenantResource_source {id tenantId : UUID} (hc : c.WellFormed) (hr : r ∈ c.resources)
    (hsource : r.sourceResourceId = some id) :
    deleteTenantResource id tenantId t c = .ok (0, c) ∨
      deleteTenantResource id tenantId t c = .error .foreignKeyViolation := by
  unfold deleteTenantResource
  cases hfound : findResource c id tenantId with
  | none => exact .inl rfl
  | some x =>
    obtain ⟨hx, hid, htenant⟩ := findResource_some hfound
    obtain ⟨s, hs, hsid, -, -, hroot⟩ := hc.resourceSource r hr id hsource
    have hgone : Gone (fun r => r.id = id && r.tenantId = tenantId) c id :=
      ⟨x, hx, by simp [hid, htenant], hid⟩
    have hstays : r.id ≠ id := by
      intro heq
      obtain rfl := hc.resourceIds.eq_of_key hr hs (heq.trans hsid.symm)
      rw [hroot] at hsource
      cases hsource
    refine .inr ?_
    have hblocked : ∃ r ∈ c.resources,
      (decide (r.id = id) && decide (r.tenantId = tenantId)) = false ∧
        ∃ s, r.sourceResourceId = some s ∧ Gone (fun r => r.id = id && r.tenantId = tenantId) c s :=
      ⟨r, hr, by simp [hstays], id, hsource, hgone⟩
    simp only [removeResources, if_pos hblocked]
    rfl

end Tenancit.Store.Queries

namespace Tenancit.Httpapi

open Encoding Crypto Store Service Queries Table
open Values (resourceKey)

variable {now : Timestamp} {t : Tick} {c c' c'' : Catalog} {ids ids' : List UUID}

/-- Every resource was there before, with the same tenant, definition and source, or was
created under one of the identifiers drawn. -/
def Grows (c : Catalog) (ids : List UUID) (c' : Catalog) : Prop :=
  ∀ r' ∈ c'.resources, (∃ r ∈ c.resources, resourceKey r = resourceKey r') ∨ r'.id ∈ ids

theorem Grows.refl (c : Catalog) : Grows c ids c := fun r hr => .inl ⟨r, hr, rfl⟩

theorem Grows.trans (h : Grows c ids c') (h' : Grows c' ids' c'') : Grows c (ids ++ ids') c'' := by
  intro r'' hr''
  rcases h' r'' hr'' with ⟨r', hr', hkey'⟩ | hnew
  · rcases h r' hr' with ⟨r, hr, hkey⟩ | hnew
    · exact .inl ⟨r, hr, hkey.trans hkey'⟩
    · have hid : r'.id = r''.id := congrArg Prod.fst hkey'
      exact .inr (List.mem_append_left _ (hid ▸ hnew))
  · exact .inr (List.mem_append_right _ hnew)

theorem Grows.of_subset (h : ∀ r ∈ c'.resources, r ∈ c.resources) : Grows c ids c' :=
  fun r hr => .inl ⟨r, h r hr, rfl⟩

theorem Grows.of_update {p : TenantResource → Bool} {set : TenantResource → TenantResource}
    (h : c'.resources = update p set c.resources)
    (hset : ∀ r, resourceKey (set r) = resourceKey r) : Grows c ids c' := by
  intro r' hr'
  rw [h] at hr'
  obtain ⟨r, hr, rfl⟩ := mem_update.mp hr'
  refine .inl ⟨r, hr, ?_⟩
  split
  · exact (hset r).symm
  · rfl

theorem Grows.of_append {r : TenantResource} (h : c'.resources = c.resources ++ [r])
    (hr : r.id ∈ ids) : Grows c ids c' := by
  intro r' hr'
  rw [h] at hr'
  rcases List.mem_append.mp hr' with hr' | hr'
  · exact .inl ⟨r', hr', rfl⟩
  · exact .inr (List.mem_singleton.mp hr' ▸ hr)

theorem Grows.of_removeResources {p : TenantResource → Bool} (h : removeResources p c = .ok c') :
    Grows c ids c' := by
  obtain ⟨-, rfl⟩ := removeResources_ok h
  exact .of_subset fun r hr => (mem_delete.mp hr).1

/-- What a statement does to the tenants, definitions and sources of resources. -/
theorem Statement.grows (h : Statement now t c c') : Grows c [t.ids 0] c' := by
  cases h with
  | createTenant hb h =>
    obtain ⟨-, -, rfl⟩ := createTenant_ok h
    exact .of_subset fun _ hr => hr
  | updateTenant hb h =>
    obtain ⟨_, -, -, -, rfl⟩ := updateTenant_ok h
    exact .of_subset fun _ hr => hr
  | deleteTenant h =>
    obtain ⟨-, rfl⟩ | ⟨-, c₁, hremove, rfl⟩ := deleteTenant_ok h
    · exact .of_subset fun _ hr => hr
    · exact fun r hr => Grows.of_removeResources hremove r hr
  | addTenantDomain h =>
    obtain ⟨-, rfl⟩ := addTenantDomain_ok h
    exact .of_subset fun _ hr => hr
  | updateTenantDomain h =>
    obtain ⟨-, -, rfl⟩ := updateTenantDomain_ok h
    exact .of_subset fun _ hr => hr
  | removeTenantDomain h =>
    obtain rfl := removeTenantDomain_ok h
    exact .of_subset fun _ hr => hr
  | createDefinition hb h =>
    obtain ⟨-, -, rfl⟩ := createDefinition_ok h
    exact .of_subset fun _ hr => hr
  | updateDefinition h | setDefinitionStatus h =>
    obtain ⟨_, -, -, rfl⟩ := changeDefinition_ok h
    exact .of_subset fun _ hr => hr
  | deleteDefinition h =>
    obtain ⟨-, rfl⟩ | ⟨-, -, -, rfl⟩ := deleteDefinition_ok h <;> exact .of_subset fun _ hr => hr
  | addField h =>
    obtain ⟨-, -, -, rfl⟩ := addField_ok h
    exact .of_subset fun _ hr => hr
  | updateField h =>
    obtain ⟨_, -, -, rfl⟩ := updateField_ok h
    exact .of_subset fun _ hr => hr
  | removeField h =>
    obtain ⟨-, rfl⟩ | ⟨-, -, rfl⟩ := removeField_ok h <;> exact .of_subset fun _ hr => hr
  | createTenantResource h =>
    obtain ⟨-, -, -, -, ha, rfl⟩ := createTenantResource_ok h
    exact .of_append rfl (by simp [ha])
  | updateTenantResourceIdentity h =>
    obtain ⟨_, -, -, rfl⟩ := updateTenantResourceIdentity_ok h
    exact .of_update rfl fun _ => rfl
  | setTenantResourceStatus h =>
    obtain ⟨_, -, -, rfl⟩ := setTenantResourceStatus_ok h
    exact .of_update rfl fun _ => rfl
  | deleteTenantResource h =>
    obtain ⟨-, rfl⟩ | ⟨-, hremove⟩ := deleteTenantResource_ok h
    · exact .of_subset fun _ hr => hr
    · exact .of_removeResources hremove
  | upsertResourceValue h =>
    obtain ⟨-, -, -, -, vs, rfl, -⟩ := upsertResourceValue_ok h
    exact .of_update rfl fun _ => rfl

theorem grows_statements :
    KeptByStatements fun _ c used c' => Grows c (used.map fun t => t.ids 0) c' where
  composes _ := ⟨fun c => .refl c, fun h h' => by
    rw [List.map_append]
    exact h.trans h'⟩
  reads _ _ c := .refl c
  statements := Statement.grows

theorem Takes.grows (h : Takes now t c c') : Grows c [t.ids 0] c' := by
  cases h with
  | statement h => exact h.grows
  | clear h =>
    obtain rfl := deleteResourceValue_ok h
    exact .of_subset fun _ hr => hr
  | rewrap h =>
    cases h
    exact .of_subset fun _ hr => hr

/-- The catalogue, the identifiers drawn so far, and the inserts between their trigger and
their row. -/
structure Concurrent where
  catalog : Catalog := {}
  drawn : List UUID := []
  inserting : List (Timestamp × CreateTenantResourceParams) := []

inductive Move where
  | take (now : Timestamp) (t : Tick)
  | check (now : Timestamp) (arg : CreateTenantResourceParams)
  | insert (k : Nat) (t : Tick)

/-- One move of the statements in progress; `gen_random_uuid()` gives no identifier twice. A
transaction that is rolled back leaves no trace: its insert stays between trigger and row. -/
inductive Concurrent.Step (s : Concurrent) : Move → Concurrent → Prop
  | take {now : Timestamp} {t : Tick} {c' : Catalog} (hfresh : t.ids 0 ∉ s.drawn)
      (h : Takes now t s.catalog c') :
      Step s (.take now t) ⟨c', t.ids 0 :: s.drawn, s.inserting⟩
  | check {now : Timestamp} {arg : CreateTenantResourceParams}
      (h : SourceValid s.catalog arg.tenantId arg.resourceDefinitionId arg.sourceResourceId) :
      Step s (.check now arg) { s with inserting := s.inserting ++ [(now, arg)] }
  | insert {now : Timestamp} {arg : CreateTenantResourceParams} {k : Nat}
      {t : Tick} {r : TenantResource}
      {c' : Catalog} (hk : s.inserting[k]? = some (now, arg)) (hfresh : t.ids 0 ∉ s.drawn)
      (h : insertTenantResource now arg t s.catalog = .ok (r, c')) :
      Step s (.insert k t) ⟨c', t.ids 0 :: s.drawn, s.inserting.eraseIdx k⟩

namespace Concurrent

variable {s s' : Concurrent} {m : Move} {ms : List Move}

/-- The keys hold, and what a trigger read of a source still holds of the source. -/
structure Linked (s : Concurrent) : Prop where
  named : s.catalog.Named
  drawn : ∀ r ∈ s.catalog.resources, r.id ∈ s.drawn
  checked : ∀ x ∈ s.inserting, ∀ id, x.2.sourceResourceId = some id → id ∈ s.drawn ∧
    ∀ r ∈ s.catalog.resources, r.id = id → r.tenantId = x.2.tenantId ∧
      r.resourceDefinitionId = x.2.resourceDefinitionId ∧ r.sourceResourceId = none

theorem Linked.empty : Linked {} where
  named := .empty
  drawn := by simp
  checked := by simp

/-- The source that the foreign key finds is the one the trigger read. -/
theorem Linked.sourceValid {arg : CreateTenantResourceParams} {r : TenantResource} (hs : s.Linked)
    (hmem : (now, arg) ∈ s.inserting) (h : insertTenantResource now arg t s.catalog = .ok (r, c')) :
    SourceValid s.catalog arg.tenantId arg.resourceDefinitionId arg.sourceResourceId := by
  have hfound := insertTenantResource_source h
  have hchecked := hs.checked _ hmem
  cases hsource : arg.sourceResourceId with
  | none => trivial
  | some id =>
    obtain ⟨x, hx, hid⟩ := hfound id hsource
    exact ⟨x, (lookup_eq_some hs.named.resourceIds).mpr ⟨hx, hid⟩, (hchecked id hsource).2 x hx hid⟩

/-- What an insert does after its trigger, the whole statement does. -/
theorem Linked.createTenantResource {arg : CreateTenantResourceParams} {r : TenantResource}
    (hs : s.Linked) (hmem : (now, arg) ∈ s.inserting)
    (h : insertTenantResource now arg t s.catalog = .ok (r, c')) :
    Queries.createTenantResource now arg t s.catalog = .ok (r, c') := by
  rw [createTenantResource_eq, if_pos (hs.sourceValid hmem h), h]

/-- The rows and the open inserts of a state whose catalogue has grown. -/
theorem Linked.grow (hs : s.Linked) (hnamed : c'.Named) (hgrows : Grows s.catalog ids c')
    (hfresh : ∀ id ∈ ids, id ∉ s.drawn) {inserting : List (Timestamp × CreateTenantResourceParams)}
    (hsub : ∀ x ∈ inserting, x ∈ s.inserting) : Linked ⟨c', ids ++ s.drawn, inserting⟩ where
  named := hnamed
  drawn := by
    intro r' hr'
    rcases hgrows r' hr' with ⟨r, hr, hkey⟩ | hnew
    · simp only [resourceKey, Prod.mk.injEq] at hkey
      exact List.mem_append_right _ (hkey.1 ▸ hs.drawn r hr)
    · exact List.mem_append_left _ hnew
  checked := by
    intro x hx source hsource
    obtain ⟨hdrawn, hrows⟩ := hs.checked x (hsub x hx) source hsource
    refine ⟨List.mem_append_right _ hdrawn, fun r' hr' hid => ?_⟩
    rcases hgrows r' hr' with ⟨r, hr, hkey⟩ | hnew
    · simp only [resourceKey, Prod.mk.injEq] at hkey
      obtain ⟨hid', htenant, hdef, hsrc⟩ := hkey
      rw [← htenant, ← hdef, ← hsrc]
      exact hrows r hr (hid'.trans hid)
    · -- none of the identifiers drawn was that of the source
      exact absurd (hid ▸ hdrawn) (hfresh _ hnew)

theorem Linked.step (hs : s.Linked) (h : Step s m s') : s'.Linked := by
  cases h with
  | take hfresh h => exact hs.grow (h.named hs.named) h.grows (by simpa using hfresh) fun _ hx => hx
  | @check now arg h =>
    refine ⟨hs.named, hs.drawn, fun x hx id hid => ?_⟩
    rcases List.mem_append.mp hx with hx | hx
    · exact hs.checked x hx id hid
    · obtain rfl := List.mem_singleton.mp hx
      rw [show arg.sourceResourceId = some id from hid] at h
      obtain ⟨source, hsource, hrest⟩ := h
      obtain ⟨hmem, rfl⟩ := (lookup_eq_some hs.named.resourceIds).mp hsource
      refine ⟨hs.drawn source hmem, fun r hr hrid => ?_⟩
      obtain rfl := hs.named.resourceIds.eq_of_key hr hmem hrid
      exact hrest
  | insert hk hfresh h =>
    have hstatement :=
      Statement.createTenantResource (hs.createTenantResource (List.mem_of_getElem? hk) h)
    exact hs.grow (hstatement.named hs.named) hstatement.grows (by simpa using hfresh) fun _ hx =>
      List.mem_of_mem_eraseIdx hx

theorem Linked.run (hs : s.Linked) (h : Runs.Run Step s ms s') : s'.Linked :=
  h.invariant (fun _ _ _ hs hstep => hs.step hstep) hs

theorem linked_run (h : Runs.Run Step {} ms s) : s.Linked := Linked.empty.run h

/-- A step keeps the tenant, the definition and the source of the resources it leaves, and
gives no identifier drawn before to a new one. -/
theorem Step.persists (h : Step s m s') : (∀ id ∈ s.drawn, id ∈ s'.drawn) ∧
    ∀ r' ∈ s'.catalog.resources,
    (∃ r ∈ s.catalog.resources, resourceKey r = resourceKey r') ∨ r'.id ∉ s.drawn := by
  cases h with
  | @take now t c' hfresh h =>
    refine ⟨fun id hid => .tail _ hid, fun r' hr' => ?_⟩
    rcases h.grows r' hr' with hold | hnew
    · exact .inl hold
    · exact .inr (List.mem_singleton.mp hnew ▸ hfresh)
  | check h => exact ⟨fun id hid => hid, fun r hr => .inl ⟨r, hr, rfl⟩⟩
  | @insert now arg k t r c' hk hfresh h =>
    obtain ⟨hid, rfl⟩ := insertTenantResource_ok h
    refine ⟨fun id hid => .tail _ hid, fun r' hr' => ?_⟩
    rcases List.mem_append.mp hr' with hr' | hr'
    · exact .inl ⟨r', hr', rfl⟩
    · rw [List.mem_singleton.mp hr', hid]
      exact .inr hfresh

/-- What stays across a run. -/
theorem persists_run (h : Runs.Run Step s ms s') : (∀ id ∈ s.drawn, id ∈ s'.drawn) ∧
    ∀ r' ∈ s'.catalog.resources,
    (∃ r ∈ s.catalog.resources, resourceKey r = resourceKey r') ∨ r'.id ∉ s.drawn := by
  induction h with
  | nil s => exact ⟨fun id hid => hid, fun r hr => .inl ⟨r, hr, rfl⟩⟩
  | cons hstep hrun ih =>
    obtain ⟨hdrawn, hrows⟩ := hstep.persists
    obtain ⟨hdrawn', hrows'⟩ := ih
    refine ⟨fun id hid => hdrawn' id (hdrawn id hid), fun r' hr' => ?_⟩
    rcases hrows' r' hr' with ⟨r, hr, hkey⟩ | hnew
    · rcases hrows r hr with ⟨r₀, hr₀, hkey₀⟩ | hnew
      · exact .inl ⟨r₀, hr₀, hkey₀.trans hkey⟩
      · simp only [resourceKey, Prod.mk.injEq] at hkey
        exact .inr (hkey.1 ▸ hnew)
    · exact .inr fun hid => hnew (hdrawn _ hid)

/-- A resource of a linked state that is still there has the key it had. -/
theorem Linked.resourceKey_eq (hs : s.Linked) (h : Runs.Run Step s ms s') {r r' : TenantResource}
    (hr : r ∈ s.catalog.resources) (hr' : r' ∈ s'.catalog.resources) (hid : r'.id = r.id) :
    resourceKey r' = resourceKey r := by
  rcases (persists_run h).2 r' hr' with ⟨x, hx, hkey⟩ | hnew
  · have hxid : x.id = r'.id := congrArg Prod.fst hkey
    obtain rfl := hs.named.resourceIds.eq_of_key hx hr (hxid.trans hid)
    exact hkey.symm
  · exact absurd (hid ▸ hs.drawn r hr) hnew

end Concurrent

section requests

variable {Key : Type} {aead : Aead Key} {d : Database}

/-- A request to delete the source of another resource changes nothing. -/
theorem deleteResource_source {x : Served aead} {request : AdminRequest} {tenantId : Option UUID}
    {id : UUID} {r : TenantResource} (hx : x.request = .deleteResource request tenantId (some id))
    (hd : d.domain.catalog.WellFormed) (hr : r ∈ d.domain.catalog.resources)
    (hsource : r.sourceResourceId = some id) : x.after d = d := by
  refine Served.rolled_back ?_
  by_contra hc
  obtain ⟨res, ts', hok⟩ := Served.committed (Bool.not_eq_false _ ▸ hc)
  rw [hx] at hok
  obtain ⟨tenantId, -, h₁⟩ := Program.Tx.ofExcept_bind_eq_ok.mp hok
  obtain ⟨_, hid, h₂⟩ := Program.Tx.ofExcept_bind_eq_ok.mp h₁
  cases hid
  obtain ⟨begun, pre, a, ts, ts₁, ts₂, -, -, hchange, -⟩ :=
    auditedMutation_ok (fun _ => Reads.pure _) h₂
  obtain ⟨c', hdelete, -⟩ := Program.Tx.onPart_eq_ok.mp hchange
  obtain ⟨t₁, ts₃, resource, -, -, h₃⟩ := Program.Tx.query_bind_eq_ok.mp hdelete
  obtain ⟨_, ts₄, c₄, hone, -⟩ := Program.Tx.bind_eq_ok.mp h₃
  obtain ⟨t₂, ts₅, n, c₅, -, hn, h₅⟩ := Program.Tx.statement_bind_eq_ok.mp hone
  obtain ⟨hne, -⟩ := Program.Tx.require_eq_ok.mp h₅
  rcases deleteTenantResource_source hd hr hsource with hnone | herror
  · cases hnone.symm.trans hn
    exact hne rfl
  · cases herror.symm.trans hn

end requests

/-- Whatever statements have taken effect in whatever order, a resource's source is another
resource of its tenant and its definition that has no source itself; it is the source the
resource was created with; and a request to delete it changes nothing. -/
theorem sources_linked {Key : Type} {aead : Aead Key} {ms : List Move} {s : Concurrent}
    (h : Runs.Run Concurrent.Step {} ms s) :
    (∀ r ∈ s.catalog.resources, ∀ id, r.sourceResourceId = some id → id ≠ r.id ∧
      ∃ source ∈ s.catalog.resources, source.id = id ∧ source.tenantId = r.tenantId ∧
        source.resourceDefinitionId = r.resourceDefinitionId ∧ source.sourceResourceId = none) ∧
    (∀ ms' s', Runs.Run Concurrent.Step s ms' s' → ∀ r ∈ s.catalog.resources,
      ∀ r' ∈ s'.catalog.resources, r'.id = r.id → r'.sourceResourceId = r.sourceResourceId) ∧
    ∀ r ∈ s.catalog.resources, ∀ id, r.sourceResourceId = some id →
      (∀ tenantId t, Queries.deleteTenantResource id tenantId t s.catalog = .ok (0, s.catalog) ∨
        Queries.deleteTenantResource id tenantId t s.catalog = .error .foreignKeyViolation) ∧
      ∀ (server : Server aead) (request : AdminRequest) (tenantId : Option UUID)
      (ticks : List Tick) (d : Database),
        d.domain.catalog = s.catalog →
          (serve server (.deleteResource request tenantId (some id)) ticks d).store = d := by
  have hs := Concurrent.linked_run h
  have hwf := hs.named.toWellFormed
  refine ⟨?_, ?_, ?_⟩
  · intro r hr id hid
    obtain ⟨source, hmem, hsid, htenant, hdef, hroot⟩ := hwf.resourceSource r hr id hid
    refine ⟨?_, source, hmem, hsid, htenant, hdef, hroot⟩
    intro hself
    obtain rfl := hwf.resourceIds.eq_of_key hmem hr (hsid.trans hself)
    rw [hroot] at hid
    cases hid
  · intro ms' s' hrun r hr r' hr' hid
    have hkey := hs.resourceKey_eq hrun hr hr' hid
    simp only [resourceKey, Prod.mk.injEq] at hkey
    exact hkey.2.2.2
  · intro r hr id hid
    refine ⟨fun tenantId t => deleteTenantResource_source hwf hr hid, ?_⟩
    intro server request tenantId ticks d hd
    exact deleteResource_source (x := ⟨server, .deleteResource request tenantId (some id),
      ticks⟩) rfl (hd ▸ hwf)
      (hd ▸ hr) hid

section sample

def sampleDraw (n : Nat) : Tick := ⟨n, fun _ => Fin.ofNat _ n, fun _ => 0, .plain⟩

def sampleInsert (resourceAlias : String) (source : Option UUID) : CreateTenantResourceParams :=
  ⟨1, 2, resourceAlias, resourceAlias, source⟩

/-- A tenant, a definition and two resources; the second one's trigger read the first one as its
source, which was made inactive before the row was added. -/
def sampleLinked : Concurrent where
  catalog :=
    { tenants := [⟨1, "acme", "Acme", .active, 0, 0⟩]
      definitions := [⟨2, "db", "DB", "", "", .active, 0, 0⟩]
      resources :=
        [⟨3, 1, 2, .inactive, 0, 4, "main", none, "main"⟩,
         ⟨5, 1, 2, .active, 5, 5, "copy", some 3, "copy"⟩] }
  drawn := [5, 4, 3, 2, 1]

theorem sampleLinked_run : Runs.Run Concurrent.Step {}
    [.take 0 (sampleDraw 1), .take 0 (sampleDraw 2), .take 0 (sampleDraw 3),
      .check 5 (sampleInsert "copy" (some 3)),
      .take 4 (sampleDraw 4), .insert 0 (sampleDraw 5)] sampleLinked := by
  have htenant : checkCreateTenant ⟨"acme", "Acme"⟩ = .ok ⟨"acme", "Acme"⟩ := rfl
  have hdefinition : checkCreateDefinition ⟨"db", "DB", "", ""⟩ = .ok ⟨"db", "DB", "", ""⟩ := rfl
  refine .cons (.take (by decide) (.statement (.createTenant htenant rfl))) ?_
  refine .cons (.take (by decide) (.statement (.createDefinition hdefinition rfl))) ?_
  refine .cons (.take (by decide) (.statement (.createTenantResource
    (show Queries.createTenantResource 0 (sampleInsert "main" none) _ _ = .ok (_, _) from rfl)))) ?_
  refine .cons (.check ⟨_, rfl, rfl, rfl, rfl⟩) ?_
  refine .cons (.take (by decide) (.statement
    (.setTenantResourceStatus (show Queries.setTenantResourceStatus 4 3 1 .inactive _ _ =
      .ok (_, _) from rfl)))) ?_
  have hnames : ResourceNamesOk "copy" "copy" := by decide +kernel
  have halias : aliasKey "main" ≠ aliasKey "copy" := by decide +kernel
  refine .cons (.insert (r := ⟨5, 1, 2, .active, 5, 5, "copy", some 3, "copy"⟩) rfl (by decide) ?_)
    (.nil _)
  simp [insertTenantResource, sampleInsert, sampleDraw, changeResource, update, hnames, halias]
  rfl

theorem sources_linked_sample :
    Queries.deleteTenantResource 3 1 (sampleDraw 6) sampleLinked.catalog =
      .ok (0, sampleLinked.catalog) ∨
      Queries.deleteTenantResource 3 1 (sampleDraw 6) sampleLinked.catalog =
        .error .foreignKeyViolation :=
  ((@sources_linked _ Aead.tagged _ _ sampleLinked_run).2.2 _ (.tail _ (.head _)) 3 rfl).1 1
    (sampleDraw 6)

end sample

end Tenancit.Httpapi
