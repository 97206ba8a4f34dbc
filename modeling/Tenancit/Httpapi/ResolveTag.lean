import Tenancit.Httpapi.TagChanges

/-!
The resolve tag over runs of requests: as long as no override that stands is cleared, equal
tags mean equal configurations, and `304` is answered only to a client that holds the
current one.
-/
namespace Tenancit.Httpapi

open Encoding Crypto Store Service Queries
open Program

variable {Key : Type} {aead : Aead Key} {ticks ts' : List Tick} {d d' : Database} {c c' : Catalog}

/-- The nanosecond readings of the clock that ticks stand for. -/
def readings (ticks : List Tick) : List Int := ticks.map fun t => Timestamp.unixNano t.clock

/-- What a request does to the catalogue, where its readings are the stamps it may give. -/
def TagStep (ticks : List Tick) (c c' : Catalog) : Prop :=
  TagReady c → TagReady c' ∧ Stamps.Moves Catalog.shown c (readings ticks) c'

theorem TagStep.refl : TagStep ticks c c := fun h => ⟨h, Stamps.Moves.refl _ _⟩

theorem KeepsTags.tagStep {begun : Tick} {used : List Tick} (hbegun : begun ∈ ticks)
    (hused : ∀ t ∈ used, t ∈ ticks) (h : KeepsTags begun.clock c used c') : TagStep ticks c c' := by
  intro hc
  obtain ⟨hc', hmoves⟩ := h hc
  refine ⟨hc', hmoves.mono fun a ha => ?_⟩
  rcases List.mem_cons.mp ha with rfl | ha
  · exact List.mem_map_of_mem hbegun
  · obtain ⟨t, ht, rfl⟩ := List.mem_map.mp ha
    exact List.mem_map_of_mem (hused t ht)

/-- What is kept from the start of a request is a step of the tags. -/
theorem KeepsTags.kept (h : Kept @KeepsTags ticks c c') : TagStep ticks c c' := by
  obtain ⟨begun, hbegun, used, hused, hkeeps⟩ := h
  exact hkeeps.tagStep hbegun hused

/-- The resource has a value of its own for the field. -/
def OverrideStands (c : Catalog) (tenantId resourceId : UUID) (fieldKey : String) : Prop :=
  ∃ r ∈ findResource c resourceId tenantId,
    ∃ f ∈ Table.lookup ResourceField.key fieldKey (fieldsOf c r.resourceDefinitionId),
      (findValue c r.id f.id).isSome

/-- The request is one to clear an override that stands. -/
def Request.AtOverride (c : Catalog) : Request → Prop
  | .clearResourceFieldOverride _ (some tenantId) (some resourceId) fieldKey =>
    OverrideStands c tenantId resourceId fieldKey
  | _ => False

/-- Clearing where no override stands changes nothing. -/
theorem keepsTags_clear {now : Timestamp} {in_ : UpdateResourceFieldInput} {ts : List Tick}
    {f : ResourceField} (hnone : ¬OverrideStands c in_.tenantId in_.resourceId in_.fieldKey)
    (h : Change.clearResourceFieldOverride in_ ts c = .ok (f, ts', c')) :
    ∃ used, ts = used ++ ts' ∧ KeepsTags now c used c' := by
  obtain ⟨r, source, hr, -, hf, -, ⟨used, hused⟩, rfl⟩ :=
    clearResourceFieldOverrideInTx_ok (Tx.mapErr_eq_ok.mp h)
  refine ⟨used, hused, ?_⟩
  have hvalue : findValue c r.id f.id = none := by
    cases hv : findValue c r.id f.id with
    | none => rfl
    | some v => exact absurd ⟨r, hr, f, hf, by simp [hv]⟩ hnone
  have hself : Table.delete (fun v => valueKey v = (r.id, f.id)) c.values = c.values :=
    List.filter_eq_self.mpr fun v hv => by simpa using Table.lookup_eq_none.mp hvalue v hv
  rw [hself]
  exact KeepsTags.refl

/-- A committed clear where no override stands. -/
theorem Commits.tagStep_clear {r : AdminRequest} {in_ : UpdateResourceFieldInput}
    {audit : ResourceField → Option AuditEntry}
    (hnone : ¬OverrideStands d.domain.catalog in_.tenantId in_.resourceId in_.fieldKey)
    (h : Commits r (fun _ => onCatalog (Change.clearResourceFieldOverride in_)) audit ticks d d') :
    TagStep ticks d.domain.catalog d'.domain.catalog := by
  obtain ⟨begun, pre, f, ts, ts₁, ts₂, hbegun, rfl, hchange, -⟩ := h
  obtain ⟨c, hclear, heq⟩ := Tx.onPart_eq_ok.mp hchange
  obtain ⟨used, rfl, hkeeps⟩ := keepsTags_clear hnone hclear
  rw [heq]
  exact hkeeps.tagStep hbegun fun t ht => by simp [ht]

/-- Every handler that commits keeps the tags, unless it clears an override that stands. -/
theorem Request.tagStep {s : Server aead} {x : Request} {res : Response}
    (hx : ¬x.AtOverride d.domain.catalog) (h : x.handler s ticks d = .ok (res, ts', d')) :
    TagStep ticks d.domain.catalog d'.domain.catalog := by
  by_cases hclears : x.Clears
  · cases x with
    | clearResourceFieldOverride r id resourceId fieldKey =>
      obtain ⟨id, hid, h₁⟩ := Tx.ofExcept_bind_eq_ok.mp h
      obtain ⟨resourceId, hrid, h₂⟩ := Tx.ofExcept_bind_eq_ok.mp h₁
      obtain rfl := parse_eq_ok.mp hid
      obtain rfl := parse_eq_ok.mp hrid
      have hcommits := auditedMutation_ok (fun _ => Reads.pure _) h₂
      exact Commits.tagStep_clear (by exact hx) hcommits
    | _ => exact hclears.elim
  · exact KeepsTags.kept (Request.kept keepsTags_statements hclears h)

/-- The request cleared an override that stood. -/
def Served.ClearsOverride (x : Served aead) (d : Database) : Prop :=
  (serve x.server x.request x.ticks d).committed = true ∧ x.request.AtOverride d.domain.catalog

/-- A step of a run in which no override that stands is cleared. -/
def OverridesStay : Database → Served aead → Database → Prop :=
  Runs.Guarded (fun d x => ¬x.ClearsOverride d) Served.Step

theorem Served.tagStep {x : Served aead} (h : OverridesStay d x d') :
    TagStep x.ticks d.domain.catalog d'.domain.catalog := by
  obtain ⟨hclear, rfl⟩ := h
  cases hc : (serve x.server x.request x.ticks d).committed with
  | false => exact (Served.rolled_back hc).symm ▸ TagStep.refl
  | true =>
    obtain ⟨res, ts', hok⟩ := Served.committed hc
    exact Request.tagStep (fun hx => hclear ⟨hc, hx⟩) hok

theorem tagReady_run {xs : List (Served aead)} (h : Runs.Run OverridesStay d xs d')
    (hd : TagReady d.domain.catalog) : TagReady d'.domain.catalog :=
  h.invariant (P := fun d => TagReady d.domain.catalog) (fun _ _ _ hs hx =>
    (Served.tagStep hx hs).1) hd

/-- A clear changes the values and nothing else of the catalogue. -/
theorem after_clear {x : Served aead} {r : AdminRequest} {id resourceId : Option UUID}
    {fieldKey : String} (hx : x.request = .clearResourceFieldOverride r id resourceId fieldKey) :
    ∃ vs, (x.after d).domain.catalog = { d.domain.catalog with values := vs } := by
  cases hc : (serve x.server x.request x.ticks d).committed with
  | false => exact ⟨_, congrArg (·.domain.catalog) (Served.rolled_back hc)⟩
  | true =>
    obtain ⟨res, ts', hok⟩ := Served.committed hc
    rw [hx] at hok
    obtain ⟨key, heq⟩ := clear_ok hok
    exact ⟨_, heq⟩

/-- The nanosecond readings of a run. -/
def runReadings (xs : List (Served aead)) : List Int := xs.flatMap fun x => readings x.ticks

/-- Along a run from the empty database what is shown under one stamp stays the same. -/
theorem sameUnderStamps_run {s m e : Database} {xs ys zs : List (Served aead)}
    (h₁ : Runs.Run OverridesStay {} xs s) (h₂ : Runs.Run OverridesStay s ys m)
    (h₃ : Runs.Run OverridesStay m zs e) (hdistinct : (runReadings (xs ++ ys ++ zs)).Nodup) :
    SameUnderStamps s.domain.catalog m.domain.catalog e.domain.catalog := by
  -- the steps, with what the tags need known before each
  let R : Database → Served aead → Database → Prop := fun d x d' =>
    TagReady d.domain.catalog ∧ OverridesStay d x d'
  have hready : ∀ d (x : Served aead) d', TagReady d.domain.catalog → OverridesStay d x d' →
      TagReady d'.domain.catalog :=
    fun _ _ _ hd hx => (Served.tagStep hx hd).1
  have lift : ∀ {d d' : Database} {xs : List (Served aead)}, Runs.Run OverridesStay d xs d' →
      TagReady d.domain.catalog → Runs.Run R d xs d' := fun h hd =>
    h.compose_of_invariant hready (fun d _ => .nil d)
      (fun _ _ _ _ _ hd hx hr => .cons ⟨hd, hx⟩ hr) hd
  have hs := tagReady_run h₁ TagReady.empty
  have hm := tagReady_run h₂ hs
  have hmoves : ∀ d (x : Served aead) d', R d x d' →
      Stamps.Moves (fun d : Database => d.domain.catalog.shown) d (readings x.ticks) d' :=
    fun d x d' hR => (Served.tagStep hR.2 hR.1).2
  have hknown : Stamps.Stamped (fun d : Database => d.domain.catalog.shown) [] ({} : Database) := by
    intro o a c hshown
    cases o <;> simp [Catalog.shown] at hshown
  intro o a x y hx hy
  exact Stamps.run_eq_of_stamp hmoves hknown (lift h₁ TagReady.empty) (lift h₂ hs) (lift h₃ hm)
    (by simpa [runReadings] using hdistinct) hx hy

theorem selectTenant_mem {sel : Selector} {t : Tenant} (h : selectTenant sel c = .ok t) :
    t ∈ c.tenants := by
  have havailable : ∀ {x : Except PgError Tenant}, availableTenant x = .ok t → x = .ok t := by
    intro x hx
    unfold availableTenant at hx
    split at hx
    · split at hx <;> simp_all
    · cases hx
    · cases hx
  cases sel with
  | hostname s =>
    simp only [selectTenant, tenantByHostname, ite_error_eq_ok] at h
    obtain ⟨dom, -, hd⟩ := Option.bind_eq_some_iff.mp (one_eq_ok.mp (havailable h.2))
    exact Table.mem_of_lookup hd
  | tenantId slug => exact Table.mem_of_lookup (one_eq_ok.mp (havailable h))

theorem handleResolve_resolved {sha256 : Bytes → Bytes} {cryptor : Cryptor aead} {sel : Selector}
    {inm tag : String} {p : ResolvedTenant} {c₁ c₂ c₃ : Catalog}
    (h : Service.handleResolve sha256 cryptor sel inm c₁ c₂ c₃ = .resolved tag p) :
    ∃ t hs, selectTenant sel c₁ = .ok t ∧ version sha256 t c₂ = .ok (tag, hs) ∧
      resolveTenant cryptor t hs c₃ = .ok p := by
  unfold Service.handleResolve at h
  split at h
  · cases h
  · cases h
  next t ht =>
    split at h
    · cases h
    next tag' hs hv =>
      split at h
      · cases h
      · split at h
        · cases h
        next res hres =>
          cases h
          exact ⟨t, hs, ht, hv, hres⟩

theorem handleResolve_notModified {sha256 : Bytes → Bytes} {cryptor : Cryptor aead} {sel : Selector}
    {inm tag : String} {c₁ c₂ c₃ : Catalog}
    (h : Service.handleResolve sha256 cryptor sel inm c₁ c₂ c₃ = .notModified tag) :
    inm = tag ∧ ∃ t hs, selectTenant sel c₁ = .ok t ∧ version sha256 t c₂ = .ok (tag, hs) := by
  unfold Service.handleResolve at h
  split at h
  · cases h
  · cases h
  next t ht =>
    split at h
    · cases h
    next tag' hs hv =>
      split at h
      next hmatch =>
        cases h
        exact ⟨hmatch.2, t, hs, ht, hv⟩
      · split at h <;> cases h

/-- Equal tags in the two states mean equal answers of `ResolveTenant`. -/
def TagSound (sha256 : Bytes → Bytes) (cryptor : Cryptor aead) (c c' : Catalog) : Prop :=
  ∀ t ∈ c.tenants, ∀ t' ∈ c'.tenants, ∀ tag hs hs', version sha256 t c = .ok (tag, hs) →
    version sha256 t' c' = .ok (tag, hs') → resolveTenant cryptor t hs c =
      resolveTenant cryptor t' hs' c'

/-- In every run in which no override that stands is cleared, with distinct readings and an
injective hash, equal tags in two states mean equal answers of `ResolveTenant`; and a client
that got its tag and its configuration from the handler before, whatever ran between the
reads of one request, is told `304` only while that configuration is the current one. -/
theorem resolve_tag_sound {sha256 : Bytes → Bytes} (hsha : Function.Injective sha256)
    (cryptor : Cryptor aead) {a₁ b₁ c₁ a₂ b₂ : Database} {xs₁ xs₂ xs₃ xs₄ xs₅ : List (Served aead)}
    (h₁ : Runs.Run OverridesStay {} xs₁ a₁) (h₂ : Runs.Run OverridesStay a₁ xs₂ b₁)
    (h₃ : Runs.Run OverridesStay b₁ xs₃ c₁) (h₄ : Runs.Run OverridesStay c₁ xs₄ a₂)
    (h₅ : Runs.Run OverridesStay a₂ xs₅ b₂)
    (hdistinct : (runReadings (xs₁ ++ xs₂ ++ xs₃ ++ xs₄ ++ xs₅)).Nodup) :
    TagSound sha256 cryptor b₁.domain.catalog b₂.domain.catalog ∧
    ∀ sel₁ sel₂ inm tag tag' p,
      Service.handleResolve sha256 cryptor sel₁ inm a₁.domain.catalog b₁.domain.catalog
        c₁.domain.catalog = .resolved tag p →
      Service.handleResolve sha256 cryptor sel₂ tag a₂.domain.catalog b₂.domain.catalog
        b₂.domain.catalog = .notModified tag' →
      Service.handleResolve sha256 cryptor sel₂ "" a₂.domain.catalog b₂.domain.catalog
        b₂.domain.catalog = .resolved tag' p := by
  have ha₁ := tagReady_run h₁ TagReady.empty
  have hb₁ := tagReady_run h₂ ha₁
  have hc₁ := tagReady_run h₃ hb₁
  have ha₂ := tagReady_run h₄ hc₁
  have hb₂ := tagReady_run h₅ ha₂
  have hlast := h₄.append h₅
  constructor
  · intro t₁ ht₁ t₂ ht₂ tag hs₁ hs₂ hv₁ hv₂
    have hsame :=
      sameUnderStamps_run (h₁.append h₂) (.nil b₁) (h₃.append hlast) (by simpa using hdistinct)
    exact (resolveTenant_eq_of_version_eq hsha hb₁ hb₁.wellFormed hb₂ hsame (hb₁.slugs t₁ ht₁)
      (hb₂.slugs t₂ ht₂) hv₁ hv₂).2
  · intro sel₁ sel₂ inm tag tag' p hresolved hnot
    have hsame := sameUnderStamps_run (h₁.append h₂) h₃ hlast (by simpa using hdistinct)
    obtain ⟨t₁, hs₁, hsel₁, hv₁, hp⟩ := handleResolve_resolved hresolved
    obtain ⟨rfl, t₂, hs₂, hsel₂, hv₂⟩ := handleResolve_notModified hnot
    have heq : resolveTenant cryptor t₁ hs₁ c₁.domain.catalog =
        resolveTenant cryptor t₂ hs₂ b₂.domain.catalog :=
      (resolveTenant_eq_of_version_eq hsha hb₁ hc₁.wellFormed hb₂ hsame
        (ha₁.slugs t₁ (selectTenant_mem hsel₁))
        (ha₂.slugs t₂ (selectTenant_mem hsel₂)) hv₁ hv₂).2
    unfold Service.handleResolve
    simp [hsel₂, hv₂, ← heq, hp]

section sample

def sampleAdmin (key : UUID) : AdminRequest :=
  ⟨"req", some ⟨.sharedAdminToken, "", "admin", ""⟩, "POST", some key⟩

def sampleTenantId : UUID := 3001

def sampleSourceId : UUID := 59001

def sampleResource (source : Option UUID) (resourceAlias value : String) : CreateResourceBody :=
  ⟨"", resourceAlias, "db", source, [("url", value)]⟩

/-- A hash for the three requests of the sample that carry a key. -/
def sampleHash : Bytes → Bytes := hashKnowing
  [utf8 "POST /v1/admin/tenants" ++
    0 :: (Json.obj [("Slug", .str "acme"), ("Name", .str "Acme")]).marshal,
   utf8 "POST /v1/admin/tenants/{id}/resources" ++ 0 ::
    (createResourcePayload sampleTenantId (sampleResource none "main" "a")).marshal,
   utf8 "POST /v1/admin/tenants/{id}/resources" ++ 0 ::
    (createResourcePayload sampleTenantId
      (sampleResource (some sampleSourceId) "copy" "b")).marshal]

theorem sampleHash_injective : Function.Injective sampleHash := hashKnowing_injective (by decide)

def sampleServer : Server Aead.tagged := ⟨.single Aead.tagged 7, sampleHash⟩

/-- The `n`-th request of the sample. -/
def sampleServed (n : Nat) (request : Request) : Served Aead.tagged :=
  ⟨sampleServer, request, ticksFrom (18 * n) 18⟩

/-- A tenant, a definition with one field, a resource, and a resource linked to it that
overrides the field. -/
def sampleSetup : List (Served Aead.tagged) :=
  [sampleServed 0 (.createTenant (sampleAdmin 1) (.ok ⟨"acme", "Acme"⟩)),
   sampleServed 1 (.createDefinition (sampleAdmin 0) (.ok ⟨"db", "DB", "", ""⟩)),
   sampleServed 2 (.addField (sampleAdmin 0) (some 19001)
     (.ok ⟨"url", "", "", "", false, false, 0⟩)),
   sampleServed 3 (.createResource (sampleAdmin 2) (some sampleTenantId)
     (.ok (sampleResource none "main" "a"))),
   sampleServed 4 (.createResource (sampleAdmin 3) (some sampleTenantId)
    (.ok (sampleResource (some sampleSourceId) "copy" "b")))]

/-- The clearing of the override. -/
def sampleClear : Served Aead.tagged :=
  sampleServed 5 (.clearResourceFieldOverride (sampleAdmin 0)
    (some sampleTenantId) (some 79001) "url")

/-- The database after some requests. -/
def afterAll (xs : List (Served aead)) (d : Database) : Database :=
  xs.foldl (fun d x => x.after d) d

theorem run_afterAll (xs : List (Served aead)) (d : Database) :
    Runs.Run Served.Step d xs (afterAll xs d) :=
  Runs.run_foldl Served.after d xs

/-- What the tenant of the sample is answered, where one is there. -/
def sampleAnswer (c : Catalog) : List (Option ResolvedTenant) :=
  c.tenants.map fun t => (resolveTenant sampleServer.cryptor t
    (((resourcesOf c t.id false).filterMap (headerRow c)).map resourceHeaderFromRow) c).toOption

theorem sampleAnswer_changes : sampleAnswer (afterAll sampleSetup {}).domain.catalog =
      [some ⟨"acme", [⟨"main", "db", [("url", "a")]⟩, ⟨"copy", "db", [("url", "b")]⟩]⟩] ∧
    sampleAnswer (sampleClear.after (afterAll sampleSetup {})).domain.catalog =
      [some ⟨"acme", [⟨"main", "db", [("url", "a")]⟩, ⟨"copy", "db", [("url", "a")]⟩]⟩] ∧
    (serve sampleServer sampleClear.request sampleClear.ticks (afterAll sampleSetup {})).committed =
      true := by
  decide +kernel

theorem sampleReadings : (runReadings (sampleSetup ++ [sampleClear])).Nodup := by
  decide +kernel

/-- Clearing an override leaves the tag and changes the configuration. -/
theorem cleared_override_keeps_tag : Function.Injective sampleHash ∧
    ∃ s₁ s₂, Runs.Run Served.Step {} sampleSetup s₁ ∧ Runs.Run Served.Step s₁ [sampleClear] s₂ ∧
      (runReadings (sampleSetup ++ [sampleClear])).Nodup ∧
      ¬TagSound sampleHash sampleServer.cryptor s₁.domain.catalog s₂.domain.catalog := by
  refine ⟨sampleHash_injective, _, _, run_afterAll _ _, .cons rfl (.nil _),
    sampleReadings, fun hsound => ?_⟩
  obtain ⟨hbefore, hafter, -⟩ := sampleAnswer_changes
  obtain ⟨vs, hvs⟩ := after_clear (x := sampleClear) (d := afterAll sampleSetup {}) rfl
  rw [hvs] at hsound hafter
  generalize (afterAll sampleSetup {}).domain.catalog = c at hbefore hafter hsound
  -- the headers, and with them the tag, do not depend on the values
  obtain ⟨t, hts⟩ : ∃ t, c.tenants = [t] := by
    obtain ⟨t, ht⟩ :=
      List.length_eq_one_iff.mp (by simpa [sampleAnswer] using congrArg List.length hbefore)
    exact ⟨t, ht⟩
  have hsame := hsound t (by simp [hts]) t (by simp [hts]) _ _ _ rfl rfl
  simp only [sampleAnswer, hts, List.map_cons, List.map_nil, List.cons.injEq, and_true]
    at hbefore hafter
  have hne := hbefore.symm.trans ((congrArg Except.toOption hsame).trans hafter)
  exact absurd hne (by decide)

theorem run_overridesStay {xs : List (Served aead)} {d : Database}
    (h : ∀ x ∈ xs, ∀ c, ¬x.request.AtOverride c) : Runs.Run OverridesStay d xs (afterAll xs d) := by
  induction xs generalizing d with
  | nil => exact .nil d
  | cons x xs ih =>
    exact .cons ⟨fun hx => h x (.head _) _ hx.2, rfl⟩ (ih fun y hy => h y (.tail _ hy))

def sampleTag : String := computeETag sampleHash ⟨sampleTenantId, "acme", "Acme", .active, 0, 0⟩ []

/-- After the tenant is created. -/
def sampleTenantOnly : Database := afterAll (sampleSetup.take 1) {}

/-- After the definition is created as well. -/
def sampleWithDefinition : Database := afterAll ((sampleSetup.drop 1).take 1) sampleTenantOnly

theorem sampleTenantOnly_run : Runs.Run OverridesStay {} (sampleSetup.take 1) sampleTenantOnly :=
  run_overridesStay (by simp [sampleSetup, sampleServed, Request.AtOverride])

theorem sampleWithDefinition_run :
    Runs.Run OverridesStay sampleTenantOnly ((sampleSetup.drop 1).take 1) sampleWithDefinition :=
  run_overridesStay (by simp [sampleSetup, sampleServed, Request.AtOverride])

/-- The answer of the handler to a client with a tag, all its reads in one state. -/
def sampleResolve (tag : String) (d : Database) : ResolveAnswer :=
  Service.handleResolve sampleHash sampleServer.cryptor (.tenantId "acme") tag
    d.domain.catalog d.domain.catalog
    d.domain.catalog

theorem sampleResolve_answers :
    sampleResolve "" sampleTenantOnly = .resolved sampleTag ⟨"acme", []⟩ ∧
    sampleResolve sampleTag sampleWithDefinition = .notModified sampleTag := by
  decide +kernel

/-- A tenant is created and resolved, a definition is created, and the client is told that
its configuration is current, which it is. -/
theorem resolve_tag_sound_sample :
    sampleResolve "" sampleWithDefinition = .resolved sampleTag ⟨"acme", []⟩ := by
  have hreadings : (runReadings (sampleSetup.take 1 ++ [] ++ [] ++
      (sampleSetup.drop 1).take 1 ++ [])).Nodup := by
    decide +kernel
  have hsound :=
    (resolve_tag_sound sampleHash_injective sampleServer.cryptor
      sampleTenantOnly_run (.nil _) (.nil _)
    sampleWithDefinition_run (.nil _) hreadings).2
  exact hsound _ _ _ _ _ _ sampleResolve_answers.1 sampleResolve_answers.2

end sample

end Tenancit.Httpapi
