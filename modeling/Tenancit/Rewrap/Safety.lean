import Tenancit.Rewrap.Runner

/-!
What holds in every state of the system of campaigns, writers and maintenance: the tables
agree with the plain map of what writers committed, the rows of a batch are still those it
selected, and a campaign that succeeds has counted no row left.
-/
namespace Tenancit.Rewrap

open Encoding Crypto Store Service Queries Values Table

variable {Key : Type} {aead : Aead Key} {cs : List (Cryptor aead)} {c c' : Catalog}
  {o : PlainValues} {target : Int} {done : List (TenantResourceValue × Encrypted)}

section rows

open World

theorem withRows_fields : (withRows target c done).fields = c.fields := by
  induction done generalizing c with
  | nil => rfl
  | cons x xs ih => exact ih

theorem withRows_resources : (withRows target c done).resources = c.resources := by
  induction done generalizing c with
  | nil => rfl
  | cons x xs ih => exact ih

/-- The columns that a batch leaves alone. -/
def plainColumns (v : TenantResourceValue) : UUID × (UUID × UUID) × Option String :=
  (v.id, valueKey v, v.valuePlain)

theorem withRows_plainColumns :
    (withRows target c done).values.map plainColumns = c.values.map plainColumns := by
  induction done generalizing c with
  | nil => rfl
  | cons x xs ih => exact ih.trans (map_key_update fun _ => rfl)

theorem mem_withRows {row : TenantResourceValue} (hrow : row ∈ c.values)
    (hne : ∀ x ∈ done, x.1.id ≠ row.id) : row ∈ (withRows target c done).values := by
  induction done generalizing c with
  | nil => exact hrow
  | cons x xs ih =>
    refine ih ?_ fun y hy => hne y (.tail _ hy)
    exact mem_update.mpr ⟨row, hrow, if_neg (by simpa using Ne.symm (hne x (.head _)))⟩

/-- The commit of a batch keeps the agreement. -/
theorem agrees_withRows {cryptor : Cryptor aead} (h : Agrees cs c o) (hcryptor : cryptor ∈ cs)
    (hagree : ∀ w ∈ cs, w.Agree cryptor) (hids : (done.map fun x => x.1.id).Nodup)
    (hdone : ∀ x ∈ done, x.1 ∈ c.values ∧ x.1.valueCipher.isSome ∧
      ∃ random, rewrapRow cryptor random x.1 = .ok x.2) :
    Agrees cs (withRows cryptor.current c done) o := by
  induction done generalizing c with
  | nil => exact h
  | cons x xs ih =>
    obtain ⟨hx, hxs⟩ := List.nodup_cons.mp hids
    obtain ⟨hmem, hcipher, hrandom⟩ := hdone x (.head _)
    refine ih (c := replaceRow cryptor.current c x) ?_ hxs fun y hy => ?_
    · refine h.replaceRows hcryptor hagree fun v hv hid => ?_
      obtain rfl := h.wellFormed.valueIds.eq_of_key hv hmem (of_decide_eq_true hid)
      exact ⟨hcipher, hrandom⟩
    · obtain ⟨hymem, hy'⟩ := hdone y (.tail _ hy)
      have hne : y.1.id ≠ x.1.id := fun he => hx (List.mem_map.mpr ⟨y, hy, he⟩)
      exact ⟨mem_update.mpr ⟨y.1, hymem, if_neg (by simpa using hne)⟩, hy'⟩

end rows

namespace ValueWrite

/-- The cryptor of the write is one of those in use. -/
def UsesIn (cs : List (Cryptor aead)) : ValueWrite aead → Prop
  | store cryptor _ _ _ _ => cryptor ∈ cs
  | remove .. => True

variable {x : ValueWrite aead} {xs : List (ValueWrite aead)}

/-- A committed write is one to the plain map, and touches no row but its own. -/
theorem apply_spec (h : Agrees cs c o) (hready : x.Ready c) (huses : x.UsesIn cs)
    (hx : x.apply c = some c') :
    Agrees cs c' (x.record o) ∧ SameShape c c' ∧ ∀ v ∈ c.values, valueKey v ≠
      x.key → v ∈ c'.values := by
  cases x with
  | store cryptor resourceId field text ticks =>
    simp only [apply] at hx
    split at hx
    next u ts' c₁ hstore =>
      cases hx
      obtain ⟨g, hg, hid, hsecret⟩ := hready
      have hsame : storeField cryptor resourceId field text ticks c =
          storeField cryptor resourceId g text ticks c := by simp only [storeField, hid, hsecret]
      rw [hsame] at hstore
      obtain ⟨h', hshape⟩ := h.storeField hg hstore huses
      rw [hid] at h'
      refine ⟨h', hshape, fun v hv hkey => ?_⟩
      obtain ⟨p, t, a, rfl, hfield, hupsert, -⟩ := storeField_ok hstore
      have hfind := findValue_upsert hupsert v.tenantResourceId v.resourceFieldId
      rw [hfield, hid, if_neg (by simpa [key, valueKey] using hkey)] at hfind
      have hself : findValue c v.tenantResourceId v.resourceFieldId = some v :=
        lookup_self h.wellFormed.valueKeys hv
      exact mem_of_lookup (hfind.trans hself)
    · cases hx
  | remove resourceId fieldId t =>
    cases hx
    refine ⟨h.deleteValue (t := t) rfl, ⟨rfl, rfl⟩, fun v hv hkey => mem_delete.mpr ⟨hv, ?_⟩⟩
    simpa [key] using hkey

theorem Ready.of_shape (h : x.Ready c) (hshape : SameShape c c') : x.Ready c' := by
  cases x with
  | store cryptor resourceId field text ticks => simpa [Ready, hshape.fields] using h
  | remove resourceId fieldId t => trivial

theorem applyAll_spec (h : Agrees cs c o) (hready : ∀ x ∈ xs, x.Ready c)
    (huses : ∀ x ∈ xs, x.UsesIn cs) (hxs : applyAll c xs = some c') :
    Agrees cs c' (recordAll o xs) ∧ SameShape c c' ∧
      ∀ v ∈ c.values, (∀ x ∈ xs, valueKey v ≠ x.key) → v ∈ c'.values := by
  induction xs generalizing c o with
  | nil =>
    cases hxs
    exact ⟨h, SameShape.refl _, fun v hv _ => hv⟩
  | cons x xs ih =>
    obtain ⟨c₁, hx, hrest⟩ := Option.bind_eq_some_iff.mp hxs
    obtain ⟨h₁, hshape₁, hkept₁⟩ := apply_spec h (hready x (.head _)) (huses x (.head _)) hx
    obtain ⟨h₂, hshape₂, hkept₂⟩ := ih h₁ (fun y hy => (hready y (.tail _ hy)).of_shape hshape₁)
      (fun y hy => huses y (.tail _ hy)) hrest
    exact ⟨h₂, hshape₁.trans hshape₂, fun v hv hne =>
      hkept₂ v (hkept₁ v hv (hne x (.head _))) fun y hy => hne y (.tail _ hy)⟩

end ValueWrite

namespace Phase

/-- The run of a phase in which `Run` has not returned. -/
def active : Phase aead → Option (Campaign aead)
  | idle | finished _ _ => none
  | acquiring run | holding run | preflighted run | looping run | inBatch run _ _ | batched run _
  | counted run => some run

/-- The rows that the transaction of a batch has locked. -/
def rows : Phase aead → List TenantResourceValue
  | inBatch _ todo done => done.map Prod.fst ++ todo
  | _ => []

/-- `Run` is past its checks, in the loop of a write campaign or behind it. -/
def writing : Phase aead → Bool
  | looping _ | inBatch _ _ _ | batched _ _ | counted _ => true
  | _ => false

end Phase

/-- A campaign goes on with the run it has, is over, or starts with a checked configuration. -/
def GoesOn (x : CampaignStep aead) (p p' : Phase aead) : Prop :=
  p'.active = none ∨ (∃ r r', p.active = some r ∧ p'.active = some r' ∧ r'.cryptor = r.cryptor ∧
    r'.config = r.config ∧ (p'.writing = true → p.writing = true ∨ r.config.dryRun = false)) ∨
  ∃ cryptor config clock config' job r', x = .start cryptor config clock ∧
    checkConfig cryptor config = .ok (config', job) ∧ p'.active = some r' ∧ r'.cryptor = cryptor ∧
    r'.config = config' ∧ p'.writing = false

theorem GoesOn.same {x : CampaignStep aead} {p p' : Phase aead} {r r' : Campaign aead}
    (hp : p.active = some r) (hp' : p'.active = some r') (hcryptor : r'.cryptor = r.cryptor)
    (hconfig : r'.config = r.config)
    (hwriting : p'.writing = true → p.writing = true ∨ r.config.dryRun = false) : GoesOn x p p' :=
  .inr (.inl ⟨r, r', hp, hp', hcryptor, hconfig, hwriting⟩)

/-- What a step of a campaign can do. -/
theorem campaignStep_cases {w w' : World aead} {n : Nat} {x : CampaignStep aead}
    (h : w.campaignStep n x = some w') : (∃ p, p.rows = [] ∧ GoesOn x (w.campaigns n) p ∧
      ((∃ adv, w' = { w.setPhase n p with advisory := adv }) ∨ w' = w.leave n p)) ∨
    (∃ run, x = .select ∧ w.campaigns n = .looping run ∧
      w' = { w.setPhase n
        (.inBatch run (selectBatch run.config.targetVersion run.config.batchSize.toNat
          (fun v => !decide (Locks.Free w.locks (.campaign n) (valueKey v))) w.catalog) []) with
        locks := Locks.acquire w.locks (.campaign n)
          ((selectBatch run.config.targetVersion run.config.batchSize.toNat
            (fun v => !decide (Locks.Free w.locks (.campaign n) (valueKey v)))
              w.catalog).map valueKey) }) ∨
    (∃ t run row todo done e, x = .row t ∧ w.campaigns n = .inBatch run (row :: todo) done ∧
      World.processRow run t w.catalog done row = .ok e ∧
      w' = w.setPhase n (.inBatch run todo (done ++ [(row, e)]))) ∨
    ∃ clock run done run', x = .commitBatch clock ∧ w.campaigns n = .inBatch run [] done ∧
      run'.cryptor = run.cryptor ∧ run'.config = run.config ∧
      w' = { w.setPhase n (.batched run' done.length) with
        catalog := World.withRows run.config.targetVersion w.catalog done
        locks := Locks.release w.locks (.campaign n) } := by
  cases x with
  | start cryptor config clock =>
    refine .inl ?_
    simp only [World.campaignStep] at h
    split at h
    all_goals first
      | cases h
      | (split at h
         · cases h
           exact ⟨_, rfl, .inl rfl, .inl ⟨_, rfl⟩⟩
         next config' job hcheck =>
           cases h
           exact ⟨_, rfl, .inr (.inr ⟨cryptor, config, clock, config', job, _, rfl,
             hcheck, rfl, rfl, rfl, rfl⟩),
             .inl ⟨_, rfl⟩⟩)
  | acquire =>
    refine .inl ?_
    simp only [World.campaignStep] at h
    split at h
    next run hp =>
      split at h
      · cases h
        exact ⟨_, rfl, .same (r := run) (by simp [hp, Phase.active]) rfl rfl rfl fun h =>
          (by cases h), .inl ⟨_, rfl⟩⟩
      · cases h
        exact ⟨_, rfl, .inl rfl, .inr rfl⟩
    · cases h
  | preflight =>
    refine .inl ?_
    simp only [World.campaignStep] at h
    split at h
    next run hp =>
      split at h
      next summary _ =>
        cases h
        exact ⟨.preflighted { run with summary := summary }, rfl,
          .same (r := run) (by simp [hp, Phase.active]) rfl rfl rfl fun h =>
          (by cases h), .inl ⟨_, rfl⟩⟩
      · cases h
        exact ⟨_, rfl, .inl rfl, .inr rfl⟩
    · cases h
  | countDryRun clock =>
    refine .inl ?_
    simp only [World.campaignStep] at h
    split at h
    next run hp =>
      split at h
      · cases h
        exact ⟨_, rfl, .inl rfl, .inr rfl⟩
      · cases h
    · cases h
  | evidence found clock =>
    refine .inl ?_
    simp only [World.campaignStep] at h
    split at h
    next run hp =>
      split at h
      · cases h
      next hdry =>
        split at h
        · cases h
          exact ⟨.looping { run with lastProgress := clock }, rfl,
            .same (r := run) (by simp [hp, Phase.active]) rfl rfl rfl fun _ =>
            .inr (by simpa using hdry),
            .inl ⟨_, rfl⟩⟩
        · cases h
          exact ⟨_, rfl, .inl rfl, .inr rfl⟩
    · cases h
  | select =>
    refine .inr (.inl ?_)
    simp only [World.campaignStep] at h
    split at h
    next run hp =>
      cases h
      exact ⟨run, rfl, hp, rfl⟩
    · cases h
  | row t =>
    simp only [World.campaignStep] at h
    split at h
    next run row todo done hp =>
      split at h
      next e he =>
        cases h
        exact .inr (.inr (.inl ⟨t, run, row, todo, done, e, rfl, hp, he, rfl⟩))
      · cases h
        exact .inl ⟨_, rfl, .inl rfl, .inr rfl⟩
    · cases h
  | commitBatch clock =>
    refine .inr (.inr (.inr ?_))
    simp only [World.campaignStep] at h
    split at h
    next run done hp =>
      cases h
      refine ⟨clock, run, done, _, rfl, hp, ?_, ?_, rfl⟩ <;> split <;> rfl
    · cases h
  | count clock =>
    refine .inl ?_
    simp only [World.campaignStep] at h
    split at h
    next run processed hp =>
      cases h
      have hactive : (w.campaigns n).active = some run := by simp [hp, Phase.active]
      simp only [World.afterCount]
      split
      · refine ⟨_, ?_, ?_, .inl ⟨_, rfl⟩⟩
        · rfl
        · exact .same hactive rfl rfl rfl fun _ => .inl (by simp [hp, Phase.writing])
      split
      · split
        · exact ⟨_, rfl, .inl rfl, .inr rfl⟩
        · refine ⟨_, ?_, ?_, .inl ⟨_, rfl⟩⟩
          · rfl
          · exact .same hactive rfl rfl rfl fun _ => .inl (by simp [hp, Phase.writing])
      · refine ⟨_, ?_, ?_, .inl ⟨_, rfl⟩⟩
        · rfl
        · exact .same hactive rfl rfl rfl fun _ => .inl (by simp [hp, Phase.writing])
    · cases h
  | report published clock =>
    refine .inl ?_
    simp only [World.campaignStep] at h
    split at h
    · cases h
      exact ⟨_, rfl, .inl rfl, .inr rfl⟩
    · cases h
  | fail err =>
    refine .inl ?_
    simp only [World.campaignStep] at h
    split at h
    all_goals cases h
    all_goals exact ⟨_, rfl, .inl rfl, .inr rfl⟩
  | crash =>
    cases h
    exact .inl ⟨_, rfl, .inl rfl, .inr rfl⟩

/-- The invariant of the system. -/
structure Inv (cs : List (Cryptor aead)) (w : World aead) : Prop where
  agrees : Agrees cs w.catalog w.plain
  exclusive : Locks.Exclusive w.locks
  writers : ∀ n, ∀ x ∈ w.writers n, (Owner.writer n, x.key) ∈
    w.locks ∧ x.Ready w.catalog ∧ x.UsesIn cs
  runs : ∀ n run, (w.campaigns n).active = some run → run.cryptor ∈ cs ∧
    run.config.targetVersion = run.cryptor.current ∧
    ((w.campaigns n).writing = true → run.config.dryRun = false)
  rows : ∀ n, ∀ row ∈ (w.campaigns n).rows, row ∈ w.catalog.values ∧ row.valueCipher.isSome ∧
    (Owner.campaign n, valueKey row) ∈ w.locks
  rowIds : ∀ n, ((w.campaigns n).rows.map TenantResourceValue.id).Nodup
  done : ∀ n run todo done, w.campaigns n = .inBatch run todo done →
    ∀ x ∈ done, ∃ random, rewrapRow run.cryptor random x.1 = .ok x.2

theorem checkConfig_ok {cryptor : Cryptor aead} {config config' : Config} {job : UUID}
    (h : checkConfig cryptor config = .ok (config', job)) :
    config'.targetVersion = cryptor.current := by
  unfold checkConfig at h
  split at h
  · cases h
  next id hid =>
    simp only [ite_error_eq_ok, Except.ok.injEq, Prod.mk.injEq, not_or, not_not] at h
    obtain ⟨⟨-, htarget, -⟩, -, rfl, -⟩ := h
    exact htarget

/-- What is selected stands in the table, is encrypted, and is locked by nobody else. -/
theorem mem_selectBatch {batchSize : Nat} {locked : TenantResourceValue → Bool}
    {row : TenantResourceValue} (h : row ∈ selectBatch target batchSize locked c) :
    row ∈ c.values ∧ row.valueCipher.isSome ∧ locked row = false := by
  have hrow := List.mem_of_mem_take h
  rw [List.mem_insertionSort, List.mem_filter, Bool.and_eq_true, decide_eq_true_eq,
    Bool.not_eq_true'] at hrow
  exact ⟨hrow.1, hrow.2.1.1, hrow.2.2⟩

theorem selectBatch_ids_nodup (hc : c.WellFormed) {batchSize : Nat}
    {locked : TenantResourceValue → Bool} :
    ((selectBatch target batchSize locked c).map TenantResourceValue.id).Nodup := by
  have hsub : (selectBatch target batchSize locked c).Sublist _ := List.take_sublist _ _
  refine List.Nodup.sublist (hsub.map _) ?_
  rw [((List.perm_insertionSort _ _).map _).nodup_iff]
  exact hc.valueIds.sublist ((List.filter_sublist).map _)

/-- A row processed in a batch was made anew by the campaign's cryptor. -/
theorem processRow_eq_ok {run : Campaign aead} {t : Tick} {row : TenantResourceValue}
    {e : Encrypted} (h : World.processRow run t c done row = .ok e) :
    authenticateRow run.cryptor row = .ok () ∧ rewrapRow run.cryptor t.random row = .ok e := by
  obtain ⟨u, hauth, h₁⟩ := bind_eq_ok.mp h
  obtain ⟨e', he, h₂⟩ := bind_eq_ok.mp h₁
  split at h₂
  · cases h₂
    exact ⟨hauth, he⟩
  · cases h₂

namespace Inv

variable {w w' : World aead} {n : Nat}

/-- A step outside the campaigns that leaves their locks and their rows alone. -/
theorem environment (h : Inv cs w) (hcampaigns : w'.campaigns = w.campaigns)
    (hagrees : Agrees cs w'.catalog w'.plain) (hexclusive : Locks.Exclusive w'.locks)
    (hwriters : ∀ n, ∀ x ∈ w'.writers n, (Owner.writer n, x.key) ∈ w'.locks ∧
      x.Ready w'.catalog ∧ x.UsesIn cs)
    (hlocks : ∀ n k, (Owner.campaign n, k) ∈ w.locks → (Owner.campaign n, k) ∈ w'.locks)
    (hrows : ∀ n, ∀ v ∈ w.catalog.values, (Owner.campaign n, valueKey v) ∈ w.locks →
      v ∈ w'.catalog.values) :
    Inv cs w' where
  agrees := hagrees
  exclusive := hexclusive
  writers := hwriters
  runs := hcampaigns ▸ h.runs
  rows n row hrow := by
    rw [hcampaigns] at hrow
    obtain ⟨hmem, hcipher, hlock⟩ := h.rows n row hrow
    exact ⟨hrows n row hmem hlock, hcipher, hlocks n _ hlock⟩
  rowIds := hcampaigns ▸ h.rowIds
  done := hcampaigns ▸ h.done

/-- A step of a campaign into a phase outside a batch that leaves the tables alone. -/
theorem outside (h : Inv cs w) {x : CampaignStep aead} {p : Phase aead} (hrows : p.rows = [])
    (hgoes : GoesOn x (w.campaigns n) p) (huses : ∀ d ∈ (Label.campaign n x).cryptors, d ∈ cs)
    (hcampaigns : w'.campaigns = Function.update w.campaigns n p)
    (hcatalog : w'.catalog = w.catalog) (hplain : w'.plain = w.plain)
    (hwriters : w'.writers = w.writers)
    (hlocks : w'.locks = w.locks ∨ w'.locks = Locks.release w.locks (.campaign n)) : Inv cs w' := by
  have hphase : ∀ m, w'.campaigns m = if m = n then p else w.campaigns m := by
    intro m
    rw [hcampaigns, Function.update_apply]
  have hkept : ∀ o k, o ≠ Owner.campaign n → (o, k) ∈ w.locks → (o, k) ∈ w'.locks := by
    intro o k hne hk
    rcases hlocks with hl | hl
    · rwa [hl]
    · rw [hl]
      exact Locks.mem_release.mpr ⟨hk, hne⟩
  refine ⟨by rw [hcatalog, hplain]; exact h.agrees, ?_, ?_, ?_, ?_, ?_, ?_⟩
  · rcases hlocks with hl | hl
    · rw [hl]
      exact h.exclusive
    · rw [hl]
      exact h.exclusive.release _
  · intro m x hx
    rw [hwriters] at hx
    obtain ⟨hlock, hready, hu⟩ := h.writers m x hx
    exact ⟨hkept _ _ nofun hlock, by rwa [hcatalog], hu⟩
  · intro m run hrun
    rw [hphase] at hrun ⊢
    split at hrun
    · rw [if_pos ‹_›]
      rcases hgoes with hnone | ⟨r, r', hr, hr', hcryptor, hconfig, hwriting⟩ |
        ⟨cryptor, config, clock, config', job, r', rfl, hcheck, hr', hcryptor, hconfig, hnot⟩
      · rw [hnone] at hrun
        cases hrun
      · obtain rfl := Option.some.inj (hr'.symm.trans hrun)
        obtain ⟨hmem, htarget, hdry⟩ := h.runs n r hr
        rw [hcryptor, hconfig]
        exact ⟨hmem, htarget, fun hw => (hwriting hw).elim hdry id⟩
      · obtain rfl := Option.some.inj (hr'.symm.trans hrun)
        rw [hcryptor, hconfig, hnot]
        exact ⟨huses cryptor (by simp [Label.cryptors]), checkConfig_ok hcheck, nofun⟩
    · rw [if_neg ‹_›]
      exact h.runs m run hrun
  · intro m row hrow
    rw [hphase] at hrow
    split at hrow
    · rw [hrows] at hrow
      cases hrow
    next hne =>
      obtain ⟨hmem, hcipher, hlock⟩ := h.rows m row hrow
      exact ⟨by rwa [hcatalog], hcipher, hkept _ _ (by simpa using hne) hlock⟩
  · intro m
    rw [hphase]
    split
    · simp [hrows]
    · exact h.rowIds m
  · intro m run todo done hp
    rw [hphase] at hp
    split at hp
    · rw [hp] at hrows
      have hnil : done = [] := by
        have := List.append_eq_nil_iff.mp hrows
        simpa using this.1
      simp [hnil]
    · exact h.done m run todo done hp

theorem select (h : Inv cs w) {run : Campaign aead} (hp : w.campaigns n = .looping run)
    {rows : List TenantResourceValue}
    (hrows : ∀ row ∈ rows, row ∈ w.catalog.values ∧ row.valueCipher.isSome ∧
      Locks.Free w.locks (.campaign n) (valueKey row)) (hids :
      (rows.map TenantResourceValue.id).Nodup) :
    Inv cs { w.setPhase n (.inBatch run rows []) with
      locks := Locks.acquire w.locks (.campaign n) (rows.map valueKey) } := by
  have hphase : ∀ m, (w.setPhase n (.inBatch run rows [])).campaigns m =
      if m = n then .inBatch run rows [] else w.campaigns m :=
        fun m => Function.update_apply _ _ _ _
  refine ⟨h.agrees, h.exclusive.acquire ?_, ?_, ?_, ?_, ?_, ?_⟩
  · intro k hk
    obtain ⟨row, hrow, rfl⟩ := List.mem_map.mp hk
    exact (hrows row hrow).2.2
  · intro m x hx
    obtain ⟨hlock, hrest⟩ := h.writers m x hx
    exact ⟨Locks.mem_acquire.mpr (.inl hlock), hrest⟩
  · intro m r hr
    change ((w.setPhase n (.inBatch run rows [])).campaigns m).active = some r at hr
    rw [hphase] at hr
    split at hr
    next hm =>
      subst hm
      cases hr
      obtain ⟨hmem, htarget, hdry⟩ := h.runs m run (by simp [hp, Phase.active])
      exact ⟨hmem, htarget, fun _ => hdry (by simp [hp, Phase.writing])⟩
    next hm =>
      refine ⟨(h.runs m r hr).1, (h.runs m r hr).2.1, fun hw => (h.runs m r hr).2.2 ?_⟩
      change ((w.setPhase n (.inBatch run rows [])).campaigns m).writing = true at hw
      rwa [hphase, if_neg hm] at hw
  · intro m row hrow
    change row ∈ ((w.setPhase n (.inBatch run rows [])).campaigns m).rows at hrow
    rw [hphase] at hrow
    split at hrow
    next hm =>
      subst hm
      obtain ⟨hmem, hcipher, -⟩ := hrows row (by simpa [Phase.rows] using hrow)
      exact ⟨hmem, hcipher,
        Locks.mem_acquire.mpr (.inr ⟨rfl, List.mem_map_of_mem (by simpa [Phase.rows] using hrow)⟩)⟩
    · obtain ⟨hmem, hcipher, hlock⟩ := h.rows m row hrow
      exact ⟨hmem, hcipher, Locks.mem_acquire.mpr (.inl hlock)⟩
  · intro m
    change (((w.setPhase n (.inBatch run rows [])).campaigns m).rows.map
      TenantResourceValue.id).Nodup
    rw [hphase]
    split
    · simpa [Phase.rows] using hids
    · exact h.rowIds m
  · intro m r todo done hd
    change (w.setPhase n (.inBatch run rows [])).campaigns m = .inBatch r todo done at hd
    rw [hphase] at hd
    split at hd
    · cases hd
      simp
    · exact h.done m r todo done hd

theorem row (h : Inv cs w) {run : Campaign aead} {row : TenantResourceValue}
    {todo : List TenantResourceValue} {done : List (TenantResourceValue × Encrypted)}
    {random : Nat → UInt8} {e : Encrypted} (hp : w.campaigns n = .inBatch run (row :: todo) done)
    (he : rewrapRow run.cryptor random row = .ok e) :
    Inv cs (w.setPhase n (.inBatch run todo (done ++ [(row, e)]))) := by
  have hphase : ∀ m, (w.setPhase n (.inBatch run todo (done ++ [(row, e)]))).campaigns m =
      if m = n then .inBatch run todo (done ++ [(row, e)]) else w.campaigns m :=
        fun m => Function.update_apply _ _ _ _
  -- the row moves from those to do to those done, in its place
  have hsame : (Phase.inBatch run todo (done ++ [(row, e)])).rows = (w.campaigns n).rows := by
    simp [hp, Phase.rows]
  refine ⟨h.agrees, h.exclusive, h.writers, ?_, ?_, ?_, ?_⟩
  · intro m r hr
    rw [hphase] at hr ⊢
    split at hr
    next hm =>
      subst hm
      cases hr
      rw [if_pos rfl]
      obtain ⟨hmem, htarget, hdry⟩ := h.runs m run (by simp [hp, Phase.active])
      exact ⟨hmem, htarget, fun _ => hdry (by simp [hp, Phase.writing])⟩
    next hm =>
      rw [if_neg hm]
      exact h.runs m r hr
  · intro m x hx
    rw [hphase] at hx
    split at hx
    next hm =>
      subst hm
      exact h.rows m x (hsame ▸ hx)
    · exact h.rows m x hx
  · intro m
    rw [hphase]
    split
    next hm =>
      subst hm
      rw [hsame]
      exact h.rowIds m
    · exact h.rowIds m
  · intro m r todo' done' hd
    rw [hphase] at hd
    split at hd
    next hm =>
      cases hd
      intro x hx
      rcases List.mem_append.mp hx with hx | hx
      · exact h.done n run _ done hp x hx
      · rw [List.mem_singleton.mp hx]
        exact ⟨random, he⟩
    · exact h.done m r todo' done' hd

theorem commitBatch (h : Inv cs w) (hagree : ∀ d ∈ cs, ∀ d' ∈ cs, Cryptor.Agree d d')
    {run run' : Campaign aead} {done : List (TenantResourceValue × Encrypted)}
    (hp : w.campaigns n = .inBatch run [] done) (hcryptor : run'.cryptor = run.cryptor)
    (hconfig : run'.config = run.config) :
    Inv cs { w.setPhase n (.batched run' done.length) with
      catalog := World.withRows run.config.targetVersion w.catalog done
      locks := Locks.release w.locks (.campaign n) } := by
  have hphase : ∀ m, (w.setPhase n (.batched run' done.length)).campaigns m =
      if m = n then .batched run' done.length else w.campaigns m :=
        fun m => Function.update_apply _ _ _ _
  obtain ⟨hmem, htarget, hdry⟩ := h.runs n run (by simp [hp, Phase.active])
  have hrows : (w.campaigns n).rows = done.map Prod.fst := by simp [hp, Phase.rows]
  refine ⟨?_, h.exclusive.release _, ?_, ?_, ?_, ?_, ?_⟩
  · change Agrees cs (World.withRows run.config.targetVersion w.catalog done) w.plain
    rw [htarget]
    refine agrees_withRows h.agrees hmem (fun d hd => hagree d hd _ hmem) ?_ fun x hx => ?_
    · have hids := h.rowIds n
      rwa [hrows, List.map_map] at hids
    · obtain ⟨hvalue, hcipher, -⟩ := h.rows n x.1 (hrows ▸ List.mem_map_of_mem hx)
      exact ⟨hvalue, hcipher, h.done n run [] done hp x hx⟩
  · intro m x hx
    obtain ⟨hlock, hready, huses⟩ := h.writers m x hx
    refine ⟨Locks.mem_release.mpr ⟨hlock, nofun⟩, ?_, huses⟩
    exact hready.of_shape ⟨withRows_fields, by rw [withRows_resources]⟩
  · intro m r hr
    change ((w.setPhase n (.batched run' done.length)).campaigns m).active = some r at hr
    rw [hphase] at hr
    split at hr
    next hm =>
      cases hr
      rw [hcryptor, hconfig]
      exact ⟨hmem, htarget, fun _ => hdry (by simp [hp, Phase.writing])⟩
    next hm =>
      refine ⟨(h.runs m r hr).1, (h.runs m r hr).2.1, fun hw => (h.runs m r hr).2.2 ?_⟩
      change ((w.setPhase n (.batched run' done.length)).campaigns m).writing = true at hw
      rwa [hphase, if_neg hm] at hw
  · intro m row hrow
    change row ∈ ((w.setPhase n (.batched run' done.length)).campaigns m).rows at hrow
    rw [hphase] at hrow
    split at hrow
    · cases hrow
    next hm =>
      obtain ⟨hvalue, hcipher, hlock⟩ := h.rows m row hrow
      refine ⟨mem_withRows hvalue fun x hx hid => ?_, hcipher,
        Locks.mem_release.mpr ⟨hlock, by simpa using hm⟩⟩
      -- a row of another batch is locked by another campaign
      obtain ⟨hxvalue, -, hxlock⟩ := h.rows n x.1 (hrows ▸ List.mem_map_of_mem hx)
      obtain rfl := h.agrees.wellFormed.valueIds.eq_of_key hxvalue hvalue hid
      exact hm (by simpa using h.exclusive _ hlock _ hxlock rfl)
  · intro m
    change (((w.setPhase n (.batched run' done.length)).campaigns m).rows.map
      TenantResourceValue.id).Nodup
    rw [hphase]
    split
    · simp [Phase.rows]
    · exact h.rowIds m
  · intro m r todo done' hd
    change (w.setPhase n (.batched run' done.length)).campaigns m = .inBatch r todo done' at hd
    rw [hphase] at hd
    split at hd
    · cases hd
    · exact h.done m r todo done' hd

end Inv

end Tenancit.Rewrap
