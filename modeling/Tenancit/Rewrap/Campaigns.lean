import Tenancit.Rewrap.Safety
import Tenancit.Values.Effective

/-!
Runs of the system of campaigns, writers and maintenance, from any tables that agree with
a plain map and no transaction open.
-/
namespace Tenancit.Rewrap

open Encoding Crypto Store Service Queries Values Table

variable {Key : Type} {aead : Aead Key} {cs : List (Cryptor aead)} {w w' : World aead} {n : Nat}

theorem Inv.campaign (h : Inv cs w) (hagree : ∀ d ∈ cs, ∀ d' ∈ cs, Cryptor.Agree d d')
    {x : CampaignStep aead} (huses : ∀ d ∈ (Label.campaign n x).cryptors, d ∈ cs)
    (hstep : w.campaignStep n x = some w') :
    Inv cs w' := by
  rcases campaignStep_cases hstep with ⟨p, hrows, hgoes, hw⟩ | ⟨run, rfl, hp, rfl⟩ |
    ⟨t, run, row, todo, done, e, rfl, hp, he, rfl⟩ | ⟨clock, run, done, run', rfl, hp,
     hcryptor, hconfig, rfl⟩
  · rcases hw with ⟨adv, rfl⟩ | rfl
    · exact h.outside hrows hgoes huses rfl rfl rfl rfl (.inl rfl)
    · exact h.outside hrows hgoes huses rfl rfl rfl rfl (.inr rfl)
  · refine h.select hp (fun row hrow => ?_) (selectBatch_ids_nodup h.agrees.wellFormed)
    obtain ⟨hmem, hcipher, hfree⟩ := mem_selectBatch hrow
    exact ⟨hmem, hcipher, by simpa using hfree⟩
  · exact h.row hp (processRow_eq_ok he).2
  · exact h.commitBatch hagree hp hcryptor hconfig

theorem Inv.maintain (h : Inv cs w) (m : Maintenance) (ticks : List Tick)
    (hundisturbed : World.Undisturbed w.locks w.catalog (m.body.after ticks w.catalog)) :
    Inv cs { w with
      catalog := m.body.after ticks w.catalog
      plain := forget (m.body.after ticks w.catalog) w.plain } := by
  have hagrees := h.agrees.maintain m ticks
  refine h.environment rfl hagrees h.exclusive (fun n x hx => ?_) (fun n k hk => hk)
    fun n v hv hlock => ?_
  · obtain ⟨hlock, hready, huses⟩ := h.writers n x hx
    refine ⟨hlock, ?_, huses⟩
    cases x with
    | store cryptor resourceId field text ts =>
      obtain ⟨f, hf, hid, hsecret⟩ := hready
      obtain ⟨f', hf', hid', hsecret'⟩ := (hundisturbed _ hlock).2 f hf hid
      exact ⟨f', hf', hid'.trans hid, hsecret'.trans hsecret⟩
    | remove resourceId fieldId t => trivial
  · have hself : findValue w.catalog v.tenantResourceId v.resourceFieldId = some v :=
      lookup_self h.agrees.wellFormed.valueKeys hv
    exact mem_of_lookup (((hundisturbed _ hlock).1).trans hself)

theorem Inv.createResource (h : Inv cs w) {now : Timestamp} {arg : CreateTenantResourceParams}
    {t : Tick} {res : TenantResource} {c' : Catalog}
    (hcreate : createTenantResource now arg t w.catalog = .ok (res, c')) :
    Inv cs { w with catalog := c', plain := w.plain.link res.id arg.sourceResourceId } := by
  have hagrees := h.agrees.create hcreate
  obtain ⟨-, -, -, -, -, rfl⟩ := createTenantResource_ok hcreate
  refine h.environment rfl hagrees h.exclusive (fun n x hx => ?_)
    (fun n k hk => hk) fun n v hv _ => hv
  obtain ⟨hlock, hready, huses⟩ := h.writers n x hx
  refine ⟨hlock, ?_, huses⟩
  cases x with
  | store cryptor resourceId field text ts => exact hready
  | remove resourceId fieldId t => trivial

theorem Inv.write (h : Inv cs w) {x : ValueWrite aead}
    (hfree : Locks.Free w.locks (.writer n) x.key) (hready : x.Ready w.catalog)
    (huses : ∀ d ∈ (Label.write n x).cryptors, d ∈ cs) :
    Inv cs { w with
      locks := Locks.acquire w.locks (.writer n) [x.key]
      writers := Function.update w.writers n (w.writers n ++ [x]) } := by
  refine h.environment rfl h.agrees (h.exclusive.acquire (by simpa using hfree)) (fun m y hy => ?_)
    (fun m k hk => Locks.mem_acquire.mpr (.inl hk)) fun m v hv _ => hv
  have hold : ∀ y ∈ w.writers m, (Owner.writer m, y.key) ∈
    Locks.acquire w.locks (.writer n) [x.key] ∧
      y.Ready w.catalog ∧ y.UsesIn cs := by
    intro y hy
    obtain ⟨hlock, hrest⟩ := h.writers m y hy
    exact ⟨Locks.mem_acquire.mpr (.inl hlock), hrest⟩
  change y ∈ Function.update w.writers n (w.writers n ++ [x]) m at hy
  rw [Function.update_apply] at hy
  split at hy
  next hm =>
    subst hm
    rcases List.mem_append.mp hy with hy | hy
    · exact hold y hy
    · obtain rfl := List.mem_singleton.mp hy
      refine ⟨Locks.mem_acquire.mpr (.inr ⟨rfl, by simp⟩), hready, ?_⟩
      cases y with
      | store cryptor resourceId field text ts => exact huses cryptor (by simp [Label.cryptors])
      | remove resourceId fieldId t => trivial
  · exact hold y hy

/-- The end of a writer's transaction, which leaves the rows of others alone. -/
theorem Inv.writerEnds (h : Inv cs w) {c' : Catalog} {o' : PlainValues} (hagrees : Agrees cs c' o')
    (hshape : SameShape w.catalog c')
    (hrows : ∀ v ∈ w.catalog.values, (∀ x ∈ w.writers n, valueKey v ≠ x.key) → v ∈ c'.values) :
    Inv cs { w with
      catalog := c'
      plain := o'
      locks := Locks.release w.locks (.writer n)
      writers := Function.update w.writers n [] } := by
  refine h.environment rfl hagrees (h.exclusive.release _) (fun m y hy => ?_)
    (fun m k hk => Locks.mem_release.mpr ⟨hk, nofun⟩) fun m v hv hlock =>
      hrows v hv fun x hx hkey => ?_
  · change y ∈ Function.update w.writers n [] m at hy
    rw [Function.update_apply] at hy
    split at hy
    · cases hy
    next hm =>
      obtain ⟨hlock, hready, huses⟩ := h.writers m y hy
      exact ⟨Locks.mem_release.mpr ⟨hlock, by simpa using hm⟩, hready.of_shape hshape, huses⟩
  · -- a row of a batch is locked by its campaign, not by the writer
    have hsame := h.exclusive _ hlock _ (h.writers n x hx).1 hkey
    cases hsame

/-- Every step keeps the invariant. -/
theorem Inv.step (h : Inv cs w) (hagree : ∀ d ∈ cs, ∀ d' ∈ cs, Cryptor.Agree d d') {l : Label aead}
    (huses : ∀ d ∈ l.cryptors, d ∈ cs) (hstep : w.step l = some w') : Inv cs w' := by
  cases l with
  | maintain m ticks =>
    simp only [World.step, Option.ite_none_right_eq_some, Option.some.injEq] at hstep
    obtain ⟨hundisturbed, rfl⟩ := hstep
    exact h.maintain m ticks hundisturbed
  | createResource now arg t =>
    simp only [World.step] at hstep
    split at hstep
    next res c' hcreate =>
      cases hstep
      exact h.createResource hcreate
    · cases hstep
      exact h
  | write n x =>
    simp only [World.step, Option.ite_none_right_eq_some, Option.some.injEq] at hstep
    obtain ⟨⟨hfree, hready⟩, rfl⟩ := hstep
    exact h.write hfree hready huses
  | commitWriter n =>
    simp only [World.step] at hstep
    split at hstep
    next c' happly =>
      cases hstep
      obtain ⟨hagrees, hshape, hrows⟩ :=
        ValueWrite.applyAll_spec h.agrees (fun x hx => (h.writers n x hx).2.1)
        (fun x hx => (h.writers n x hx).2.2) happly
      exact h.writerEnds hagrees hshape hrows
    · cases hstep
  | rollbackWriter n =>
    cases hstep
    exact h.writerEnds h.agrees (SameShape.refl _) fun v hv _ => hv
  | campaign n x => exact h.campaign hagree huses hstep

/-- No transaction is open and no campaign runs. -/
structure World.Quiet (w : World aead) : Prop where
  locks : w.locks = []
  writers : ∀ n, w.writers n = []
  campaigns : ∀ n, w.campaigns n = .idle

theorem World.Quiet.inv (hquiet : w.Quiet) (h : Agrees cs w.catalog w.plain) : Inv cs w where
  agrees := h
  exclusive := by simp [hquiet.locks]
  writers n x hx := by simp [hquiet.writers] at hx
  runs n run hr := by simp [hquiet.campaigns, Phase.active] at hr
  rows n row hrow := by simp [hquiet.campaigns, Phase.rows] at hrow
  rowIds n := by simp [hquiet.campaigns, Phase.rows]
  done n run todo done hp := by simp [hquiet.campaigns] at hp

abbrev Step (w : World aead) (l : Label aead) (w' : World aead) : Prop :=
  Runs.Steps World.step w l w'

theorem Inv.run (h : Inv cs w) (hagree : ∀ d ∈ cs, ∀ d' ∈ cs, Cryptor.Agree d d')
    {ls : List (Label aead)} (hrun : Runs.Run Step w ls w')
    (huses : ∀ l ∈ ls, ∀ d ∈ l.cryptors, d ∈ cs) : Inv cs w' := by
  induction hrun with
  | nil w => exact h
  | cons hstep _ ih =>
    exact ih (h.step hagree (huses _ (.head _)) hstep) fun l hl => huses l (.tail _ hl)

/-- The configuration of a write campaign that has counted no row left. -/
def Phase.settled : Phase aead → Option Config
  | counted run => some run.config
  | finished run none => if run.config.dryRun then none else some run.config
  | _ => none

@[simp] theorem setPhase_self (p : Phase aead) : (w.setPhase n p).campaigns n = p :=
  Function.update_self ..

@[simp] theorem leave_self (p : Phase aead) : (w.leave n p).campaigns n = p :=
  Function.update_self ..

theorem settled_campaignStep {x : CampaignStep aead} {config : Config}
    (hstep : w.campaignStep n x = some w') (hsettled : (w'.campaigns n).settled = some config) :
    (w.campaigns n).settled = some config ∨
      ∃ clock, Label.campaign n x = .campaign n (.count clock) ∧
        remaining config.targetVersion w.catalog = 0 := by
  cases x with
  | count clock =>
    simp only [World.campaignStep] at hstep
    split at hstep
    next run processed hp =>
      cases hstep
      simp only [World.afterCount] at hsettled
      split at hsettled
      next hzero =>
        simp only [setPhase_self, Phase.settled, Option.some.injEq] at hsettled
        exact .inr ⟨clock, rfl, hsettled ▸ hzero⟩
      · repeat' split at hsettled
        all_goals simp [Phase.settled] at hsettled
    · cases hstep
  | report published clock =>
    simp only [World.campaignStep] at hstep
    split at hstep
    next run hp =>
      cases hstep
      rw [leave_self] at hsettled
      left
      cases published with
      | false => simp [Phase.settled] at hsettled
      | true =>
        simp only [Phase.settled, if_true, Option.ite_none_left_eq_some,
          Option.some.injEq] at hsettled
        rw [hp, Phase.settled, ← hsettled.2]
    · cases hstep
  | countDryRun clock =>
    simp only [World.campaignStep] at hstep
    split at hstep
    next run hp =>
      split at hstep
      next hdry =>
        cases hstep
        simp [Phase.settled, hdry] at hsettled
      · cases hstep
    · cases hstep
  -- the other steps lead into phases that are not settled
  | start cryptor config clock =>
    simp only [World.campaignStep] at hstep
    repeat' split at hstep
    all_goals cases hstep
    all_goals simp [Phase.settled] at hsettled
  | acquire =>
    simp only [World.campaignStep] at hstep
    repeat' split at hstep
    all_goals cases hstep
    all_goals simp [Phase.settled] at hsettled
  | preflight =>
    simp only [World.campaignStep] at hstep
    repeat' split at hstep
    all_goals cases hstep
    all_goals simp [Phase.settled] at hsettled
  | evidence found clock =>
    simp only [World.campaignStep] at hstep
    repeat' split at hstep
    all_goals cases hstep
    all_goals simp [Phase.settled] at hsettled
  | select =>
    simp only [World.campaignStep] at hstep
    split at hstep
    all_goals cases hstep
    all_goals simp [Phase.settled] at hsettled
  | row t =>
    simp only [World.campaignStep] at hstep
    repeat' split at hstep
    all_goals cases hstep
    all_goals simp [Phase.settled] at hsettled
  | commitBatch clock =>
    simp only [World.campaignStep] at hstep
    split at hstep
    all_goals cases hstep
    all_goals simp [Phase.settled] at hsettled
  | fail err =>
    simp only [World.campaignStep] at hstep
    split at hstep
    all_goals cases hstep
    all_goals simp [Phase.settled] at hsettled
  | crash =>
    cases hstep
    simp [Phase.settled] at hsettled

/-- A campaign is settled by its count, and stays settled until it is over. -/
theorem settled_step {l : Label aead} {config : Config} (hstep : w.step l = some w')
    (hsettled : (w'.campaigns n).settled = some config) : (w.campaigns n).settled = some config ∨
      ∃ clock, l = .campaign n (.count clock) ∧ remaining config.targetVersion w.catalog = 0 := by
  cases l with
  | maintain m ticks =>
    simp only [World.step, Option.ite_none_right_eq_some, Option.some.injEq] at hstep
    obtain ⟨-, rfl⟩ := hstep
    exact .inl hsettled
  | createResource now arg t =>
    simp only [World.step] at hstep
    split at hstep <;> cases hstep <;> exact .inl hsettled
  | write m x =>
    simp only [World.step, Option.ite_none_right_eq_some, Option.some.injEq] at hstep
    obtain ⟨-, rfl⟩ := hstep
    exact .inl hsettled
  | commitWriter m =>
    simp only [World.step] at hstep
    split at hstep
    · cases hstep
      exact .inl hsettled
    · cases hstep
  | rollbackWriter m =>
    cases hstep
    exact .inl hsettled
  | campaign m x =>
    by_cases hm : m = n
    · subst hm
      exact settled_campaignStep hstep hsettled
    · left
      rcases campaignStep_cases hstep with ⟨p, -, -, ⟨adv, rfl⟩ | rfl⟩ | ⟨run, -, -, rfl⟩ |
        ⟨t, run, row, todo, done, e, -, -, -, rfl⟩ | ⟨clock, run, done, run', -, -, -, -, rfl⟩
      all_goals simpa [World.setPhase, World.leave, Function.update_apply, Ne.symm hm]
        using hsettled

/-- A settled campaign counts no more. -/
theorem settled_ne_count {config : Config} (hsettled : (w.campaigns n).settled = some config)
    {l : Label aead} (hstep : w.step l = some w') (clock : Timestamp) :
    Label.campaign n (.count clock) ≠ l := by
  rintro rfl
  simp only [World.step, World.campaignStep] at hstep
  split at hstep
  next run processed hp => simp [hp, Phase.settled] at hsettled
  · cases hstep

/-- A settled campaign found no row left when it last counted, in a state that the run went
through. -/
theorem settled_run {ls : List (Label aead)} (hrun : Runs.Run Step w ls w') (hquiet : w.Quiet)
    {config : Config} (hsettled : (w'.campaigns n).settled = some config) : ∃ xs ys m clock,
      ls = xs ++ Label.campaign n (.count clock) :: ys ∧ Runs.Run Step w xs m ∧
        (∀ later, Label.campaign n (.count later) ∉ ys) ∧
        remaining config.targetVersion m.catalog = 0 := by
  refine hrun.history (P := fun ls w' => (w'.campaigns n).settled = some config → ∃ xs ys m clock,
      ls = xs ++ Label.campaign n (.count clock) :: ys ∧ Runs.Run Step w xs m ∧
        (∀ later, Label.campaign n (.count later) ∉ ys) ∧
        remaining config.targetVersion m.catalog = 0) ?_ ?_ hsettled
  · intro h
    simp [hquiet.campaigns, Phase.settled] at h
  · intro ls u l t hls ih hstep h
    rcases settled_step hstep h with hold | ⟨clock, rfl, hzero⟩
    · obtain ⟨xs, ys, m, clock, rfl, hxs, hlast, hzero⟩ := ih hold
      refine ⟨xs, ys ++ [l], m, clock, by simp, hxs, fun later hmem => ?_, hzero⟩
      rcases List.mem_append.mp hmem with hmem | hmem
      · exact hlast later hmem
      · exact settled_ne_count hold hstep later (List.mem_singleton.mp hmem)
    · exact ⟨ls, [], u, clock, rfl, hls, fun _ => List.not_mem_nil, hzero⟩

/-- What a step of a campaign does to the tables. -/
theorem campaign_tables (h : Inv cs w) {x : CampaignStep aead}
    (hstep : w.campaignStep n x = some w') :
    w'.plain = w.plain ∧ w'.catalog.resources = w.catalog.resources ∧
      w'.catalog.values.map plainColumns = w.catalog.values.map plainColumns ∧
      (w'.catalog = w.catalog ∨ ∃ clock run done, x = .commitBatch clock ∧
        run.config.dryRun = false ∧ w.campaigns n = .inBatch run [] done ∧
        w'.catalog = World.withRows run.config.targetVersion w.catalog done) := by
  rcases campaignStep_cases hstep with ⟨p, -, -, ⟨adv, rfl⟩ | rfl⟩ | ⟨run, -, -, rfl⟩ |
    ⟨t, run, row, todo, done, e, -, -, -, rfl⟩ | ⟨clock, run, done, run', rfl, hp, -, -, rfl⟩
  · exact ⟨rfl, rfl, rfl, .inl rfl⟩
  · exact ⟨rfl, rfl, rfl, .inl rfl⟩
  · exact ⟨rfl, rfl, rfl, .inl rfl⟩
  · exact ⟨rfl, rfl, rfl, .inl rfl⟩
  · refine ⟨rfl, withRows_resources, withRows_plainColumns,
      .inr ⟨clock, run, done, rfl, ?_, hp, rfl⟩⟩
    exact (h.runs n run (by simp [hp, Phase.active])).2.2 (by simp [hp, Phase.writing])

/-- An encrypted row reads as the text of the plain map. -/
theorem Inv.reads (h : Inv cs w) {reader : Cryptor aead} (hreader : ∀ d ∈ cs, d.Keeps reader)
    {v : TenantResourceValue} (hv : v ∈ w.catalog.values) :
    ∃ s, w.plain.own v.tenantResourceId v.resourceFieldId =
      some s ∧ decodeValue reader v = .ok s := by
  obtain ⟨f, hf, hfid⟩ := h.agrees.wellFormed.valueField v hv
  obtain ⟨r, hr, hrid⟩ := h.agrees.wellFormed.valueResource v hv
  have hfound : findValue w.catalog r.id f.id = some v :=
    (lookup_eq_some h.agrees.wellFormed.valueKeys).mpr ⟨hv, by simp [valueKey, hrid, hfid]⟩
  obtain ⟨s, hs, d, hd, hold⟩ := h.agrees.present r hr f hf v hfound
  exact ⟨s, by rw [← hrid, ← hfid, hs], decodeValue_holds hold (hreader d hd)⟩

/-- What holds at the end of a run of labels, for a reader that has all keys in use. -/
structure Preserved (reader : Cryptor aead) (w : World aead) (ls : List (Label aead))
    (w' : World aead) : Prop where
  /-- Each row reads as the last text a writer committed. -/
  reads : ∀ v ∈ w'.catalog.values, ∃ s, w'.plain.own v.tenantResourceId v.resourceFieldId = some s ∧
    decodeValue reader v = .ok s
  /-- A step of a campaign leaves the plain columns and the resources alone, and all tables
  unless it commits a batch of a write campaign. -/
  steps : ∀ n x w'', w'.campaignStep n x = some w'' → w''.plain = w'.plain ∧
    w''.catalog.resources = w'.catalog.resources ∧
    w''.catalog.values.map plainColumns = w'.catalog.values.map plainColumns ∧
    (w''.catalog = w'.catalog ∨ ∃ clock run done, x = .commitBatch clock ∧
      run.config.dryRun = false ∧
      w'.campaigns n = .inBatch run [] done ∧
      w''.catalog = World.withRows run.config.targetVersion w'.catalog done)
  /-- The rows of an open batch are still those it selected. -/
  selected : ∀ n run todo done, w'.campaigns n = .inBatch run todo done →
    ∀ row ∈ done.map Prod.fst ++ todo, row ∈ w'.catalog.values
  /-- A write campaign that succeeded found no encrypted row under another version at its last
  count. -/
  counted : ∀ n run, w'.campaigns n = .finished run none → run.config.dryRun =
    false → ∃ xs ys m clock,
    ls = xs ++ Label.campaign n (.count clock) :: ys ∧ Runs.Run Step w xs m ∧
      (∀ later, Label.campaign n (.count later) ∉ ys) ∧
      ∀ v ∈ m.catalog.values, v.valueCipher.isSome →
        v.keyVersion = some (Int32.ofInt run.config.targetVersion)

/-- After every interleaving of campaigns, writers and maintenance, with errors and crashes
anywhere, the plaintexts are preserved. -/
theorem rewrap_preserves {reader : Cryptor aead} {ls : List (Label aead)} (hquiet : w.Quiet)
    (hstart : Agrees cs w.catalog w.plain) (hagree : ∀ d ∈ cs, ∀ d' ∈ cs, Cryptor.Agree d d')
    (hreader : ∀ d ∈ cs, d.Keeps reader) (huses : ∀ l ∈ ls, ∀ d ∈ l.cryptors, d ∈ cs)
    (hrun : Runs.Run Step w ls w') : Preserved reader w ls w' := by
  have h : Inv cs w' := (hquiet.inv hstart).run hagree hrun huses
  refine ⟨fun v hv => h.reads hreader hv, fun n x w'' hx => campaign_tables h hx, ?_, ?_⟩
  · intro n run todo done hp row hrow
    exact (h.rows n row (by simpa [hp, Phase.rows] using hrow)).1
  · intro n run hp hdry
    have hsettled : (w'.campaigns n).settled = some run.config := by simp [hp, Phase.settled, hdry]
    obtain ⟨xs, ys, m, clock, hls, hxs, hlast, hzero⟩ := settled_run hrun hquiet hsettled
    refine ⟨xs, ys, m, clock, hls, hxs, hlast, fun v hv hcipher => ?_⟩
    by_contra hversion
    exact remaining_eq_zero.mp hzero v hv ⟨hcipher, hversion⟩

section sample

/-- A resource with a secret field and no value yet. -/
def sampleWorld : World Aead.tagged where
  catalog :=
    { tenants := [⟨1, "acme", "Acme", .active, 0, 0⟩]
      definitions := [⟨2, "db", "DB", "", "", .active, 0, 0⟩]
      fields := [⟨3, 2, "password", "", "", "string", true, true, 0⟩]
      resources :=
        [⟨4, 1, 2, .active, 0, 0, "main", none, "main"⟩,
         ⟨5, 1, 2, .active, 0, 0, "other", none, "other"⟩] }
  plain := Overlay.empty

def sampleOld : Cryptor Aead.tagged := .single Aead.tagged 7

def sampleConfig : Config := ⟨2, 10, false, true, 60, 30, 1, some 9⟩

def sampleStore (resourceId : UUID) (text : String) (start : Nat) : ValueWrite Aead.tagged :=
  .store sampleOld resourceId ⟨3, 2, "password", "", "", "string", true, true,
    0⟩ text (ticksFrom start 2)

/-- Two values are written under the old key; a campaign skips the one that a writer holds,
and takes it in its next batch. -/
def sampleLabels : List (Label Aead.tagged) :=
  [.write 0 (sampleStore 4 "p" 0), .write 0 (sampleStore 5 "q" 2), .commitWriter 0,
   .campaign 1 (.start sampleRotated sampleConfig 0), .campaign 1 .acquire, .campaign 1 .preflight,
   .campaign 1 (.evidence true 0), .write 2 (sampleStore 5 "r" 4), .campaign 1 .select,
   .campaign 1 (.row ⟨0, fun _ => 0, fun _ => 1, .plain⟩), .campaign 1 (.commitBatch 1),
   .campaign 1 (.count 1),
   .commitWriter 2, .campaign 1 .select, .campaign 1 (.row ⟨0, fun _ => 0, fun _ => 2, .plain⟩),
   .campaign 1 (.commitBatch 2), .campaign 1 (.count 2), .campaign 1 (.report true 3)]

def sampleCryptors : List (Cryptor Aead.tagged) := [sampleOld, sampleRotated]

theorem sampleCryptors_agree : ∀ d ∈ sampleCryptors, ∀ d' ∈ sampleCryptors, Cryptor.Agree d d' := by
  have hkeeps : sampleOld.Keeps sampleRotated := rfl
  have hnew : sampleRotated.Agree sampleOld := fun k hk => by cases hk
  simp [sampleCryptors, hkeeps.agree, hnew, (Cryptor.keeps_refl _).agree]

theorem rewrap_preserves_sample : ∃ w, Runs.Run Step sampleWorld sampleLabels w ∧
    Preserved sampleRotated sampleWorld sampleLabels w := by
  have hquiet : sampleWorld.Quiet := ⟨rfl, fun _ => rfl, fun _ => rfl⟩
  have hwf : sampleWorld.catalog.WellFormed := by
    constructor <;> simp [sampleWorld, Keyed]
  have hstart : Agrees sampleCryptors sampleWorld.catalog sampleWorld.plain := by
    refine ⟨hwf, ?_, ?_, ?_⟩ <;> simp [sampleWorld, Overlay.empty, findValue]
  have hreader : ∀ d ∈ sampleCryptors, d.Keeps sampleRotated := by
    have hkeeps : sampleOld.Keeps sampleRotated := rfl
    simp [sampleCryptors, hkeeps, Cryptor.keeps_refl]
  have huses : ∀ l ∈ sampleLabels, ∀ d ∈ l.cryptors, d ∈ sampleCryptors := by
    simp [sampleLabels, sampleStore, Label.cryptors, sampleCryptors]
  have hexec : (Runs.exec World.step sampleWorld sampleLabels).isSome = true := by
    decide +kernel
  obtain ⟨w, hw⟩ := Option.isSome_iff_exists.mp hexec
  have hrun := Runs.exec_eq_some_iff.mp hw
  exact ⟨w, hrun, rewrap_preserves hquiet hstart sampleCryptors_agree hreader huses hrun⟩

/-- The campaign of the sample succeeds with both rows under the new version. -/
example : (Runs.exec World.step sampleWorld sampleLabels).map (fun w =>
    (w.catalog.values.map (·.keyVersion), match w.campaigns 1 with
      | .finished run none => run.summary.rewrapped
      | _ => 0)) = some ([some 2, some 2], 2) := by
  decide +kernel

end sample

end Tenancit.Rewrap
