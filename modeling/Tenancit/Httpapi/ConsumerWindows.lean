import Tenancit.Httpapi.ConsumerWrites

/-!
What admin transactions do between the reads of a value write. The handler reads the
resource with the second statement of a write and the fields with the third; its transaction
locks the resource with the fourth and reads the fields again with the fifth. Whether the
write is clean is what the admin transactions in these two windows leave.
-/
namespace Tenancit.Httpapi.ConsumerWrites

open Encoding Crypto Store Service Queries Table Runs

/-- The label is a statement of write `n`. -/
def Label.isStatement (n : Nat) : Label → Bool
  | .statement m _ => m = n
  | _ => false

/-- The status an admin transaction gives to a resource. -/
def Label.status? (id : UUID) : Label → Option Status
  | .admin (.setResourceStatus _ resourceId status) _ _ =>
    if resourceId = id then some status else none
  | _ => none

/-- Whether the field that an admin transaction adds under a key is secret. -/
def Label.secret? (definitionId : UUID) (key : String) : Label → Option Bool
  | .admin (.addField arg) _ _ =>
    if arg.resourceDefinitionId = definitionId ∧ arg.key = key then some arg.isSecret else none
  | _ => none

/-- The status that admin transactions leave a resource between the handler's read of it and
the lock of the transaction of write `n`; the handler has seen it active. -/
def statusLeft (n : Nat) (ls : List Label) (id : UUID) : Status :=
  (lastSaid (Label.status? id) (between (Label.isStatement n) 2 4 ls)).getD .active

/-- Whether the field under a key is left secret between the handler's check of it and the
read of the transaction of write `n`; the handler has seen one that is not. -/
def secretLeft (n : Nat) (ls : List Label) (definitionId : UUID) (key : String) : Bool :=
  (lastSaid (Label.secret? definitionId key) (between (Label.isStatement n) 3 5 ls)).getD false

section left

variable {n : Nat} {ls : List Label} {l : Label} {id definitionId : UUID} {key : String}

theorem statusLeft_concat : statusLeft n (ls ++ [l]) id =
    if 2 ≤ ls.countP (Label.isStatement n) ∧ ls.countP (Label.isStatement n) < 4 then
      (l.status? id).getD (statusLeft n ls id)
    else statusLeft n ls id := by
  unfold statusLeft
  rw [between_concat]
  split
  · rw [lastSaid_concat]
    cases l.status? id <;> rfl
  · rw [List.append_nil]

theorem secretLeft_concat : secretLeft n (ls ++ [l]) definitionId key =
    if 3 ≤ ls.countP (Label.isStatement n) ∧ ls.countP (Label.isStatement n) < 5 then
      (l.secret? definitionId key).getD (secretLeft n ls definitionId key)
    else secretLeft n ls definitionId key := by
  unfold secretLeft
  rw [between_concat]
  split
  · rw [lastSaid_concat]
    cases l.secret? definitionId key <;> rfl
  · rw [List.append_nil]

/-- Before the windows nothing is left but what the handler is to see. -/
theorem statusLeft_early (h : ls.countP (Label.isStatement n) < 2) :
    statusLeft n ls id = .active := by
  rw [statusLeft, between_eq_nil h]
  rfl

theorem secretLeft_early (h : ls.countP (Label.isStatement n) < 3) :
    secretLeft n ls definitionId key = false := by
  rw [secretLeft, between_eq_nil h]
  rfl

/-- A label that says nothing of a resource or a key leaves both as they are. -/
theorem statusLeft_silent (h : l.status? id = none) :
    statusLeft n (ls ++ [l]) id = statusLeft n ls id := by
  rw [statusLeft_concat, h]
  exact ite_self _

theorem secretLeft_silent (h : l.secret? definitionId key = none) :
    secretLeft n (ls ++ [l]) definitionId key = secretLeft n ls definitionId key := by
  rw [secretLeft_concat, h]
  exact ite_self _

end left

/-- The resource has the definition and the status that the transactions left it. -/
def StatusTold (n : Nat) (ls : List Label) (c : Catalog) (id definitionId : UUID) : Prop :=
  ∀ r ∈ c.resources, r.id = id → r.resourceDefinitionId =
    definitionId ∧ r.status = statusLeft n ls id

/-- A field under the key is as secret as the transactions left it. -/
def SecretTold (n : Nat) (ls : List Label) (c : Catalog) (definitionId : UUID) (key : String) :
    Prop :=
  ∀ f ∈ c.fields, f.resourceDefinitionId = definitionId → f.key = key → f.isSecret =
    secretLeft n ls definitionId key

/-- What a write has read, and what its next reads will find. -/
def Session.Told (n : Nat) (ls : List Label) (c : Catalog) : Session → Prop
  | .begun _ _ _ _ => ls.countP (Label.isStatement n) = 0
  | .foundTenant _ _ _ _ => ls.countP (Label.isStatement n) = 1
  | .foundResource _ resource _ _ => ls.countP (Label.isStatement n) = 2 ∧
    StatusTold n ls c resource.id resource.resourceDefinitionId
  | .checked in_ => ls.countP (Label.isStatement n) = 3 ∧ ∃ definitionId,
    StatusTold n ls c in_.resourceId definitionId ∧ SecretTold n ls c definitionId in_.fieldKey
  | .holding in_ resource =>
    ls.countP (Label.isStatement n) = 4 ∧ resource.status = statusLeft n ls resource.id ∧
    SecretTold n ls c resource.resourceDefinitionId in_.fieldKey
  | .encoded resource field _ =>
    ls.countP (Label.isStatement n) = 5 ∧ resource.status = statusLeft n ls resource.id ∧
    field.isSecret = secretLeft n ls resource.resourceDefinitionId field.key
  | .written resource field _ _ => ls.countP (Label.isStatement n) = 6 ∧
    resource.status = statusLeft n ls resource.id ∧
    field.isSecret = secretLeft n ls resource.resourceDefinitionId field.key
  | .ended => True

/-- The rows after a step are those before it, but for what its label says. -/
structure Label.Explains (l : Label) (c c' : Catalog) : Prop where
  resources : ∀ r' ∈ c'.resources, ∃ r ∈ c.resources, r.id = r'.id ∧ r.resourceDefinitionId =
    r'.resourceDefinitionId ∧
    r'.status = (l.status? r'.id).getD r.status
  fields : ∀ f ∈ c'.fields, l.secret? f.resourceDefinitionId f.key = some f.isSecret ∨
    l.secret? f.resourceDefinitionId f.key = none ∧ f ∈ c.fields

theorem Label.Explains.refl {l : Label} {c : Catalog} (hstatus : ∀ id, l.status? id = none)
    (hsecret : ∀ definitionId key, l.secret? definitionId key = none) : l.Explains c c where
  resources := fun r hr => ⟨r, hr, rfl, rfl, by rw [hstatus]; rfl⟩
  fields := fun f hf => .inr ⟨hsecret _ _, hf⟩

section steps

variable {Key : Type} {aead : Aead Key} {cryptor : Cryptor aead} {w w' : World} {n : Nat}
  {ls : List Label} {l : Label} {c c' : Catalog} {s s' : Session} {t : Tick}
  {id definitionId : UUID} {key : String}

/-- While a window is open its label says what becomes of the rows. -/
theorem StatusTold.step (h : StatusTold n ls c id definitionId) (hl : l.Explains c c')
    (hopen : 2 ≤ ls.countP (Label.isStatement n) ∧ ls.countP (Label.isStatement n) < 4) :
    StatusTold n (ls ++ [l]) c' id definitionId := by
  intro r' hr' hid
  obtain ⟨r, hr, hrid, hdefinition, hstatus⟩ := hl.resources r' hr'
  obtain ⟨hdefinition', hstatus'⟩ := h r hr (hrid.trans hid)
  refine ⟨hdefinition.symm.trans hdefinition', ?_⟩
  rw [hstatus, statusLeft_concat, if_pos hopen, hstatus', hid]

theorem SecretTold.step (h : SecretTold n ls c definitionId key) (hl : l.Explains c c')
    (hopen : 3 ≤ ls.countP (Label.isStatement n) ∧ ls.countP (Label.isStatement n) < 5) :
    SecretTold n (ls ++ [l]) c' definitionId key := by
  intro f hf hdefinition hkey
  subst hdefinition hkey
  rw [secretLeft_concat, if_pos hopen]
  rcases hl.fields f hf with hsaid | ⟨hsilent, hf⟩
  · rw [hsaid]
    rfl
  · rw [hsilent, h f hf rfl rfl]
    rfl

/-- A step that is not a statement of the write leaves what its next reads will find told. -/
theorem Session.Told.step (h : s.Told n ls c) (hother : l.isStatement n = false)
    (hl : l.Explains c c') : s.Told n (ls ++ [l]) c' := by
  have hcount : (ls ++ [l]).countP (Label.isStatement n) = ls.countP (Label.isStatement n) := by
    simp [hother]
  -- a window that has closed hears nothing more
  have hclosed : 4 ≤ ls.countP (Label.isStatement n) → ∀ id,
      statusLeft n (ls ++ [l]) id = statusLeft n ls id :=
    fun hle id => by rw [statusLeft_concat, if_neg (by omega)]
  have hclosed' : 5 ≤ ls.countP (Label.isStatement n) → ∀ definitionId key,
      secretLeft n (ls ++ [l]) definitionId key = secretLeft n ls definitionId key :=
    fun hle definitionId key => by rw [secretLeft_concat, if_neg (by omega)]
  cases s with
  | begun slug resourceAlias fieldKey value => exact hcount.trans h
  | foundTenant tenant resourceAlias fieldKey value => exact hcount.trans h
  | foundResource tenant resource fieldKey value =>
    exact ⟨hcount.trans h.1, h.2.step hl (by rw [h.1]; decide)⟩
  | checked in_ =>
    obtain ⟨h₃, definitionId, hstatus, hsecret⟩ := h
    exact ⟨hcount.trans h₃, definitionId, hstatus.step hl (by rw [h₃]; decide),
      hsecret.step hl (by rw [h₃]; decide)⟩
  | holding in_ resource =>
    obtain ⟨h₄, hstatus, hsecret⟩ := h
    exact ⟨hcount.trans h₄, hstatus.trans (hclosed h₄.ge _).symm,
      hsecret.step hl (by rw [h₄]; decide)⟩
  | encoded resource field arg =>
    obtain ⟨h₅, hstatus, hsecret⟩ := h
    exact ⟨hcount.trans h₅, hstatus.trans (hclosed (by omega) _).symm,
      hsecret.trans (hclosed' h₅.ge _ _).symm⟩
  | written resource field arg t =>
    obtain ⟨h₆, hstatus, hsecret⟩ := h
    exact ⟨hcount.trans h₆, hstatus.trans (hclosed (by omega) _).symm,
      hsecret.trans (hclosed' (by omega) _ _).symm⟩
  | ended => trivial

/-- The next statement of a write reads what has been told, and is told what is still to be read. -/
theorem Session.Told.advance (h : s.Told n ls c) (hc : c.WellFormed)
    (hadvance : s.advance cryptor c t = some s') : s'.Told n (ls ++ [.statement n t]) c := by
  have hcount : (ls ++ [Label.statement n t]).countP (Label.isStatement n) =
      ls.countP (Label.isStatement n) + 1 := by
    simp [Label.isStatement]
  have hstatus : ∀ id, statusLeft n (ls ++ [.statement n t]) id = statusLeft n ls id :=
    fun _ => statusLeft_silent rfl
  have hsecret : ∀ definitionId key, secretLeft n (ls ++ [.statement n t]) definitionId key =
      secretLeft n ls definitionId key := fun _ _ => secretLeft_silent rfl
  cases s with
  | begun slug resourceAlias fieldKey value =>
    obtain ⟨tenant, -, rfl⟩ := Option.map_eq_some_iff.mp hadvance
    exact hcount.trans (congrArg (· + 1) h)
  | foundTenant tenant resourceAlias fieldKey value =>
    obtain ⟨resource, hfound, rfl⟩ := Option.map_eq_some_iff.mp hadvance
    have hrow := one_eq_ok.mp (toOption_eq_some.mp hfound)
    have hactive : resource.status = .active := by
      have hmatch := List.find?_some hrow
      simp only [Bool.and_eq_true, decide_eq_true_eq] at hmatch
      exact hmatch.2
    refine ⟨hcount.trans (congrArg (· + 1) h), fun r hr hid => ?_⟩
    obtain rfl := hc.resourceIds.eq_of_key hr (List.mem_of_find?_eq_some hrow) hid
    exact ⟨rfl, hactive.trans
      ((hstatus _).trans (statusLeft_early (lt_of_eq_of_lt h (by decide)))).symm⟩
  | foundResource tenant resource fieldKey value =>
    obtain ⟨h₂, htold⟩ := h
    simp only [Session.advance] at hadvance
    split at hadvance
    · cases hadvance
    next field hfield =>
      split at hadvance
      · cases hadvance
      next hplain =>
        cases hadvance
        obtain ⟨hmem, hdefinition⟩ := mem_fieldsOf.mp (mem_of_lookup hfield)
        have hkey : field.key = fieldKey := key_of_lookup hfield
        refine ⟨hcount.trans (congrArg (· + 1) h₂), resource.resourceDefinitionId,
          fun r hr hid => ?_, ?_⟩
        · rw [hstatus]
          exact htold r hr hid
        · intro f hf hdefinition' hkey'
          have hpair : (f.resourceDefinitionId, f.key) =
              (field.resourceDefinitionId, field.key) := by
            rw [hdefinition', hkey', hdefinition, hkey]
          obtain rfl := hc.fieldKeys.eq_of_key hf hmem hpair
          rw [hsecret, secretLeft_early (by omega)]
          exact eq_false_of_ne_true hplain
  | checked in_ =>
    obtain ⟨h₃, definitionId, htold, hfields⟩ := h
    obtain ⟨resource, hfound, rfl⟩ := Option.map_eq_some_iff.mp hadvance
    obtain ⟨hmem, hid⟩ := getTenantResource_ok (toOption_eq_some.mp hfound)
    obtain ⟨rfl, hleft⟩ := htold resource hmem hid
    refine ⟨hcount.trans (congrArg (· + 1) h₃), ?_, fun f hf hdefinition hkey => ?_⟩
    · rw [hstatus, hleft, hid]
    · rw [hsecret]
      exact hfields f hf hdefinition hkey
  | holding in_ resource =>
    obtain ⟨h₄, hleft, hfields⟩ := h
    simp only [Session.advance] at hadvance
    split at hadvance
    · cases hadvance
    next field hfield =>
      split at hadvance
      · cases hadvance
      · obtain ⟨r, -, rfl⟩ := Option.map_eq_some_iff.mp hadvance
        obtain ⟨hmem, hdefinition⟩ := mem_fieldsOf.mp (mem_of_lookup hfield)
        have hkey : field.key = in_.fieldKey := key_of_lookup hfield
        refine ⟨hcount.trans (congrArg (· + 1) h₄), hleft.trans (hstatus _).symm, ?_⟩
        rw [hsecret, hkey]
        exact hfields field hmem hdefinition hkey
  | encoded resource field arg =>
    obtain ⟨h₅, hleft, hfields⟩ := h
    obtain ⟨r, -, rfl⟩ := Option.map_eq_some_iff.mp hadvance
    exact ⟨hcount.trans (congrArg (· + 1) h₅), hleft.trans (hstatus _).symm,
      hfields.trans (hsecret _ _).symm⟩
  | written | ended => cases hadvance

/-- An admin transaction changes what its label says, and nothing else of these rows. -/
theorem AdminChange.explains {a : AdminChange} {now : Timestamp} {ticks : List Tick}
    (hc : c.WellFormed) (h : a.apply now ticks c = some c') :
    (Label.admin a now ticks).Explains c c' := by
  cases a with
  | deleteField definitionId fieldId =>
    obtain ⟨⟨f, ts', c₁⟩, hok, rfl⟩ := Option.map_eq_some_iff.mp h
    obtain ⟨_, ts₁, f₀, rfl, -, h₁⟩ := Program.Tx.query_bind_eq_ok.mp (toOption_eq_some.mp hok)
    obtain ⟨_, ts₂, c₂, hdelete, h₂⟩ := Program.Tx.bind_eq_ok.mp h₁
    cases Program.Tx.pure_eq_ok.mp h₂
    obtain ⟨t, ts₃, m, c₃, rfl, hremove, h₃⟩ := Program.Tx.statement_bind_eq_ok.mp hdelete
    obtain ⟨-, heq⟩ := Program.Tx.require_eq_ok.mp h₃
    cases heq
    rcases removeField_ok hremove with ⟨-, rfl⟩ | ⟨-, -, rfl⟩
    · exact .refl (fun _ => rfl) fun _ _ => rfl
    · exact ⟨fun r hr => ⟨r, hr, rfl, rfl, rfl⟩, fun f hf => .inr ⟨rfl, (mem_delete.mp hf).1⟩⟩
  | addField arg =>
    obtain ⟨⟨f, ts', c₁⟩, hok, rfl⟩ := Option.map_eq_some_iff.mp h
    obtain ⟨t, rfl, hadd⟩ :=
      Program.Tx.statement_eq_ok.mp (Program.Tx.mapErr_eq_ok.mp (toOption_eq_some.mp hok))
    obtain ⟨hnew, -, hf, rfl⟩ := addField_ok hadd
    refine ⟨fun r hr => ⟨r, hr, rfl, rfl, rfl⟩, fun g hg => ?_⟩
    rcases List.mem_append.mp hg with hg | hg
    · refine .inr ⟨if_neg fun hsame => (hnew g hg).2 ?_, hg⟩
      rw [hf]
      exact ⟨hsame.1.symm, hsame.2.symm⟩
    · obtain rfl := List.mem_singleton.mp hg
      rw [hf]
      exact .inl (if_pos ⟨rfl, rfl⟩)
  | setResourceStatus tenantId resourceId status =>
    obtain ⟨⟨x, ts', c₁⟩, hok, rfl⟩ := Option.map_eq_some_iff.mp h
    obtain ⟨_, ts₁, previous, rfl, -, h₁⟩ :=
      Program.Tx.query_bind_eq_ok.mp (toOption_eq_some.mp hok)
    obtain ⟨t, ts₂, r, c₂, rfl, hset, h₂⟩ := Program.Tx.statement_bind_eq_ok.mp h₁
    cases Program.Tx.pure_eq_ok.mp h₂
    obtain ⟨row, hrow, -, rfl⟩ := setTenantResourceStatus_ok hset
    refine ⟨fun r' hr' => ?_, fun f hf => .inr ⟨rfl, hf⟩⟩
    obtain ⟨r, hr, rfl⟩ := mem_update.mp hr'
    have hfound := List.find?_some hrow
    simp only [Bool.and_eq_true, decide_eq_true_eq] at hfound
    by_cases hid : r.id = resourceId
    · obtain rfl :=
        hc.resourceIds.eq_of_key hr (List.mem_of_find?_eq_some hrow) (hid.trans hfound.1.symm)
      refine ⟨r, hr, ?_⟩
      simp [hfound, setStatus, Label.status?]
    · refine ⟨r, hr, ?_⟩
      simp [hid, Ne.symm hid, Label.status?]

/-- The touch of a resource at a commit leaves definitions and statuses as they are. -/
theorem explains_commit (h : ConsumerWrites.step cryptor w (.commit n) = some w') :
    (Label.commit n).Explains w.store w'.store := by
  obtain ⟨resource, field, arg, t, a, c, -, hput, rfl⟩ := step_commit h
  obtain ⟨-, -, -, -, vs, rfl, -⟩ := upsertResourceValue_ok hput
  refine ⟨fun r' hr' => ?_, fun f hf => .inr ⟨rfl, hf⟩⟩
  obtain ⟨r, hr, rfl⟩ := mem_update.mp hr'
  refine ⟨r, hr, ?_⟩
  split <;> exact ⟨rfl, rfl, rfl⟩

/-- Every request is told what its windows left it, and no statement is of a request to come. -/
structure Told (ls : List Label) (w : World) : Prop where
  sessions : ∀ (n : Nat) (s : Session), w.sessions[n]? = some s → s.Told n ls w.store
  fresh : ∀ n, w.sessions.length ≤ n → ls.countP (Label.isStatement n) = 0

/-- A step beside the requests: whichever are as before have been told on. -/
theorem Told.beside (h : Told ls w) (hother : ∀ m, l.isStatement m = false)
    (hl : l.Explains w.store c) {ss : List Session} (hlength : ss.length = w.sessions.length)
    (hss : ∀ (m : Nat) (s : Session), ss[m]? = some s → s = .ended ∨ w.sessions[m]? = some s) :
    Told (ls ++ [l]) ⟨c, ss⟩ where
  sessions := by
    intro m s hs
    rcases hss m s hs with rfl | hs
    · trivial
    · exact (h.sessions m s hs).step (hother m) hl
  fresh := by
    intro m hm
    simp [h.fresh m (hlength ▸ hm), hother m]

theorem Told.step (h : Told ls w) (hw : w.store.WellFormed)
    (hstep : ConsumerWrites.step cryptor w l = some w') : Told (ls ++ [l]) w' := by
  -- where only request `n` has ended, every other is as it was
  have hended : ∀ (n m : Nat) (s : Session), (w.sessions.set n .ended)[m]? = some s → s = .ended ∨
      w.sessions[m]? = some s := by
    intro n m s hs
    rcases Locks.set_cases hs with ⟨-, rfl⟩ | ⟨-, hs⟩
    · exact .inl rfl
    · exact .inr hs
  cases l with
  | request slug resourceAlias fieldKey value =>
    simp only [ConsumerWrites.step] at hstep
    split at hstep
    · cases hstep
    cases hstep
    have hl : (Label.request slug resourceAlias fieldKey value).Explains w.store w.store :=
      .refl (fun _ => rfl) fun _ _ => rfl
    refine ⟨fun m s hs => ?_, fun m hm => ?_⟩
    · rcases Locks.concat_cases hs with ⟨rfl, rfl⟩ | ⟨-, hs⟩
      · simpa [Session.Told, Label.isStatement] using h.fresh w.sessions.length le_rfl
      · exact (h.sessions m s hs).step rfl hl
    · have hm' : w.sessions.length ≤ m := by simp at hm; omega
      simpa [Label.isStatement] using h.fresh m hm'
  | statement n t =>
    simp only [ConsumerWrites.step] at hstep
    split at hstep
    · cases hstep
    · cases hstep
    · cases hstep
    next s _ _ hs =>
      split at hstep
      · cases hstep
      cases hstep
      have hl : (Label.statement n t).Explains w.store w.store :=
        .refl (fun _ => rfl) fun _ _ => rfl
      have hlt : n < w.sessions.length := (List.getElem?_eq_some_iff.mp hs).1
      refine ⟨fun m x hx => ?_, fun m hm => ?_⟩
      · rcases Locks.set_cases hx with ⟨rfl, rfl⟩ | ⟨hm, hx⟩
        · cases hadvance : s.advance cryptor w.store t with
          | none => trivial
          | some s' => exact (h.sessions m s hs).advance hw hadvance
        · exact (h.sessions m x hx).step (decide_eq_false fun he => hm he.symm) hl
      · have hm' : w.sessions.length ≤ m := by simpa using hm
        have hne : n ≠ m := by omega
        simp [h.fresh m hm', Label.isStatement, hne]
  | commit n =>
    have hl := explains_commit hstep
    obtain ⟨resource, field, arg, t, a, c, -, -, rfl⟩ := step_commit hstep
    exact h.beside (fun _ => rfl) hl (List.length_set ..) (hended n)
  | abort n =>
    cases hstep
    exact h.beside (fun _ => rfl) (.refl (fun _ => rfl) fun _ _ => rfl)
      (List.length_set ..) (hended n)
  | admin a now ticks =>
    simp only [ConsumerWrites.step] at hstep
    split at hstep
    · cases hstep
    obtain ⟨c, hc, rfl⟩ := Option.map_eq_some_iff.mp hstep
    exact h.beside (fun _ => rfl) (AdminChange.explains hw hc) rfl fun m s hs => .inr hs

end steps

section runs

variable {Key : Type} {aead : Aead Key} {cryptor : Cryptor aead} {xs : List (Served aead)}
  {d : Database} {ls : List Label} {w : World}

theorem told_run (hd : Runs.Run Served.Step {} xs d)
    (h : Runs.Run (Runs.Steps (step cryptor)) ⟨d.domain.catalog, []⟩ ls w) : Told ls w := by
  refine h.history (P := Told) ⟨fun n s hs => ?_, fun n _ => rfl⟩
    fun ys u l v hrun htold hstep => ?_
  · cases hs
  · exact htold.step (inv_run hd hrun).wellFormed hstep

/-- What `P` says of the steps before it, the write, the resource and the field addressed, the
value and the store after it, holds at every commit of the run. -/
def AtCommits (cryptor : Cryptor aead) (c : Catalog) (ls : List Label)
    (P : List Label → Nat → TenantResource → ResourceField → UpsertResourceValueParams →
      Catalog → Prop) : Prop :=
  ∀ ys n zs u v resource field arg t, ls = ys ++
    .commit n :: zs → Runs.Run (Runs.Steps (step cryptor)) ⟨c, []⟩ ys u →
    u.sessions[n]? = some (.written resource field arg t) → step cryptor u (.commit n) = some v →
    P ys n resource field arg v.store

/-- Along every run of writes and admin transactions, from any store that requests lead to, a
write that commits is clean if and only if the admin transactions between the handler's read of
the resource and the lock of the transaction leave it active, and those between the handler's
check of the field and the second read of the fields leave none under its key that is secret. -/
theorem writes_clean_iff (hd : Runs.Run Served.Step {} xs d) :
    AtCommits cryptor d.domain.catalog ls fun ys n resource field arg c => Clean c arg ↔
      statusLeft n ys resource.id = .active ∧
        secretLeft n ys resource.resourceDefinitionId field.key = false := by
  intro ys n zs u v resource field arg t hls hrun hs hstep
  obtain ⟨-, hstatus, hsecret⟩ := (told_run hd hrun).sessions n _ hs
  rw [commit_clean_iff (inv_run hd hrun) hstep hs, hstatus, hsecret]

end runs

section sample

/-- The tenant and the resource of the sample, whose definition has an optional field `note`. -/
def sampleNoted : List (Served Aead.tagged) :=
  sampleSetup.take 4 ++
  [sampleServed 5 (.addField (sampleAdmin 0) (some 19001)
    (.ok ⟨"note", "", "", "", false, false, 0⟩))]

def sampleTick (id : Nat) : Tick := ⟨200, fun k => Fin.ofNat _ (id + k), fun _ => 0, .plain⟩

/-- The rows that a write at the end of an execution has read, if it can commit. -/
def readToCommit (ys : List Label) (n : Nat) : Option (TenantResource × ResourceField) :=
  (Runs.exec (step sampleServer.cryptor) ⟨(afterAll sampleNoted {}).domain.catalog, []⟩ ys).bind
    fun u =>
    (step sampleServer.cryptor u (.commit n)).bind fun _ => u.sessions[n]?.bind fun
      | .written resource field _ _ => some (resource, field)
      | _ => none

theorem readToCommit_eq_some {ys : List Label} {n : Nat} {resource : TenantResource}
    {field : ResourceField} (h : readToCommit ys n = some (resource, field)) : ∃ u v arg t,
      Runs.Run (Runs.Steps (step sampleServer.cryptor))
        ⟨(afterAll sampleNoted {}).domain.catalog, []⟩ ys u ∧
      u.sessions[n]? = some (.written resource field arg t) ∧
      step sampleServer.cryptor u (.commit n) = some v := by
  obtain ⟨u, hu, hrest⟩ := Option.bind_eq_some_iff.mp h
  obtain ⟨v, hv, hsession⟩ := Option.bind_eq_some_iff.mp hrest
  obtain ⟨s, hs, hshown⟩ := Option.bind_eq_some_iff.mp hsession
  split at hshown
  next resource' field' arg t =>
    cases hshown
    exact ⟨u, v, arg, t, Runs.exec_eq_some_iff.mp hu, hs, hv⟩
  · cases hshown

/-- Between the reads of a write of `note` its resource is set inactive and active again, and
the field is deleted and added again. -/
def noteRenewed : List Label :=
  [.request "acme" "main" "note" "hello", .statement 0 (sampleTick 0), .statement 0 (sampleTick 0),
   .admin (.setResourceStatus 3001 59001 .inactive) 200 [sampleTick 0, sampleTick 0],
   .admin (.setResourceStatus 3001 59001 .active) 200 [sampleTick 0, sampleTick 0],
   .statement 0 (sampleTick 0), .admin (.deleteField 19001 91001) 200 [sampleTick 0, sampleTick 0],
   .admin (.addField ⟨19001, "note", "", "", "string", false, false, 0⟩) 200 [sampleTick 200001],
   .statement 0 (sampleTick 0), .statement 0 (sampleTick 0), .statement 0 (sampleTick 300001)]

/-- A write of `note` has passed its checks when the field is deleted and a secret one added
under its key. -/
def noteReplaced : List Label :=
  [.request "acme" "main" "note" "hello", .statement 0 (sampleTick 0), .statement 0 (sampleTick 0),
   .statement 0 (sampleTick 0), .admin (.deleteField 19001 91001) 200 [sampleTick 0, sampleTick 0],
   .admin (.addField ⟨19001, "note", "", "", "string", false, true, 0⟩) 200 [sampleTick 200001],
   .statement 0 (sampleTick 0), .statement 0 (sampleTick 0), .statement 0 (sampleTick 300001)]

theorem writes_clean_sample : ∃ u v resource field arg t,
    Runs.Run (Runs.Steps (step sampleServer.cryptor)) ⟨(afterAll sampleNoted {}).domain.catalog,
      []⟩ noteRenewed u ∧
    u.sessions[0]? = some (.written resource field arg t) ∧
    step sampleServer.cryptor u (.commit 0) = some v ∧ Clean v.store arg := by
  have hread : ((readToCommit noteRenewed 0).map fun r =>
      decide (r.1.id = 59001 ∧ r.1.resourceDefinitionId = 19001 ∧ r.2.key = "note")) =
        some true := by decide +kernel
  obtain ⟨⟨resource, field⟩, hsome, hids⟩ := Option.map_eq_some_iff.mp hread
  obtain ⟨hresource, hdefinition, hkey⟩ := of_decide_eq_true hids
  obtain ⟨u, v, arg, t, hrun, hs, hv⟩ := readToCommit_eq_some hsome
  refine ⟨u, v, resource, field, arg, t, hrun, hs, hv, ?_⟩
  refine (writes_clean_iff (run_afterAll sampleNoted {}) noteRenewed 0 [] u v resource field arg t
    rfl hrun hs hv).mpr ?_
  rw [hresource, hdefinition, hkey]
  decide

/-- The value is stored for the secret field. -/
theorem secret_field_written : ∃ u v resource field arg t,
    Runs.Run (Runs.Steps (step sampleServer.cryptor)) ⟨(afterAll sampleNoted {}).domain.catalog,
      []⟩ noteReplaced u ∧
    u.sessions[0]? = some (.written resource field arg t) ∧
    step sampleServer.cryptor u (.commit 0) = some v ∧ ¬Clean v.store arg := by
  have hread : ((readToCommit noteReplaced 0).map fun r => r.2.isSecret) = some true := by
    decide +kernel
  obtain ⟨⟨resource, field⟩, hsome, hsecret⟩ := Option.map_eq_some_iff.mp hread
  obtain ⟨u, v, arg, t, hrun, hs, hv⟩ := readToCommit_eq_some hsome
  refine ⟨u, v, resource, field, arg, t, hrun, hs, hv, fun hclean => ?_⟩
  have hplain := (commit_clean_iff (inv_run (run_afterAll sampleNoted {}) hrun) hv hs).mp hclean
  rw [hplain.2] at hsecret
  cases hsecret

end sample

end Tenancit.Httpapi.ConsumerWrites
