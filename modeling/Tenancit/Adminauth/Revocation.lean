import Tenancit.Adminauth.Validity

/-!
What the revocation of a principal kills. Its statement passes over sessions that are
expired at its own reading, and compares issuer and subject as they are stored, while the
principal of a session is read without surrounding white space. Where readings are in order
and what is stored has no such space, no session that was there authenticates again.
-/
namespace Tenancit.Adminauth

open Encoding Crypto Store Table Text Locks Runs

variable {Key : Type} {aead : Aead Key} {sha256 : Bytes → Bytes} {servers : Nat → Cryptor aead}

structure OIDCPrincipal where
  issuer : String
  subject : String
  label : String
  sessionId : String
  roles : List String

def adminRoles : List String := ["viewer", "operator", "security_admin"]

def newOIDCPrincipal (issuer subject label sessionId : String) (roles : List String) :
    Option OIDCPrincipal :=
  if trimSpace issuer = "" ∨ trimSpace subject = "" ∨
    trimSpace sessionId = "" ∨ roles = [] then none
  else if ∃ role ∈ roles, role ∉ adminRoles then none
  else some ⟨trimSpace issuer, trimSpace subject, trimSpace label,
    trimSpace sessionId, roles.eraseDups⟩

/-- The principal that a request with the session acts as. -/
def principalFromSession (s : AdminSession) : Option OIDCPrincipal :=
  if ∃ role ∈ s.roles, role ∉ adminRoles then none
  else newOIDCPrincipal s.actorIssuer s.actorSubject (s.actorLabel.getD "") s.id.text s.roles

theorem principalFromSession_ok {s : AdminSession} {p : OIDCPrincipal}
    (h : principalFromSession s = some p) :
    p.issuer = trimSpace s.actorIssuer ∧ p.subject = trimSpace s.actorSubject := by
  unfold principalFromSession newOIDCPrincipal at h
  split at h
  · cases h
  split at h
  · cases h
  · cases h
    exact ⟨rfl, rfl⟩

/-- The revocation was of a principal and is not rolled back. -/
def World.Stands (w : World) (r : Revocation) : Prop :=
  .running r ∈ w.revocations ∨ .committed r ∈ w.revocations

/-- A session of the principal that the statement has passed over since it was expired. -/
def Revocation.Skipped (r : Revocation) (s : AdminSession) : Prop :=
  (∃ issuer subject current, r.target = .principal issuer subject current) ∧
  r.target.Covers s ∧ s.id ∈ r.present ∧
    s.id ∉ r.pending ∧ s.revokedAt = none ∧
    (s.expiresAt ≤ r.revokedAt ∨ s.idleExpiresAt ≤ r.revokedAt)

/-- Sessions are created with issuer and subject free of surrounding white space, and no
authentication of a session that a revocation has skipped has a reading before that
revocation's. -/
def Punctual (sha256 : Bytes → Bytes) (w : World) : Label → Prop
  | .create _ identity _ _ _ _ =>
    trimSpace identity.issuer = identity.issuer ∧ trimSpace identity.subject = identity.subject
  | .authenticate token _ now =>
    ∀ r, w.Stands r → ∀ s ∈ w.sessions, s.tokenHash = hashCredential sha256 token →
      r.Skipped s → r.revokedAt ≤ timestamp now
  | _ => True

/-- No session that was there when a revocation of its principal ran, since committed, and
that is not the session exempted, authenticates in the step. -/
def Killed (w w' : World) : Prop :=
  ∀ r issuer subject current, .committed r ∈ w.revocations → r.target =
    .principal issuer subject current →
    ∀ s ∈ w.sessions, s.id ∈ r.present → s.id ≠ current →
      (∃ p, principalFromSession s = some p ∧ p.issuer = issuer ∧ p.subject = subject) →
        ∀ t d, w'.log ≠ w.log ++ [.authenticated s.id t d]

/-- A revocation has a session of the principal still to reach, or marked, or it is out of
use at the revocation's reading. -/
def Revocation.Reaches (r : Revocation) (s : AdminSession) : Prop :=
  s.id ∈ r.present → r.target.Covers s → s.id ∈ r.pending ∨ s.id ∈ r.marked ∨ ¬s.Live r.revokedAt

/-- What holds in every state reached by punctual steps. -/
structure Swept (w : World) : Prop where
  trimmed : ∀ s ∈ w.sessions, trimSpace s.actorIssuer =
    s.actorIssuer ∧ trimSpace s.actorSubject = s.actorSubject
  present : ∀ r, w.Stands r → ∀ id ∈ r.present, ∃ s ∈ w.sessions, s.id = id
  running : ∀ r issuer subject current, .running r ∈ w.revocations → r.target =
    .principal issuer subject current →
    ∀ s ∈ w.sessions, r.Reaches s
  committed : ∀ r issuer subject current, .committed r ∈ w.revocations → r.target =
    .principal issuer subject current →
    r.pending = [] ∧ ∀ s ∈ w.sessions, s.id ∈ r.present → r.target.Covers s → ¬s.Live r.revokedAt

theorem swept_start : Swept {} where
  trimmed := by simp
  present := by simp [World.Stands]
  running := by simp
  committed := by simp

theorem Target.covers_congr {t : Target} {s s' : AdminSession} (hid : s'.id = s.id)
    (hissuer : s'.actorIssuer = s.actorIssuer) (hsubject : s'.actorSubject = s.actorSubject) :
    t.Covers s' ↔ t.Covers s := by
  cases t with
  | other id current => simp only [Target.Covers, hid]
  | principal issuer subject current => simp only [Target.Covers, hid, hissuer, hsubject]

theorem AdminSession.not_live_revoked (t at_ : Timestamp) (s : AdminSession) :
    ¬(s.revoked t).Live at_ := by
  rintro ⟨h, -⟩
  cases h

section sweep

variable {w w' : World} {l : Label} {log : List Entry}

/-- Sessions change in columns other than identifier and principal, and those out of use at
a revocation's reading stay so. -/
theorem Swept.update (h : Swept w) {p : AdminSession → Bool} {f : AdminSession → AdminSession}
    (hid : ∀ s, (f s).id = s.id) (hissuer : ∀ s, (f s).actorIssuer = s.actorIssuer)
    (hsubject : ∀ s, (f s).actorSubject = s.actorSubject)
    (hlive : ∀ r issuer subject current, w.Stands r → r.target = .principal issuer subject current →
      ∀ s ∈ w.sessions, p s = true → s.id ∈ r.present → r.target.Covers s → s.id ∉ r.pending →
        ¬s.Live r.revokedAt → ¬(f s).Live r.revokedAt) :
    Swept { w with sessions := Table.update p f w.sessions, log := log } where
  trimmed := by
    refine forall_mem_update h.trimmed fun s hs _ => ?_
    rw [hissuer, hsubject]
    exact h.trimmed s hs
  present r hr id hmem := exists_mem_update hid (h.present r hr id hmem)
  running r issuer subject current hr htarget := by
    have hreaches := h.running r issuer subject current hr htarget
    refine forall_mem_update hreaches fun s hs hp hpresent hcovers => ?_
    rw [hid] at hpresent ⊢
    have hcovers := (Target.covers_congr (hid s) (hissuer s) (hsubject s)).mp hcovers
    rcases hreaches s hs hpresent hcovers with hpending | hmarked | hdead
    · exact .inl hpending
    · exact .inr (.inl hmarked)
    · by_cases hpending : s.id ∈ r.pending
      · exact .inl hpending
      · exact .inr (.inr (hlive r _ _ _ (.inl hr) htarget s hs hp hpresent hcovers hpending hdead))
  committed r issuer subject current hr htarget := by
    obtain ⟨hpending, hdead⟩ := h.committed r issuer subject current hr htarget
    refine ⟨hpending, forall_mem_update hdead fun s hs hp hpresent hcovers => ?_⟩
    rw [hid] at hpresent
    have hcovers := (Target.covers_congr (hid s) (hissuer s) (hsubject s)).mp hcovers
    exact hlive r _ _ _ (.inr hr) htarget s hs hp hpresent hcovers (by simp [hpending])
      (hdead s hs hpresent hcovers)

theorem Swept.create (h : Swept w) {row : AdminSession} (hfresh : ∀ s ∈ w.sessions, s.id ≠ row.id)
    (htrimmed : trimSpace row.actorIssuer = row.actorIssuer ∧
      trimSpace row.actorSubject = row.actorSubject) :
    Swept { w with sessions := w.sessions ++ [row], log := log } := by
  have hnew : ∀ r, w.Stands r → row.id ∉ r.present := by
    intro r hr hmem
    obtain ⟨s, hs, hid⟩ := h.present r hr _ hmem
    exact hfresh s hs hid
  refine ⟨fun s hs => ?_, fun r hr id hmem =>
    ?_, fun r issuer subject current hr htarget s hs => ?_,
    fun r issuer subject current hr htarget => ?_⟩
  · rcases List.mem_append.mp hs with hs | hs
    · exact h.trimmed s hs
    · obtain rfl := List.mem_singleton.mp hs
      exact htrimmed
  · obtain ⟨s, hs, hid⟩ := h.present r hr id hmem
    exact ⟨s, List.mem_append_left _ hs, hid⟩
  · rcases List.mem_append.mp hs with hs | hs
    · exact h.running r issuer subject current hr htarget s hs
    · obtain rfl := List.mem_singleton.mp hs
      exact fun hpresent => absurd hpresent (hnew r (.inl hr))
  · obtain ⟨hpending, hdead⟩ := h.committed r issuer subject current hr htarget
    refine ⟨hpending, fun s hs hpresent => ?_⟩
    rcases List.mem_append.mp hs with hs | hs
    · exact hdead s hs hpresent
    · obtain rfl := List.mem_singleton.mp hs
      exact absurd hpresent (hnew r (.inr hr))

/-- A revocation begins or goes on. -/
theorem Swept.advance (h : Swept w) {revocations : List RevocationState} (x : RevocationState)
    (hrest : ∀ y ∈ revocations, y = x ∨ y ∈ w.revocations)
    (hpresent : ∀ r, (x = .running r ∨ x = .committed r) → ∀ id ∈ r.present,
      ∃ s ∈ w.sessions, s.id = id)
    (hrunning : ∀ r issuer subject current, x = .running r →
      r.target = .principal issuer subject current → ∀ s ∈ w.sessions, r.Reaches s)
    (hcommitted : ∀ r issuer subject current, x = .committed r →
      r.target = .principal issuer subject current →
      r.pending = [] ∧ ∀ s ∈ w.sessions, s.id ∈ r.present → r.target.Covers s →
        ¬s.Live r.revokedAt) :
    Swept { w with revocations := revocations } where
  trimmed := h.trimmed
  present r hr := by
    rcases hr with hr | hr
    · rcases hrest _ hr with he | hr
      · exact hpresent r (.inl he.symm)
      · exact h.present r (.inl hr)
    · rcases hrest _ hr with he | hr
      · exact hpresent r (.inr he.symm)
      · exact h.present r (.inr hr)
  running r issuer subject current hr htarget := by
    rcases hrest _ hr with he | hr
    · exact hrunning r issuer subject current he.symm htarget
    · exact h.running r issuer subject current hr htarget
  committed r issuer subject current hr htarget := by
    rcases hrest _ hr with he | hr
    · exact hcommitted r issuer subject current he.symm htarget
    · exact h.committed r issuer subject current hr htarget

/-- A punctual step keeps what holds of revocations. -/
theorem Swept.effect (h : Swept w) (hinv : Inv w) (hpunctual : Punctual sha256 w l)
    (he : Effect sha256 servers w l w') : Swept w' := by
  cases he with
  | idle => exact h
  | created hrow hpolicy hfresh =>
    obtain ⟨-, hissuer, hsubject, -⟩ := newSession_ok hrow hpolicy
    refine h.create (fun s hs => (hfresh s hs).1) ?_
    rw [hissuer, hsubject]
    exact hpunctual
  | @authenticated token policy now absoluteTTL idleTTL s₀ hpolicy hs₀ hok hfree =>
    refine h.update (fun _ => rfl) (fun _ => rfl) (fun _ => rfl) ?_
    intro r issuer subject current hr htarget s hs hp hpresent hcovers hpending hdead
    obtain rfl : s = s₀ := hinv.keyed.eq_of_key hs hs₀ (by simpa using hp)
    obtain ⟨htoken, hunrevoked, hexpires, hidle⟩ := hok
    -- a session that is usable at the reading but was not at the revocation's was skipped
    have hexpired : s.expiresAt ≤ r.revokedAt ∨ s.idleExpiresAt ≤ r.revokedAt := by
      by_contra hneither
      obtain ⟨hlt, hidle'⟩ := not_or.mp hneither
      exact hdead ⟨hunrevoked, Int.not_le.mp hlt, Int.not_le.mp hidle'⟩
    have hreading := hpunctual r hr s hs htoken
      ⟨⟨issuer, subject, current, htarget⟩, hcovers, hpresent, hpending, hunrevoked, hexpired⟩
    rcases hexpired with hle | hle
    · exact absurd (Int.lt_of_lt_of_le hexpires hle) (Int.not_lt.mpr hreading)
    · exact absurd (Int.lt_of_lt_of_le hidle hle) (Int.not_lt.mpr hreading)
  | loggedOut hr hfree =>
    exact h.update (fun _ => rfl) (fun _ => rfl) (fun _ => rfl)
      fun _ _ _ _ _ _ s _ _ _ _ _ _ => s.not_live_revoked _ _
  | began target now =>
    refine h.advance (.running (openRevocation target now w.sessions)) (fun y hy => ?_)
      (fun r hr id hmem => ?_) ?_ ?_
    · rcases List.mem_append.mp hy with hy | hy
      · exact .inr hy
      · exact .inl (List.mem_singleton.mp hy)
    · rcases hr with hr | hr
      · cases hr
        obtain ⟨s, hs, hid⟩ := List.mem_map.mp hmem
        exact ⟨s, hs, hid⟩
      · cases hr
    · rintro r issuer subject current ⟨⟩ htarget s hs hpresent hcovers
      by_cases hlive : s.Live (timestamp now)
      · refine .inl (List.mem_map.mpr ⟨s, List.mem_filter.mpr ⟨hs, ?_⟩, rfl⟩)
        simpa using ⟨hcovers, hlive⟩
      · exact .inr (.inr hlive)
    · rintro r issuer subject current ⟨⟩
  | @reached n r id pending s₀ hn hpending hfree hs₀ =>
    have hr := List.mem_of_getElem? hn
    refine h.advance _ (fun y hy => (List.mem_or_eq_of_mem_set hy).symm) ?_ ?_ ?_
    all_goals unfold Revocation.reach
    · intro r' hr' i hmem
      have hpresent := h.present r (.inl hr)
      split at hr'
      · rcases hr' with hr' | hr' <;> cases hr'
        exact hpresent i hmem
      split at hr'
      · rcases hr' with hr' | hr' <;> cases hr'
        exact hpresent i hmem
      · rcases hr' with hr' | hr' <;> cases hr'
    · intro r' issuer subject current hr' htarget s hs
      have hid : s₀.id = id := key_of_lookup hs₀
      have hsame : ∀ x ∈ w.sessions, x.id = id → x = s₀ :=
        fun x hx hxid => hinv.keyed.eq_of_key hx (mem_of_lookup hs₀) (hxid.trans hid.symm)
      split at hr'
      next hmissed =>
        cases hr'
        intro hpresent hcovers
        rcases h.running r issuer subject current hr htarget s hs hpresent hcovers
          with hmem | hmem | hdead
        · rw [hpending] at hmem
          rcases List.mem_cons.mp hmem with hsid | hmem
          · obtain rfl := hsame s hs hsid
            exact .inr (.inr fun hlive => hmissed ⟨hcovers, hlive⟩)
          · exact .inl hmem
        · exact .inr (.inl hmem)
        · exact .inr (.inr hdead)
      split at hr'
      · cases hr'
        intro hpresent hcovers
        rcases h.running r issuer subject current hr htarget s hs hpresent hcovers
          with hmem | hmem | hdead
        · rw [hpending] at hmem
          rcases List.mem_cons.mp hmem with hsid | hmem
          · exact .inr (.inl (List.mem_append_right _
              (List.mem_singleton.mpr (hsid.trans hid.symm))))
          · exact .inl hmem
        · exact .inr (.inl (List.mem_append_left _ hmem))
        · exact .inr (.inr hdead)
      · cases hr'
    · intro r' issuer subject current hr'
      split at hr'
      · cases hr'
      split at hr' <;> cases hr'
  | @committed n r hn hpending =>
    have hr := List.mem_of_getElem? hn
    have hmarked : Swept { w with
        sessions :=
          Table.update (fun s => s.id ∈ r.marked) (AdminSession.revoked r.revokedAt) w.sessions
        log := w.log ++ r.marked.map .revoked } :=
      h.update (fun _ => rfl) (fun _ => rfl) (fun _ => rfl) fun _ _ _ _ _ _ s _ _ _ _ _ _ =>
        s.not_live_revoked _ _
    refine hmarked.advance (.committed r) (fun y hy => (List.mem_or_eq_of_mem_set hy).symm) ?_
      (by rintro r' issuer subject current ⟨⟩) ?_
    · rintro r' (⟨⟨⟩⟩ | ⟨⟨⟩⟩)
      exact hmarked.present r (.inl hr)
    · rintro r' issuer subject current ⟨⟩ htarget
      refine ⟨hpending, fun x hx hpresent hcovers => ?_⟩
      obtain ⟨s, hs, rfl⟩ := mem_update.mp hx
      split
      · exact s.not_live_revoked _ _
      next hunmarked =>
        rw [if_neg hunmarked] at hpresent hcovers
        rcases h.running r issuer subject current hr htarget s hs hpresent hcovers
          with hmem | hmem | hdead
        · rw [hpending] at hmem
          cases hmem
        · exact absurd (by simpa using hmem) hunmarked
        · exact hdead
  | rolledBack n =>
    exact h.advance .ended (fun y hy => (List.mem_or_eq_of_mem_set hy).symm)
      (by rintro r (⟨⟨⟩⟩ | ⟨⟨⟩⟩))
      (by rintro r issuer subject current ⟨⟩) (by rintro r issuer subject current ⟨⟩)

end sweep

/-- The steps of a run that are punctual. -/
def PunctualStep (sha256 : Bytes → Bytes) (servers : Nat → Cryptor aead) :
    World → Label → World → Prop :=
  Guarded (Punctual sha256) (Steps (step sha256 servers))

theorem run_swept {w : World} {ls : List Label} (h : Run (PunctualStep sha256 servers) {} ls w) :
    Inv w ∧ Swept w := by
  refine h.invariant (P := fun w => Inv w ∧ Swept w) ?_ ⟨inv_start, swept_start⟩
  rintro s l t ⟨hinv, hswept⟩ ⟨hpunctual, hstep⟩
  have heffect := step_effect hstep
  exact ⟨hinv.effect heffect, hswept.effect hinv hpunctual heffect⟩

/-- In a run of punctual steps the revocation of a principal kills all its sessions: once it
has committed, none that was there authenticates, but the one exempted. -/
theorem revocation_kills {w w' : World} {ls : List Label} {l : Label}
    (hrun : Run (PunctualStep sha256 servers) {} ls w)
    (hstep : PunctualStep sha256 servers w l w') : Killed w w' := by
  obtain ⟨hinv, hswept⟩ := run_swept hrun
  obtain ⟨hpunctual, hstep⟩ := hstep
  intro r issuer subject current hr htarget s hs hpresent hother hprincipal t d hlog
  obtain ⟨p, hp, rfl, rfl⟩ := hprincipal
  obtain ⟨s', hs', hid, ⟨hunrevoked, hexpires, hidle⟩, -, token, policy, rfl, htoken⟩ :=
    effect_authenticated (step_effect hstep) hlog
  obtain rfl : s' = s := hinv.keyed.eq_of_key hs' hs hid
  obtain ⟨hissuer, hsubject⟩ := principalFromSession_ok hp
  obtain ⟨hissuer', hsubject'⟩ := hswept.trimmed s' hs
  have hcovers : r.target.Covers s' := by
    rw [htarget]
    exact ⟨(hissuer.trans hissuer').symm, (hsubject.trans hsubject').symm, hother⟩
  obtain ⟨hpending, hdead⟩ := hswept.committed r _ _ _ hr htarget
  have hdead := hdead s' hs hpresent hcovers
  have hexpired : s'.expiresAt ≤ r.revokedAt ∨ s'.idleExpiresAt ≤ r.revokedAt := by
    by_contra hneither
    obtain ⟨hlt, hidle'⟩ := not_or.mp hneither
    exact hdead ⟨hunrevoked, Int.not_le.mp hlt, Int.not_le.mp hidle'⟩
  have hreading := hpunctual r (.inr hr) s' hs htoken
    ⟨⟨_, _, _, htarget⟩, hcovers, hpresent, by simp [hpending], hunrevoked, hexpired⟩
  rcases hexpired with hle | hle
  · exact absurd (Int.lt_of_lt_of_le hexpires hle) (Int.not_lt.mpr hreading)
  · exact absurd (Int.lt_of_lt_of_le hidle hle) (Int.not_lt.mpr hreading)

def RevocationState.revocation : RevocationState → Option Revocation
  | .committed r => some r
  | _ => none

/-- A session of the principal that was there authenticates after the revocation. -/
def Survives (issuer subject : String) (current : UUID) (t d : Nanoseconds) (w w' : World) : Prop :=
  ∃ r ∈ w.revocations.filterMap RevocationState.revocation,
  r.target = .principal issuer subject current ∧
    ∃ s ∈ w.sessions, s.id ∈ r.present ∧ s.id ≠ current ∧
      (principalFromSession s).map (fun p => (p.issuer, p.subject)) = some (issuer, subject) ∧
        w'.log = w.log ++ [.authenticated s.id t d]

instance (issuer subject : String) (current : UUID) (t d : Nanoseconds) (w w' : World) :
    Decidable (Survives issuer subject current t d w w') := by
  unfold Survives
  infer_instance

theorem Survives.not_killed {issuer subject : String} {current : UUID} {t d : Nanoseconds}
    {w w' : World} (h : Survives issuer subject current t d w w') : ¬Killed w w' := by
  obtain ⟨r, hr, htarget, s, hs, hpresent, hother, hprincipal, hlog⟩ := h
  obtain ⟨x, hx, hxr⟩ := List.mem_filterMap.mp hr
  obtain ⟨p, hp, heq⟩ := Option.map_eq_some_iff.mp hprincipal
  cases x with
  | running r' => cases hxr
  | ended => cases hxr
  | committed r' =>
    cases hxr
    exact fun hkilled => hkilled r issuer subject current hx htarget s hs hpresent hother
      ⟨p, hp, congrArg Prod.fst heq, congrArg Prod.snd heq⟩ t d hlog

def sampleRevoke (seconds : Int) : Label :=
  .revokePrincipal "https://id.example" "alice" 9 (seconds * second)

/-- A session at its idle limit, revoked at a reading of that limit and used at one right
before; and a session whose subject is stored with a space in front. -/
theorem revoked_session_authenticates :
    (∃ w w', Run (Steps (step sampleSha sampleServers)) {} [sampleCreate "alice" 1 5,
      sampleRevoke 1800, .commit 0] w ∧
      step sampleSha sampleServers w (sampleUse 1 1799) = some w' ∧ ¬Killed w w') ∧
    ∃ w w', Run (Steps (step sampleSha sampleServers)) {}
    [sampleCreate " alice" 1 5, sampleRevoke 10, .commit 0] w ∧
      step sampleSha sampleServers w (sampleUse 1 20) = some w' ∧ ¬Killed w w' := by
  have hsurvives : ∀ ls use t, (exec (step sampleSha sampleServers) {} ls).bind (fun w =>
      (step sampleSha sampleServers w use).map fun w' =>
        decide (Survives "https://id.example" "alice" 9 t (1800 * second) w w')) = some true →
      ∃ w w', Run (Steps (step sampleSha sampleServers))
        {} ls w ∧ step sampleSha sampleServers w use = some w' ∧
        ¬Killed w w' := by
    intro ls use t h
    obtain ⟨w, hw, hstep⟩ := Option.bind_eq_some_iff.mp h
    obtain ⟨w', hw', hsurvives⟩ := Option.map_eq_some_iff.mp hstep
    exact ⟨w, w', exec_eq_some_iff.mp hw, hw', (of_decide_eq_true hsurvives).not_killed⟩
  constructor
  · exact hsurvives _ _ (1799 * second) (by decide +kernel)
  · exact hsurvives _ _ (20 * second) (by decide +kernel)

theorem run_punctual {w w' : World} {ls : List Label}
    (h : Run (Steps (step sha256 servers)) w ls w') (hls : ∀ l ∈ ls, ∀ u, Punctual sha256 u l) :
    Run (PunctualStep sha256 servers) w ls w' := by
  induction h with
  | nil s => exact .nil s
  | cons hstep _ ih => exact .cons ⟨hls _ (.head _) _, hstep⟩ (ih fun l hl => hls l (.tail _ hl))

def sampleRevoked : List Label := [sampleCreate "alice" 1 5, sampleRevoke 10, .mark 0, .commit 0]

/-- The session of the sample is used after its revocation, in vain. -/
theorem revocation_kills_sample :
    ∃ w w', Run (PunctualStep sampleSha sampleServers) {} sampleRevoked w ∧
    PunctualStep sampleSha sampleServers w (sampleUse 1 20) w' ∧ w'.log = w.log ∧ Killed w w' := by
  have hexec : (exec (step sampleSha sampleServers) {} sampleRevoked).bind (fun w =>
      (step sampleSha sampleServers w (sampleUse 1 20)).map fun w' =>
        (decide (w'.log = w.log), w.revocations.map fun x =>
          x.revocation.map Revocation.revokedAt)) =
          some (true, [some 10000000]) := by decide +kernel
  obtain ⟨w, hw, hstep⟩ := Option.bind_eq_some_iff.mp hexec
  obtain ⟨w', hw', heq⟩ := Option.map_eq_some_iff.mp hstep
  obtain ⟨hlog, hreadings⟩ := Prod.mk.inj heq
  have hrun : Run (PunctualStep sampleSha sampleServers) {} sampleRevoked w := by
    refine run_punctual (exec_eq_some_iff.mp hw) fun l hl u => ?_
    simp only [sampleRevoked, List.mem_cons, List.not_mem_nil, or_false] at hl
    rcases hl with rfl | rfl | rfl | rfl
    · exact ⟨by decide +kernel, by decide +kernel⟩
    all_goals trivial
  have hpunctual : Punctual sampleSha w (sampleUse 1 20) := by
    intro r hr s hs _ _
    have hreading : ∀ x ∈ w.revocations, x.revocation.map Revocation.revokedAt = some 10000000 := by
      intro x hx
      have hmem :=
        List.mem_map_of_mem (f := fun x : RevocationState =>
          x.revocation.map Revocation.revokedAt) hx
      rw [hreadings] at hmem
      exact List.mem_singleton.mp hmem
    rcases hr with hr | hr
    · cases hreading _ hr
    · have hreading : r.revokedAt = 10000000 := Option.some.inj (hreading _ hr)
      rw [hreading]
      decide
  have hstep : PunctualStep sampleSha sampleServers w (sampleUse 1 20) w' := ⟨hpunctual, hw'⟩
  exact ⟨w, w', hrun, hstep, of_decide_eq_true hlog, revocation_kills hrun hstep⟩

end Tenancit.Adminauth
