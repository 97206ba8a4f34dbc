import Tenancit.Adminauth.Validity
import Tenancit.Settings.Policies

/-!
The expiry of sessions by idleness. An authentication sets it from its own reading, while
the last use keeps the greater of the two readings; so a reading that comes late takes the
expiry back and away from the last use.
-/
namespace Tenancit.Adminauth

open Encoding Crypto Store Table Text Runs Settings

/-- The expiry by idleness that belongs to the last use of a session. -/
def AdminSession.idleLimit (idle : Duration) (r : AdminSession) : Timestamp :=
  min r.expiresAt (r.lastUsedAt + idle)

/-- The sessions not revoked expire by idleness as their last use says. -/
def Exact (idle : Duration) (w : World) : Prop :=
  ∀ r ∈ w.sessions, r.revokedAt = none → r.idleExpiresAt = r.idleLimit idle

/-- Neither column moves backwards in a session not revoked. -/
def Advances (w w' : World) : Prop :=
  ∀ r ∈ w.sessions, ∀ r' ∈ w'.sessions, r'.id = r.id → r'.revokedAt = none →
    r.lastUsedAt ≤ r'.lastUsedAt ∧ r.idleExpiresAt ≤ r'.idleExpiresAt

/-- The policy is loaded as it is, or cannot be loaded. -/
def Label.Under (policy : Policy) : Label → Prop
  | .create _ _ p _ _ _ => p = none ∨ p = policy
  | .authenticate _ p _ => p = none ∨ p = policy
  | _ => True

/-- An authentication finds a session whose last use is after its own reading, and the expiry
it would set is before the absolute one; and after the creation, as the table demands. -/
def TakesBack (sha256 : Bytes → Bytes) (idle : Duration) (w : World) : Label → Prop
  | .authenticate token policy now => policyFor policy ≠ none ∧ trimSpace token ≠ "" ∧
      ∃ r ∈ w.sessions.find? fun r => Usable (hashCredential sha256 token) (timestamp now) r,
        timestamp now < r.lastUsedAt ∧ timestamp now + idle < r.expiresAt ∧
        r.createdAt < timestamp now + idle
  | _ => False

section touched

variable {r : AdminSession} {usedAt : Timestamp} {seconds : Int32} {idle : Duration}

theorem touched_exact (hseconds : Timestamp.seconds seconds.toInt = idle) :
    (r.touched usedAt seconds).idleExpiresAt = (r.touched usedAt seconds).idleLimit idle ↔
      ¬(usedAt < r.lastUsedAt ∧ usedAt + idle < r.expiresAt) := by
  show min r.expiresAt (usedAt + Timestamp.seconds seconds.toInt) =
    min r.expiresAt (max r.lastUsedAt usedAt + idle) ↔ _
  rw [hseconds]
  constructor
  · rintro heq ⟨hlate, hwithin⟩
    rw [min_eq_right hwithin.le, max_eq_left hlate.le] at heq
    have hafter : usedAt + idle < min r.expiresAt (r.lastUsedAt + idle) :=
      lt_min hwithin (by simpa using hlate)
    exact absurd heq hafter.ne
  · intro h
    rcases le_or_gt r.lastUsedAt usedAt with hle | hlate
    · rw [max_eq_right hle]
    · have hend : r.expiresAt ≤ usedAt + idle := not_lt.mp fun hlt => h ⟨hlate, hlt⟩
      have hlater : usedAt + idle ≤ max r.lastUsedAt usedAt + idle := by simp
      rw [min_eq_left hend, min_eq_left (hend.trans hlater)]

theorem touched_advances (hseconds : Timestamp.seconds seconds.toInt = idle)
    (hexact : r.idleExpiresAt = r.idleLimit idle)
    (h : ¬(usedAt < r.lastUsedAt ∧ usedAt + idle < r.expiresAt)) :
    r.lastUsedAt ≤ (r.touched usedAt seconds).lastUsedAt ∧ r.idleExpiresAt ≤
      (r.touched usedAt seconds).idleExpiresAt := by
  have hlast : r.lastUsedAt ≤ (r.touched usedAt seconds).lastUsedAt := le_max_left _ _
  refine ⟨hlast, ?_⟩
  rw [hexact, (touched_exact hseconds).mpr h]
  exact min_le_min le_rfl (by simpa using hlast)

theorem sessionOk_touched (hok : SessionOk r) (hseconds : Timestamp.seconds seconds.toInt = idle)
    (hafter : r.createdAt < usedAt + idle) : SessionOk (r.touched usedAt seconds) := by
  obtain ⟨h₁, h₂, h₃, h₄, h₅, h₆, h₇, h₈, h₉, hlife, -, -, hused, hrevoked⟩ := hok
  refine ⟨h₁, h₂, h₃, h₄, h₅, h₆, h₇, h₈, h₉, hlife, lt_min hlife ?_, min_le_left _ _,
    hused.trans (le_max_left _ _), hrevoked⟩
  rw [hseconds]
  exact hafter

end touched

variable {Key : Type} {aead : Aead Key} {sha256 : Bytes → Bytes} {servers : Nat → Cryptor aead}
  {w w' : World}

/-- What the statement of an authentication does, and when it does nothing. -/
theorem step_authenticate {token : String} {policy : Policy} {now : Nanoseconds}
    (h : step sha256 servers w (.authenticate token policy now) = some w') :
    (∃ absoluteTTL idleTTL r, policyFor policy = some (absoluteTTL, idleTTL) ∧
      trimSpace token ≠ "" ∧
      w.sessions.find? (fun r => Usable (hashCredential sha256 token) (timestamp now) r) = some r ∧
      SessionOk (r.touched (timestamp now) (idleSeconds idleTTL)) ∧
      w'.sessions = update (fun x => x.id = r.id)
      (AdminSession.touched (timestamp now) (idleSeconds idleTTL)) w.sessions) ∨
    w'.sessions = w.sessions ∧ ∀ absoluteTTL idleTTL r, policyFor policy =
      some (absoluteTTL, idleTTL) → trimSpace token ≠ "" →
      w.sessions.find? (fun r => Usable (hashCredential sha256 token) (timestamp now) r) = some r →
      ¬SessionOk (r.touched (timestamp now) (idleSeconds idleTTL)) := by
  simp only [step] at h
  split at h
  next hblank =>
    cases h
    exact .inr ⟨rfl, fun _ _ _ _ hne => absurd hblank hne⟩
  next hne =>
    split at h
    next hnone =>
      cases h
      refine .inr ⟨rfl, fun _ _ _ hpolicy => ?_⟩
      rw [hnone] at hpolicy
      cases hpolicy
    next absoluteTTL idleTTL hpolicy =>
      unfold authenticateSession at h
      cases hfind : w.sessions.find? fun r => Usable (hashCredential sha256 token)
        (timestamp now) r with
      | none =>
        simp only [hfind] at h
        cases h
        refine .inr ⟨rfl, fun _ _ _ _ _ hr => ?_⟩
        cases hr
      | some r =>
        simp only [hfind] at h
        by_cases hok : SessionOk (r.touched (timestamp now) (idleSeconds idleTTL))
        · simp only [if_pos hok] at h
          split at h
          · cases h
          · cases h
            exact .inl ⟨absoluteTTL, idleTTL, r, hpolicy, hne, rfl, hok, rfl⟩
        · simp only [if_neg hok] at h
          cases h
          refine .inr ⟨rfl, fun _ _ _ hpolicy' _ hr => ?_⟩
          obtain ⟨-, rfl⟩ := Prod.mk.inj (Option.some.inj (hpolicy.symm.trans hpolicy'))
          obtain rfl := Option.some.inj hr
          exact hok

/-- The other steps do no more than revoke sessions. -/
theorem step_others {l : Label} (h : step sha256 servers w l = some w')
    (hcreate : ∀ server identity policy random now id, l ≠
      .create server identity policy random now id)
    (hauthenticate : ∀ token policy now, l ≠ .authenticate token policy now) :
    ∃ p t, w'.sessions = update p (AdminSession.revoked t) w.sessions := by
  have hnone : w.sessions = update (fun _ => false) (AdminSession.revoked 0) w.sessions := by
    simp [update]
  cases step_effect h with
  | created => exact absurd rfl (hcreate _ _ _ _ _ _)
  | authenticated => exact absurd rfl (hauthenticate _ _ _)
  | loggedOut => exact ⟨_, _, rfl⟩
  | committed => exact ⟨_, _, rfl⟩
  | _ => exact ⟨_, _, hnone⟩

/-- The row that a creation adds. -/
theorem step_create {server : Nat} {identity : SessionIdentity} {policy : Policy}
    {random : Nat → UInt8} {now : Nanoseconds}
    {id : UUID} (h : step sha256 servers w
      (.create server identity policy random now id) = some w') :
    w'.sessions = w.sessions ∨ ∃ row absoluteTTL idleTTL, policyFor policy =
      some (absoluteTTL, idleTTL) ∧
      w'.sessions = w.sessions ++ [row] ∧ SessionOk row ∧ (∀ r ∈ w.sessions, r.id ≠ row.id) ∧
      row.lastUsedAt = timestamp now ∧ row.expiresAt = timestamp (now + absoluteTTL) ∧
      row.idleExpiresAt = timestamp (now + idleTTL) := by
  simp only [step] at h
  split at h
  · cases h
    exact .inl rfl
  next row created hcreate =>
    cases h
    unfold createSession at hcreate
    split at hcreate
    next row' absoluteTTL idleTTL hrow hpolicy =>
      obtain ⟨sessions, hinsert, heq⟩ := Option.map_eq_some_iff.mp hcreate
      unfold insertSession at hinsert
      split at hinsert
      · cases hinsert
      next hfresh =>
        obtain ⟨hok, hfresh⟩ := not_or.mp hfresh
        cases hinsert
        cases heq
        refine .inr ⟨_, absoluteTTL, idleTTL, hpolicy, rfl, not_not.mp hok, fun r hr he =>
          hfresh ⟨r, hr, .inl he⟩, ?_⟩
        unfold newSession at hrow
        split at hrow
        · cases hrow
        · rw [hpolicy] at hrow
          cases hrow
          exact ⟨rfl, rfl, rfl⟩
    · cases hcreate

/-- The sessions not revoked satisfy the checks of their table. -/
def Checked (w : World) : Prop := ∀ r ∈ w.sessions, r.revokedAt = none → SessionOk r

theorem Checked.step {l : Label} (h : Checked w) (hinv : Inv w)
    (hstep : step sha256 servers w l = some w') : Checked w' := by
  have hothers : (∃ p t, w'.sessions = update p (AdminSession.revoked t) w.sessions) →
      Checked w' := by
    rintro ⟨p, t, heq⟩ r' hr' hnone
    rw [heq] at hr'
    obtain ⟨r, hr, rfl⟩ := mem_update.mp hr'
    by_cases hp : p r = true
    · rw [if_pos hp] at hnone
      cases hnone
    · rw [if_neg hp] at hnone ⊢
      exact h r hr hnone
  cases l with
  | create server identity policy random now id =>
    rcases step_create hstep with heq | ⟨row, -, -, -, heq, hok, -⟩
    · intro r hr
      exact h r (heq ▸ hr)
    · intro r hr hnone
      rw [heq] at hr
      rcases List.mem_append.mp hr with hr | hr
      · exact h r hr hnone
      · exact List.mem_singleton.mp hr ▸ hok
  | authenticate token policy now =>
    rcases step_authenticate hstep with ⟨absoluteTTL, idleTTL, r, -, -, hfind, hok, heq⟩ | ⟨heq, -⟩
    · intro x' hx' hnone
      rw [heq] at hx'
      obtain ⟨x, hx, rfl⟩ := mem_update.mp hx'
      by_cases hid : x.id = r.id
      · obtain rfl := hinv.keyed.eq_of_key hx (List.mem_of_find?_eq_some hfind) hid
        rw [if_pos (by simp)]
        exact hok
      · rw [if_neg (by simpa using hid)] at hnone ⊢
        exact h x hx hnone
    · intro r hr
      exact h r (heq ▸ hr)
  | _ => exact hothers (step_others hstep nofun nofun)

/-- Revocations leave both columns alone. -/
theorem kept_revoked {idle : Duration} {p : AdminSession → Bool} {t : Timestamp} (hinv : Inv w)
    (hexact : Exact idle w) (heq : w'.sessions = update p (AdminSession.revoked t) w.sessions) :
    Exact idle w' ∧ Advances w w' := by
  constructor
  · intro r' hr' hnone
    rw [heq] at hr'
    obtain ⟨r, hr, rfl⟩ := mem_update.mp hr'
    by_cases hp : p r = true
    · rw [if_pos hp] at hnone
      cases hnone
    · rw [if_neg hp] at hnone ⊢
      exact hexact r hr hnone
  · intro r hr r' hr' hid hnone
    rw [heq] at hr'
    obtain ⟨x, hx, rfl⟩ := mem_update.mp hr'
    by_cases hp : p x = true
    · rw [if_pos hp] at hnone
      cases hnone
    · rw [if_neg hp] at hid ⊢
      obtain rfl := hinv.keyed.eq_of_key hx hr hid
      exact ⟨le_rfl, le_rfl⟩

theorem kept_same {idle : Duration} (hinv : Inv w) (hexact : Exact idle w)
    (heq : w'.sessions = w.sessions) : Exact idle w' ∧ Advances w w' := by
  refine ⟨fun r hr => hexact r (heq ▸ hr), fun r hr r' hr' hid _ => ?_⟩
  obtain rfl := hinv.keyed.eq_of_key (heq ▸ hr' : r' ∈ w.sessions) hr hid
  exact ⟨le_rfl, le_rfl⟩

/-- A session is created with the formula, under an identifier that no session has. -/
theorem kept_created {idle : Duration} {row : AdminSession} (hexact : Exact idle w)
    (hfresh : ∀ r ∈ w.sessions, r.id ≠ row.id) (hinv : Inv w)
    (hrow : row.idleExpiresAt = row.idleLimit idle) (heq : w'.sessions = w.sessions ++ [row]) :
    Exact idle w' ∧ Advances w w' := by
  constructor
  · intro r hr hnone
    rw [heq] at hr
    rcases List.mem_append.mp hr with hr | hr
    · exact hexact r hr hnone
    · obtain rfl := List.mem_singleton.mp hr
      exact hrow
  · intro r hr r' hr' hid _
    rw [heq] at hr'
    rcases List.mem_append.mp hr' with hr' | hr'
    · obtain rfl := hinv.keyed.eq_of_key hr' hr hid
      exact ⟨le_rfl, le_rfl⟩
    · obtain rfl := List.mem_singleton.mp hr'
      exact absurd hid.symm (hfresh r hr)

/-- A use of a session keeps the formula and moves nothing back exactly if its reading is
not before the last use, or the session is about to expire anyway. -/
theorem kept_touched {idle : Duration} {r : AdminSession} {usedAt : Timestamp}
    {seconds : Int32} (hinv : Inv w)
    (hexact : Exact idle w) (hr : r ∈ w.sessions) (hnone : r.revokedAt = none)
    (hseconds : Timestamp.seconds seconds.toInt = idle)
    (heq : w'.sessions =
      update (fun x => x.id = r.id) (AdminSession.touched usedAt seconds) w.sessions) :
    Exact idle w' ∧ Advances w w' ↔ ¬(usedAt < r.lastUsedAt ∧ usedAt + idle < r.expiresAt) := by
  have hmem : r.touched usedAt seconds ∈ w'.sessions := heq ▸ mem_update.mpr ⟨r, hr, by simp⟩
  have hcases : ∀ x' ∈ w'.sessions, x' = r.touched usedAt seconds ∨ x' ∈
      w.sessions ∧ x'.id ≠ r.id := by
    intro x' hx'
    rw [heq] at hx'
    obtain ⟨x, hx, rfl⟩ := mem_update.mp hx'
    by_cases hid : x.id = r.id
    · obtain rfl := hinv.keyed.eq_of_key hx hr hid
      exact .inl (by simp)
    · rw [if_neg (by simpa using hid)]
      exact .inr ⟨hx, hid⟩
  constructor
  · rintro ⟨hkept, -⟩
    exact (touched_exact hseconds).mp (hkept _ hmem hnone)
  · intro h
    refine ⟨fun x' hx' hx => ?_, fun x hx x' hx' hid _ => ?_⟩
    · rcases hcases x' hx' with rfl | ⟨hx', -⟩
      · exact (touched_exact hseconds).mpr h
      · exact hexact x' hx' hx
    · rcases hcases x' hx' with rfl | ⟨hx', -⟩
      · obtain rfl := hinv.keyed.eq_of_key hr hx hid
        exact touched_advances hseconds (hexact _ hr hnone) h
      · obtain rfl := hinv.keyed.eq_of_key hx' hx hid
        exact ⟨le_rfl, le_rfl⟩

/-- A policy in whole hours and minutes. -/
def wholePolicy (hours minutes : Int) : Policy :=
  some (hours * 3600000000000, minutes * 60000000000)

theorem policyFor_wholePolicy {hours minutes : Int}
    (h : 5 ≤ minutes ∧ minutes ≤ 120 ∧ minutes ≤ hours * 60) :
    policyFor (wholePolicy hours minutes) = wholePolicy hours minutes := by
  obtain ⟨hlow, -, hordered⟩ := h
  have habsolute : (0 : Int) < hours * 3600000000000 := by omega
  have hidle : (0 : Int) < minutes * 60000000000 := by omega
  have hwithin : (minutes * 60000000000 : Int) ≤ hours * 3600000000000 := by omega
  exact policyFor_eq_some.mpr ⟨rfl, habsolute, hidle, hwithin⟩

theorem seconds_idleSeconds {minutes : Int} (hlow : 5 ≤ minutes) (hhigh : minutes ≤ 120) :
    Timestamp.seconds (idleSeconds (minutes * 60000000000)).toInt = minutes * 60000000 := by
  show (Int32.ofInt (minutes * 60000000000 / 1000000000)).toInt * 1000000 = minutes * 60000000
  have hsize : Int32.size = 4294967296 := rfl
  rw [Int32.toInt_ofInt, Int.bmod_def, hsize]
  omega

/-- A session created at a reading under a policy in whole hours and minutes. -/
theorem idleLimit_created {now hours minutes : Int} (h : minutes ≤ hours * 60) :
    (now + minutes * 60000000000) / 1000 = min ((now + hours * 3600000000000) / 1000)
    (now / 1000 + minutes * 60000000) := by
  omega

/-- A step keeps the formula and moves nothing back exactly if it is no such authentication. -/
theorem kept_iff {hours minutes : Int} {l : Label}
    (hminutes : 5 ≤ minutes ∧ minutes ≤ 120 ∧ minutes ≤ hours * 60)
    (hpolicy : l.Under (wholePolicy hours minutes)) (hinv : Inv w) (hchecked : Checked w)
    (hexact : Exact (minutes * 60000000) w) (hstep : step sha256 servers w l = some w') :
    Exact (minutes * 60000000) w' ∧ Advances w w' ↔ ¬TakesBack sha256 (minutes * 60000000) w l := by
  have hloaded := policyFor_wholePolicy hminutes
  obtain ⟨hlow, hhigh, hordered⟩ := hminutes
  have hunder : ∀ {p absoluteTTL idleTTL}, (p = none ∨ p = wholePolicy hours minutes) →
      policyFor p = some (absoluteTTL, idleTTL) → absoluteTTL = hours * 3600000000000 ∧
      idleTTL = minutes * 60000000000 := by
    rintro p absoluteTTL idleTTL (rfl | rfl) hp
    · cases hp
    · exact (Prod.mk.inj (Option.some.inj (hloaded.symm.trans hp))).imp Eq.symm Eq.symm
  cases l with
  | create server identity policy random now id =>
    refine iff_of_true ?_ not_false
    rcases step_create hstep with heq | ⟨row, absoluteTTL, idleTTL, hp, heq, -, hfresh,
      hlast, hexpires, hidle⟩
    · exact kept_same hinv hexact heq
    · obtain ⟨rfl, rfl⟩ := hunder hpolicy hp
      refine kept_created hexact hfresh hinv ?_ heq
      rw [AdminSession.idleLimit, hidle, hlast, hexpires]
      exact idleLimit_created hordered
  | authenticate token policy now =>
    have hseconds := seconds_idleSeconds hlow hhigh
    rcases step_authenticate hstep with ⟨absoluteTTL, idleTTL, r, hp, hne, hfind,
      hok, heq⟩ | ⟨heq, hfails⟩
    · obtain ⟨rfl, rfl⟩ := hunder hpolicy hp
      have husable : Usable (hashCredential sha256 token) (timestamp now) r := by
        simpa using List.find?_some hfind
      have hafter : r.createdAt < timestamp now + minutes * 60000000 := by
        obtain ⟨-, -, -, -, -, -, -, -, -, -, hidle, -⟩ := hok
        exact hseconds ▸ hidle.trans_le (min_le_right _ _)
      rw [kept_touched hinv hexact (List.mem_of_find?_eq_some hfind) husable.2.1 hseconds heq,
        not_iff_not]
      constructor
      · rintro ⟨hlate, hwithin⟩
        exact ⟨by rw [hp]; nofun, hne, r, hfind, hlate, hwithin, hafter⟩
      · rintro ⟨-, -, r', hr', hlate, hwithin, -⟩
        obtain rfl := Option.some.inj (hfind.symm.trans hr')
        exact ⟨hlate, hwithin⟩
    · refine iff_of_true (kept_same hinv hexact heq) ?_
      rintro ⟨hp, hne, r, hfind, -, -, hafter⟩
      obtain ⟨ttl, hp⟩ := Option.ne_none_iff_exists'.mp hp
      obtain ⟨hhours, hidle⟩ := hunder hpolicy hp
      have husable : Usable (hashCredential sha256 token) (timestamp now) r := by
        simpa using List.find?_some hfind
      refine hfails ttl.1 ttl.2 r hp hne hfind ?_
      refine sessionOk_touched (hchecked r (List.mem_of_find?_eq_some hfind) husable.2.1) ?_ hafter
      rw [hidle]
      exact hseconds
  | _ =>
    obtain ⟨p, t, heq⟩ := step_others hstep nofun nofun
    exact iff_of_true (kept_revoked hinv hexact heq) not_false

/-- Along every run under one policy of the settings, in whatever order readings come, the
expiry by idleness follows the last use and nothing moves back if and only if no
authentication takes its session back. -/
theorem idle_expiry_iff {snapshot : Snapshot} {absoluteTTL idleTTL : Nanoseconds} {ls : List Label}
    (hsound : Sound snapshot.values)
    (hpolicy : sessionPolicy snapshot = some (absoluteTTL, idleTTL))
    (hfixed : ∀ l ∈ ls, l.Under (sessionPolicy snapshot)) :
    (∀ xs l ys u v, ls = xs ++ l :: ys → Run (Steps (step sha256 servers)) {} xs u →
      Steps (step sha256 servers) u l v → Exact (idleTTL / 1000) v ∧ Advances u v) ↔
    ∀ xs l ys u v, ls = xs ++ l :: ys → Run (Steps (step sha256 servers))
    {} xs u → Steps (step sha256 servers) u l v →
      ¬TakesBack sha256 (idleTTL / 1000) u l := by
  obtain ⟨hours, minutes, hwhole, hminutes⟩ := hsound.sessionPolicy_eq
  obtain ⟨rfl, rfl⟩ := Prod.mk.inj (Option.some.inj (hpolicy.symm.trans hwhole))
  have hmicro : (minutes * 60000000000 / 1000 : Int) = minutes * 60000000 := by omega
  rw [hmicro]
  refine along_iff (P := Exact (minutes * 60000000)) nofun
    fun xs l ys u v hls hrun hstep hexact => ?_
  have hchecked : Checked u := by
    refine (hrun.invariant (P := fun w => Inv w ∧ Checked w) ?_ ⟨inv_start, nofun⟩).2
    rintro s l t ⟨hinv, hchecked⟩ hstep
    exact ⟨hinv.effect (step_effect hstep), hchecked.step hinv hstep⟩
  have hl := hfixed l (by simp [hls])
  rw [hwhole] at hl
  exact kept_iff hminutes hl (run_inv hrun) hchecked hexact hstep

section sample

/-- The settings of the migrated database. -/
def sampleSnapshot : Snapshot := readSnapshot 1 []

theorem sampleSnapshot_sound : Sound sampleSnapshot.values :=
  (Settings.inv_migrated {}).stored.sound (Settings.inv_migrated {}).ordered

theorem sampleSnapshot_policy : sessionPolicy sampleSnapshot = samplePolicy := by decide +kernel

/-- Two uses of a session whose statements arrive in the other order. -/
def sampleLateUse : List Label := [sampleCreate "alice" 1 5, sampleUse 1 1000, sampleUse 1 500]

theorem idle_expiry_sample :
    (∀ xs l ys u v, sampleLateUse = xs ++ l :: ys →
      Run (Steps (step sampleSha sampleServers)) {} xs u →
      Steps (step sampleSha sampleServers) u l v → Exact (1800 * second / 1000) v ∧ Advances u v) ↔
    ∀ xs l ys u v, sampleLateUse = xs ++
    l :: ys → Run (Steps (step sampleSha sampleServers)) {} xs u →
      Steps (step sampleSha sampleServers) u l v →
      ¬TakesBack sampleSha (1800 * second / 1000) u l := by
  refine idle_expiry_iff sampleSnapshot_sound sampleSnapshot_policy fun l hl => ?_
  rw [sampleSnapshot_policy]
  simp only [sampleLateUse, List.mem_cons, List.not_mem_nil, or_false] at hl
  rcases hl with rfl | rfl | rfl <;> exact .inr rfl

/-- The columns that the formula is about. -/
def idleColumns (w : World) : List (UUID × Option Timestamp × Timestamp × Timestamp × Timestamp) :=
  w.sessions.map fun r => (r.id, r.revokedAt, r.lastUsedAt, r.idleExpiresAt, r.expiresAt)

set_option synthInstance.maxSize 512 in
/-- The use that was read at 500 s and arrives after the one read at 1000 s takes the expiry
back from 2800 s to 2300 s, and the last use stays at 1000 s. -/
theorem late_reading_shortens :
    ∃ u v, Run (Steps (step sampleSha sampleServers)) {}
    [sampleCreate "alice" 1 5, sampleUse 1 1000] u ∧
    step sampleSha sampleServers u (sampleUse 1 500) = some v ∧
    ¬Exact (1800 * second / 1000) v ∧ ¬Advances u v := by
  have hexec : (exec (step sampleSha sampleServers) {} [sampleCreate "alice" 1 5,
    sampleUse 1 1000]).bind (fun u =>
      (step sampleSha sampleServers u (sampleUse 1 500)).map fun v =>
        (idleColumns u, idleColumns v)) =
      some ([(5, none, 1000000000, 2800000000, 28800000000)],
        [(5, none, 1000000000, 2300000000, 28800000000)]) := by
    decide +kernel
  obtain ⟨u, hu, hstep⟩ := Option.bind_eq_some_iff.mp hexec
  obtain ⟨v, hv, hcolumns⟩ := Option.map_eq_some_iff.mp hstep
  obtain ⟨hbefore, hafter⟩ := Prod.mk.inj hcolumns
  obtain ⟨r, hr, hrcolumns⟩ :=
    List.mem_map.mp (hbefore ▸ List.mem_singleton_self _ : _ ∈ idleColumns u)
  obtain ⟨r', hr', hrcolumns'⟩ :=
    List.mem_map.mp (hafter ▸ List.mem_singleton_self _ : _ ∈ idleColumns v)
  simp only [Prod.mk.injEq] at hrcolumns hrcolumns'
  obtain ⟨hid, -, -, hidle, -⟩ := hrcolumns
  obtain ⟨hid', hnone, hlast', hidle', hexpires'⟩ := hrcolumns'
  refine ⟨u, v, exec_eq_some_iff.mp hu, hv, fun hexact => ?_, fun hadvances => ?_⟩
  · have hformula := hexact r' hr' hnone
    rw [AdminSession.idleLimit, hlast', hidle', hexpires'] at hformula
    revert hformula
    decide
  · obtain ⟨-, hback⟩ := hadvances r hr r' hr' (hid'.trans hid.symm) hnone
    rw [hidle, hidle'] at hback
    revert hback
    decide

end sample

end Tenancit.Adminauth
