import Tenancit.Adminauth.Sessions

/-!
When an authentication succeeds. In every run, with readings in any order and policies that
change between calls, a session authenticates only before its revocation, before the expiry
fixed at its creation, and within the idle timeout of its latest use.
-/
namespace Tenancit.Adminauth

open Encoding Crypto Store Table Text Locks

variable {Key : Type} {aead : Aead Key} {sha256 : Bytes → Bytes} {servers : Nat → Cryptor aead}

/-- What a step does to the sessions and to the revocations. -/
inductive Effect (sha256 : Bytes → Bytes) (servers : Nat → Cryptor aead) (w : World) :
    Label → World → Prop
  | idle (l : Label) : Effect sha256 servers w l w
  | created {server : Nat} {identity : SessionIdentity} {policy : Policy}
      {random : Nat → UInt8} {now : Nanoseconds}
      {id : UUID} {row : AdminSession} {absoluteTTL idleTTL : Nanoseconds}
      (hrow : newSession sha256 (servers server) identity policy random now id = some row)
      (hpolicy : policyFor policy = some (absoluteTTL, idleTTL))
      (hfresh : ∀ r ∈ w.sessions, r.id ≠ row.id ∧ r.tokenHash ≠ row.tokenHash) :
      Effect sha256 servers w (.create server identity policy random now id)
        { w with sessions := w.sessions ++ [row], log := w.log ++ [.created row now idleTTL] }
  | authenticated {token : String} {policy : Policy} {now : Nanoseconds}
      {absoluteTTL idleTTL : Nanoseconds}
      {r : AdminSession} (hpolicy : policyFor policy = some (absoluteTTL, idleTTL))
      (hr : r ∈ w.sessions)
      (hok : Usable (hashCredential sha256 token) (timestamp now) r) (hfree : ¬w.Locked r.id) :
      Effect sha256 servers w (.authenticate token policy now)
        { w with
          sessions :=
            update (fun x => x.id = r.id)
              (AdminSession.touched (timestamp now) (idleSeconds idleTTL)) w.sessions
          log := w.log ++ [.authenticated r.id now idleTTL] }
  | loggedOut {id : UUID} {now : Nanoseconds} {r : AdminSession}
      (hr : lookup AdminSession.id id w.sessions = some r)
      (hfree : ¬w.Locked id) :
      Effect sha256 servers w (.logout id now)
        { w with
          sessions := update (fun x => x.id = id) (AdminSession.revoked (timestamp now)) w.sessions
          log := w.log ++ [.revoked id] }
  | began {l : Label} (target : Target) (now : Nanoseconds) :
      Effect sha256 servers w l (beginRevocation target now w)
  | reached {n : Nat} {r : Revocation} {id : UUID} {pending : List UUID} {s : AdminSession}
      (hn : w.revocations[n]? = some (.running r)) (hpending : r.pending = id :: pending)
      (hfree : ¬w.Locked id)
      (hs : lookup AdminSession.id id w.sessions = some s) :
      Effect sha256 servers w (.mark n) { w with
        revocations := w.revocations.set n (r.reach s pending) }
  | committed {n : Nat} {r : Revocation} (hn : w.revocations[n]? = some (.running r))
      (hpending : r.pending = []) :
      Effect sha256 servers w (.commit n)
        { w with
          sessions :=
            update (fun s => s.id ∈ r.marked) (AdminSession.revoked r.revokedAt) w.sessions
          revocations := w.revocations.set n (.committed r)
          log := w.log ++ r.marked.map .revoked }
  | rolledBack {l : Label} (n : Nat) :
      Effect sha256 servers w l { w with revocations := w.revocations.set n .ended }

theorem authenticateSession_ok {tokenHash : String} {usedAt : Timestamp} {idle : Int32}
    {rows rows' : List AdminSession} {s : AdminSession}
    (h : authenticateSession tokenHash usedAt idle rows = some (s, rows')) :
    ∃ r ∈ rows, Usable tokenHash usedAt r ∧ s.id = r.id ∧
      rows' = update (fun x => x.id = r.id) (AdminSession.touched usedAt idle) rows := by
  unfold authenticateSession at h
  split at h
  · cases h
  next r hr =>
    split at h
    · cases h
      have hok := List.find?_some hr
      exact ⟨r, List.mem_of_find?_eq_some hr, by simpa using hok, rfl, rfl⟩
    · cases h

theorem createSession_ok {cryptor : Cryptor aead} {identity : SessionIdentity} {policy : Policy}
    {random : Nat → UInt8} {now : Nanoseconds} {id : UUID} {row : AdminSession} {w w' : World}
    (h : createSession sha256 cryptor identity policy random now id w = some (row, w')) :
    ∃ absoluteTTL idleTTL, newSession sha256 cryptor identity policy random now id = some row ∧
      policyFor policy = some (absoluteTTL, idleTTL) ∧
      (∀ r ∈ w.sessions, r.id ≠ row.id ∧ r.tokenHash ≠ row.tokenHash) ∧
        w' = { w with
          sessions := w.sessions ++ [row], log := w.log ++ [.created row now idleTTL] } := by
  unfold createSession at h
  split at h
  next row' absoluteTTL idleTTL hrow hpolicy =>
    obtain ⟨sessions, hinsert, heq⟩ := Option.map_eq_some_iff.mp h
    unfold insertSession at hinsert
    split at hinsert
    · cases hinsert
    next hfresh =>
      cases hinsert
      cases heq
      refine ⟨absoluteTTL, idleTTL, hrow, hpolicy, fun r hr => ?_, rfl⟩
      constructor
      · exact fun he => hfresh (.inr ⟨r, hr, .inl he⟩)
      · exact fun he => hfresh (.inr ⟨r, hr, .inr he⟩)
  · cases h

theorem step_effect {w w' : World} {l : Label} (h : step sha256 servers w l = some w') :
    Effect sha256 servers w l w' := by
  cases l with
  | create server identity policy random now id =>
    simp only [step] at h
    split at h
    · cases h
      exact .idle _
    next row created hcreate =>
      cases h
      obtain ⟨absoluteTTL, idleTTL, hrow, hpolicy, hfresh, rfl⟩ := createSession_ok hcreate
      exact .created hrow hpolicy hfresh
  | authenticate token policy now =>
    simp only [step] at h
    split at h
    · cases h
      exact .idle _
    split at h
    · cases h
      exact .idle _
    next absoluteTTL idleTTL hpolicy =>
      split at h
      · cases h
        exact .idle _
      next row sessions hauth =>
        obtain ⟨r, hr, hok, hid, rfl⟩ := authenticateSession_ok hauth
        rw [hid] at h
        split at h
        · cases h
        next hfree =>
          cases h
          exact .authenticated hpolicy hr hok hfree
  | logout id now =>
    simp only [step] at h
    split at h
    · cases h
    next hfree =>
      unfold revokeSession at h
      split at h
      · cases h
        exact .idle _
      next sessions hrevoke =>
        split at hrevoke
        · cases hrevoke
        next r hr =>
          split at hrevoke
          · cases hrevoke
            cases h
            exact .loggedOut hr hfree
          · cases hrevoke
  | revokeOther id current now =>
    simp only [step] at h
    split at h
    · cases h
      exact .idle _
    · cases h
      exact .began _ _
  | revokePrincipal issuer subject current now =>
    simp only [step] at h
    split at h
    · cases h
      exact .idle _
    · cases h
      exact .began _ _
  | mark n =>
    simp only [step] at h
    split at h
    next r hn =>
      split at h
      · cases h
      next id pending hpending =>
        split at h
        · cases h
        next hfree =>
          obtain ⟨s, hs, rfl⟩ := Option.map_eq_some_iff.mp h
          exact .reached hn hpending hfree hs
    · cases h
  | commit n =>
    simp only [step] at h
    split at h
    next r hn =>
      split at h
      · cases h
      next hpending =>
        split at h
        · cases h
          exact .rolledBack n
        · cases h
          exact .committed hn (not_not.mp hpending)
    · cases h
  | rollback n =>
    simp only [step] at h
    split at h
    · cases h
      exact .rolledBack n
    · cases h

/-- The session an entry is about. -/
def Entry.id : Entry → UUID
  | .created session _ _ => session.id
  | .authenticated id _ _ => id
  | .revoked id => id

/-- The use of a session that an entry records: the reading, and the idle timeout then. -/
def Entry.use (id : UUID) : Entry → Option (Nanoseconds × Nanoseconds)
  | .created session at_ idleTTL => if session.id = id then some (at_, idleTTL) else none
  | .authenticated i at_ idleTTL => if i = id then some (at_, idleTTL) else none
  | .revoked _ => none

/-- The latest use of a session. -/
def lastUse (id : UUID) (log : List Entry) : Option (Nanoseconds × Nanoseconds) :=
  (log.filterMap (Entry.use id)).getLast?

section lastUse

variable {id : UUID} {log : List Entry} {e : Entry}

theorem lastUse_append_of_use {x : Nanoseconds × Nanoseconds} (h : e.use id = some x) :
    lastUse id (log ++ [e]) = some x := by
  simp [lastUse, List.filterMap_append, h]

theorem lastUse_append_of_none {es : List Entry} (h : ∀ e ∈ es, e.use id = none) :
    lastUse id (log ++ es) = lastUse id log := by
  rw [lastUse, List.filterMap_append, List.filterMap_eq_nil_iff.mpr h, List.append_nil, lastUse]

theorem Entry.use_eq_none (h : e.id ≠ id) : e.use id = none := by
  cases e with
  | created session at_ idleTTL => exact if_neg h
  | authenticated i at_ idleTTL => exact if_neg h
  | revoked i => rfl

end lastUse

/-- What holds in every reachable state. -/
structure Inv (w : World) : Prop where
  keyed : Keyed AdminSession.id w.sessions
  known : ∀ e ∈ w.log, ∃ r ∈ w.sessions, r.id = e.id
  marked : ∀ r, .running r ∈ w.revocations → ∀ id ∈ r.marked, ∃ s ∈ w.sessions, s.id = id
  born : ∀ r ∈ w.sessions, ∃ s at_ idleTTL, Entry.created s at_ idleTTL ∈ w.log ∧ s.id =
    r.id ∧ s.expiresAt = r.expiresAt
  used : ∀ r ∈ w.sessions, ∃ u d, lastUse r.id w.log =
    some (u, d) ∧ r.idleExpiresAt ≤ timestamp (u + d)
  revoked : ∀ r ∈ w.sessions, Entry.revoked r.id ∈ w.log → r.revokedAt ≠ none

theorem inv_start : Inv {} where
  keyed := keyed_nil
  known := by simp
  marked := by simp
  born := by simp
  used := by simp
  revoked := by simp

theorem newSession_ok {cryptor : Cryptor aead} {identity : SessionIdentity} {policy : Policy}
    {random : Nat → UInt8} {now : Nanoseconds} {id : UUID} {row : AdminSession}
    {absoluteTTL idleTTL : Nanoseconds}
    (h : newSession sha256 cryptor identity policy random now id = some row)
    (hpolicy : policyFor policy = some (absoluteTTL, idleTTL)) :
    row.id = id ∧ row.actorIssuer = identity.issuer ∧ row.actorSubject = identity.subject ∧
      row.tokenHash = hashCredential sha256 (randomCredential random) ∧
      row.createdAt = timestamp now ∧
      row.expiresAt = timestamp (now + absoluteTTL) ∧
      row.idleExpiresAt = timestamp (now + idleTTL) ∧ row.revokedAt = none := by
  unfold newSession at h
  split at h
  · cases h
  · rw [hpolicy] at h
    cases h
    exact ⟨rfl, rfl, rfl, rfl, rfl, rfl, rfl, rfl⟩

/-- Readings are in the order of the timestamps they are kept as. -/
theorem timestamp_lt {a b : Int} (h : timestamp a < timestamp b) : a < b := by
  have h : a / 1000 < b / 1000 := h
  omega

/-- The statement extends a session by no more than the idle timeout. -/
theorem touched_idle_le {usedAt idleTTL : Int} (h : 0 < idleTTL) (r : AdminSession) :
    (r.touched (timestamp usedAt) (idleSeconds idleTTL)).idleExpiresAt ≤
      timestamp (usedAt + idleTTL) := by
  have hseconds : (idleSeconds idleTTL).toInt ≤ idleTTL / 1000000000 := by
    show (Int32.ofInt (idleTTL / 1000000000)).toInt ≤ _
    have hsize : Int32.size = 4294967296 := rfl
    rw [Int32.toInt_ofInt, Int.bmod_def, hsize]
    omega
  calc (r.touched (timestamp usedAt) (idleSeconds idleTTL)).idleExpiresAt
      ≤ usedAt / 1000 + (idleSeconds idleTTL).toInt * 1000000 := Int.min_le_right _ _
    _ ≤ usedAt / 1000 + idleTTL / 1000000000 * 1000000 := by omega
    _ ≤ (usedAt + idleTTL) / 1000 := by omega

section inv

variable {w w' : World} {f : AdminSession → AdminSession} {p : AdminSession → Bool}
  {es : List Entry} {revocations : List RevocationState}

/-- The sessions change in columns other than their identifier and absolute expiry. -/
theorem Inv.update (h : Inv w) (hid : ∀ r, (f r).id = r.id)
    (hexpires : ∀ r, (f r).expiresAt = r.expiresAt)
    (hknown : ∀ e ∈ es, ∃ r ∈ w.sessions, r.id = e.id)
    (hrunning : ∀ r, .running r ∈ revocations → .running r ∈ w.revocations)
    (hused : ∀ r ∈ w.sessions, p r = true → ∃ u d, lastUse r.id (w.log ++ es) = some (u, d) ∧
      (f r).idleExpiresAt ≤ timestamp (u + d))
    (hunused : ∀ r ∈ w.sessions, p r = false → ∀ e ∈ es, e.use r.id = none)
    (hrevoked : ∀ r ∈ w.sessions, (p r = true → r.revokedAt ≠ none → (f r).revokedAt ≠ none) ∧
      (.revoked r.id ∈ es → p r = true ∧ (f r).revokedAt ≠ none)) :
    Inv { w with
      sessions := Table.update p f w.sessions, revocations :=
        revocations, log := w.log ++ es } := by
  have hmoved : ∀ id, (∃ r ∈ w.sessions, r.id = id) → ∃ r ∈
      Table.update p f w.sessions, r.id = id :=
    fun _ => exists_mem_update hid
  refine ⟨h.keyed.update hid, fun e he => ?_, fun r hr id hm =>
    hmoved id (h.marked r (hrunning r hr) id hm), ?_, ?_, ?_⟩
  · rcases List.mem_append.mp he with he | he
    · exact hmoved _ (h.known e he)
    · exact hmoved _ (hknown e he)
  all_goals
    intro x hx
    obtain ⟨r, hr, rfl⟩ := mem_update.mp hx
  · obtain ⟨s, at_, idleTTL, hs, hsid, hsexpires⟩ := h.born r hr
    refine ⟨s, at_, idleTTL, List.mem_append_left _ hs, ?_, ?_⟩
    · split
      · rw [hid, hsid]
      · exact hsid
    · split
      · rw [hexpires, hsexpires]
      · exact hsexpires
  · split
    next hp =>
      rw [hid]
      exact hused r hr hp
    next hp =>
      rw [lastUse_append_of_none (hunused r hr (by simpa using hp))]
      exact h.used r hr
  · by_cases hp : p r = true
    · rw [if_pos hp, hid]
      intro hmem
      rcases List.mem_append.mp hmem with hmem | hmem
      · exact (hrevoked r hr).1 hp (h.revoked r hr hmem)
      · exact ((hrevoked r hr).2 hmem).2
    · rw [if_neg hp]
      intro hmem
      rcases List.mem_append.mp hmem with hmem | hmem
      · exact h.revoked r hr hmem
      · exact absurd ((hrevoked r hr).2 hmem).1 hp

/-- Sessions and log stay, and running revocations mark sessions there are. -/
theorem Inv.setRevocations (h : Inv w)
    (hmarked : ∀ r, .running r ∈ revocations → ∀ id ∈ r.marked, ∃ s ∈ w.sessions, s.id = id) :
    Inv { w with revocations := revocations } :=
  { h with marked := hmarked }

/-- A session is created, under an identifier that no session has. -/
theorem Inv.create (h : Inv w) {row : AdminSession} {now idleTTL : Nanoseconds}
    (hfresh : ∀ r ∈ w.sessions, r.id ≠ row.id)
    (hidle : row.idleExpiresAt = timestamp (now + idleTTL)) (hrevoked : row.revokedAt = none) :
    Inv { w with sessions := w.sessions ++ [row], log := w.log ++ [.created row now idleTTL] } := by
  have hnew : ∀ e ∈ w.log, e.id ≠ row.id := by
    intro e he heq
    obtain ⟨r, hr, hre⟩ := h.known e he
    exact hfresh r hr (hre.trans heq)
  refine ⟨h.keyed.append hfresh, fun e he => ?_, fun r hr id hm => ?_, fun r hr => ?_, fun r hr =>
    ?_, fun r hr hmem => ?_⟩
  · rcases List.mem_append.mp he with he | he
    · obtain ⟨r, hr, hre⟩ := h.known e he
      exact ⟨r, List.mem_append_left _ hr, hre⟩
    · obtain rfl := List.mem_singleton.mp he
      exact ⟨row, List.mem_append_right _ (List.mem_singleton_self _), rfl⟩
  · obtain ⟨s, hs, hid⟩ := h.marked r hr id hm
    exact ⟨s, List.mem_append_left _ hs, hid⟩
  · rcases List.mem_append.mp hr with hr | hr
    · obtain ⟨s, at_, d, hs, hid, hexpires⟩ := h.born r hr
      exact ⟨s, at_, d, List.mem_append_left _ hs, hid, hexpires⟩
    · obtain rfl := List.mem_singleton.mp hr
      exact ⟨r, now, idleTTL, List.mem_append_right _ (List.mem_singleton_self _), rfl, rfl⟩
  · rcases List.mem_append.mp hr with hr | hr
    · have hunused : ∀ e ∈ [Entry.created row now idleTTL], e.use r.id = none := by
        intro e he
        obtain rfl := List.mem_singleton.mp he
        exact Entry.use_eq_none (hfresh r hr).symm
      rw [lastUse_append_of_none hunused]
      exact h.used r hr
    · obtain rfl := List.mem_singleton.mp hr
      exact ⟨now, idleTTL, lastUse_append_of_use (by simp [Entry.use]), hidle.le⟩
  · have hold : Entry.revoked r.id ∈ w.log := by simpa using hmem
    rcases List.mem_append.mp hr with hr | hr
    · exact h.revoked r hr hold
    · have hrow : r = row := List.mem_singleton.mp hr
      exact absurd (congrArg AdminSession.id hrow) (hnew _ hold)

theorem Inv.effect (h : Inv w) {l : Label} (he : Effect sha256 servers w l w') : Inv w' := by
  cases he with
  | idle => exact h
  | created hrow hpolicy hfresh =>
    obtain ⟨-, -, -, -, -, -, hidle, hrevoked⟩ := newSession_ok hrow hpolicy
    exact h.create (fun r hr => (hfresh r hr).1) hidle hrevoked
  | @authenticated token policy now absoluteTTL idleTTL r hpolicy hr hok hfree =>
    obtain ⟨-, -, hpos, -⟩ := policyFor_eq_some.mp hpolicy
    refine h.update (fun _ => rfl) (fun _ => rfl) (fun e he => ?_)
      (fun _ h => h) (fun x hx hp => ?_)
      (fun x hx hp e he => ?_) (fun x hx => ⟨fun _ hx => hx, fun hmem => ?_⟩)
    · obtain rfl := List.mem_singleton.mp he
      exact ⟨r, hr, rfl⟩
    · have hid : x.id = r.id := by simpa using hp
      exact ⟨now, idleTTL, lastUse_append_of_use (by simp [Entry.use, hid]), touched_idle_le hpos x⟩
    · obtain rfl := List.mem_singleton.mp he
      have hne : ¬x.id = r.id := by simpa using hp
      exact Entry.use_eq_none (Ne.symm hne)
    · cases List.mem_singleton.mp hmem
  | @loggedOut id now r hr hfree =>
    refine h.update (fun _ => rfl) (fun _ => rfl) (fun e he => ?_)
      (fun _ h => h) (fun x hx hp => ?_)
      (fun x hx hp e he => ?_) (fun x hx => ⟨fun _ _ => by rintro ⟨⟩, fun hmem => ?_⟩)
    · obtain rfl := List.mem_singleton.mp he
      exact ⟨r, mem_of_lookup hr, key_of_lookup hr⟩
    · have hunused : ∀ e ∈ [Entry.revoked id], e.use x.id = none := by simp [Entry.use]
      rw [lastUse_append_of_none hunused]
      exact h.used x hx
    · obtain rfl := List.mem_singleton.mp he
      rfl
    · have hid : x.id = id := by simpa using hmem
      exact ⟨by simpa using hid, by rintro ⟨⟩⟩
  | began target now =>
    refine h.setRevocations fun r hr id hm => ?_
    rcases List.mem_append.mp hr with hr | hr
    · exact h.marked r hr id hm
    · cases List.mem_singleton.mp hr
      cases hm
  | @reached n r id pending s hn hpending hfree hs =>
    refine h.setRevocations fun x hx i hm => ?_
    rcases List.mem_or_eq_of_mem_set hx with hx | hx
    · exact h.marked x hx i hm
    · unfold Revocation.reach at hx
      have hr := h.marked r (List.mem_of_getElem? hn)
      split at hx
      · cases hx
        exact hr i hm
      split at hx
      · cases hx
        rcases List.mem_append.mp hm with hm | hm
        · exact hr i hm
        · exact ⟨s, mem_of_lookup hs, (List.mem_singleton.mp hm).symm⟩
      · cases hx
  | @committed n r hn hpending =>
    refine h.update (fun _ => rfl) (fun _ => rfl) (fun e he => ?_)
      (fun x hx => ?_) (fun x hx hp => ?_)
      (fun x hx hp e he => ?_) (fun x hx => ⟨fun _ _ => by rintro ⟨⟩, fun hmem => ?_⟩)
    · obtain ⟨id, hid, rfl⟩ := List.mem_map.mp he
      exact h.marked r (List.mem_of_getElem? hn) id hid
    · rcases List.mem_or_eq_of_mem_set hx with hx | hx
      · exact hx
      · cases hx
    · have hunused : ∀ e ∈ r.marked.map Entry.revoked, e.use x.id = none := by simp [Entry.use]
      rw [lastUse_append_of_none hunused]
      exact h.used x hx
    · obtain ⟨id, -, rfl⟩ := List.mem_map.mp he
      rfl
    · have hid : x.id ∈ r.marked := by simpa using hmem
      exact ⟨by simpa using hid, by rintro ⟨⟩⟩
  | rolledBack n =>
    refine h.setRevocations fun x hx => ?_
    rcases List.mem_or_eq_of_mem_set hx with hx | hx
    · exact h.marked x hx
    · cases hx

end inv

open Runs in
theorem run_inv {w : World} {ls : List Label} (h : Run (Steps (step sha256 servers)) {} ls w) :
    Inv w :=
  h.invariant (P := Inv) (fun _ _ _ hi hs => hi.effect (step_effect hs)) inv_start

/-- Sessions stay, with the absolute expiry they have. -/
theorem effect_expiresAt {w w' : World} {l : Label} (he : Effect sha256 servers w l w') :
    ∀ r ∈ w.sessions, ∃ r' ∈ w'.sessions, r'.id = r.id ∧ r'.expiresAt = r.expiresAt := by
  have hmoved : ∀ {p : AdminSession → Bool} {f : AdminSession → AdminSession},
    (∀ r, (f r).id = r.id) →
      (∀ r, (f r).expiresAt = r.expiresAt) → ∀ r ∈ w.sessions,
      ∃ r' ∈ update p f w.sessions, r'.id = r.id ∧
        r'.expiresAt = r.expiresAt := by
    intro p f hid hexpires r hr
    refine ⟨_, mem_update.mpr ⟨r, hr, rfl⟩, ?_⟩
    split
    · exact ⟨hid r, hexpires r⟩
    · exact ⟨rfl, rfl⟩
  cases he with
  | created => exact fun r hr => ⟨r, List.mem_append_left _ hr, rfl, rfl⟩
  | authenticated => exact hmoved (fun _ => rfl) fun _ => rfl
  | loggedOut => exact hmoved (fun _ => rfl) fun _ => rfl
  | committed => exact hmoved (fun _ => rfl) fun _ => rfl
  | _ => exact fun r hr => ⟨r, hr, rfl, rfl⟩

theorem effect_log {w w' : World} {l : Label} (he : Effect sha256 servers w l w') :
    w.log <+: w'.log := by
  cases he with
  | created => exact List.prefix_append _ _
  | authenticated => exact List.prefix_append _ _
  | loggedOut => exact List.prefix_append _ _
  | committed => exact List.prefix_append _ _
  | _ => exact List.prefix_rfl

/-- An authentication that succeeds finds its session as it says. -/
theorem effect_authenticated {w w' : World} {l : Label} {id : UUID} {t d : Nanoseconds}
    (he : Effect sha256 servers w l w') (h : w'.log = w.log ++ [.authenticated id t d]) :
    ∃ r ∈ w.sessions, r.id = id ∧ r.Live (timestamp t) ∧ ¬w.Locked id ∧
      ∃ token policy, l = .authenticate token policy t ∧ r.tokenHash =
        hashCredential sha256 token := by
  have hidle : w.log ≠ w.log ++ [.authenticated id t d] := by simp
  cases he with
  | authenticated hpolicy hr hok hfree =>
    cases List.singleton_injective (List.append_cancel_left h)
    exact ⟨_, hr, rfl, hok.2, hfree, _, _, rfl, hok.1⟩
  | created => cases List.singleton_injective (List.append_cancel_left h)
  | loggedOut => cases List.singleton_injective (List.append_cancel_left h)
  | @committed n r hn hpending =>
    have hmem : Entry.authenticated id t d ∈ r.marked.map Entry.revoked := by
      rw [List.append_cancel_left h]
      exact List.mem_singleton_self _
    simp at hmem
  | _ => exact absurd h hidle

open Runs in
/-- Session validity, for every interleaving: an authentication with reading `t` succeeds
only if no earlier statement revoked the session, `t` is before the expiry the session was
created with, and before `u + d` for the reading `u` and the idle timeout `d` of its latest
use; what has taken effect stays; and no step moves an absolute expiry. -/
theorem sessions_valid {w w' : World} {ls : List Label} {l : Label}
    (hrun : Run (Steps (step sha256 servers)) {} ls w) (hstep : step sha256 servers w l = some w') :
    (∀ id t d, w'.log = w.log ++ [.authenticated id t d] → .revoked id ∉ w.log ∧
      (∃ s at_ idleTTL, Entry.created s at_ idleTTL ∈ w.log ∧ s.id = id ∧
        timestamp t < s.expiresAt) ∧ ∃ u d', lastUse id w.log = some (u, d') ∧ t < u + d') ∧
      w.log <+: w'.log ∧ ∀ r ∈ w.sessions, ∃ r' ∈ w'.sessions,
      r'.id = r.id ∧ r'.expiresAt = r.expiresAt := by
  have hinv := run_inv hrun
  have heffect := step_effect hstep
  refine ⟨fun id t d hlog => ?_, effect_log heffect, effect_expiresAt heffect⟩
  obtain ⟨r, hr, rfl, ⟨hunrevoked, hexpires, hidle⟩, -⟩ := effect_authenticated heffect hlog
  refine ⟨fun hmem => hinv.revoked r hr hmem hunrevoked, ?_, ?_⟩
  · obtain ⟨s, at_, idleTTL, hs, hid, hsame⟩ := hinv.born r hr
    exact ⟨s, at_, idleTTL, hs, hid, hsame ▸ hexpires⟩
  · obtain ⟨u, d', huse, hle⟩ := hinv.used r hr
    exact ⟨u, d', huse, timestamp_lt (Int.lt_of_lt_of_le hidle hle)⟩

def sampleSha : Bytes → Bytes := hashKnowing []

def sampleServers : Nat → Cryptor Aead.tagged := fun _ => .single Aead.tagged 7

def samplePolicy : Policy := some (8 * 3600 * second, 1800 * second)

/-- The creation of the session with the token of a random source, and its use after a
number of seconds. -/
def sampleCreate (subject : String) (octet : UInt8) (id : UUID) : Label :=
  .create 0 ⟨"https://id.example", subject, "", ["viewer"],
    ["admin.read"]⟩ samplePolicy (fun _ => octet) 0 id

def sampleUse (octet : UInt8) (seconds : Int) : Label :=
  .authenticate (randomCredential fun _ => octet) samplePolicy (seconds * second)

open Runs in
theorem sessions_valid_sample :
    ∃ w w' t d, Run (Steps (step sampleSha sampleServers)) {}
    [sampleCreate "alice" 1 5, sampleUse 1 1000] w ∧
    step sampleSha sampleServers w (sampleUse 1 2000) = some w' ∧ w'.log = w.log ++
    [.authenticated 5 t d] ∧
      .revoked 5 ∉ w.log ∧ ∃ u d', lastUse 5 w.log = some (u, d') ∧ t < u + d' := by
  have hlog : (exec (step sampleSha sampleServers) {} [sampleCreate "alice" 1 5,
    sampleUse 1 1000]).bind (fun w =>
      (step sampleSha sampleServers w (sampleUse 1 2000)).map fun w' =>
        decide (w'.log = w.log ++ [.authenticated 5 (2000 * second) (1800 * second)])) =
          some true := by
    decide +kernel
  obtain ⟨w, hw, hstep⟩ := Option.bind_eq_some_iff.mp hlog
  obtain ⟨w', hw', hlog⟩ := Option.map_eq_some_iff.mp hstep
  have hlog := of_decide_eq_true hlog
  have hrun := exec_eq_some_iff.mp hw
  obtain ⟨hunrevoked, -, hused⟩ := (sessions_valid hrun hw').1 5 _ _ hlog
  exact ⟨w, w', _, _, hrun, hw', hlog, hunrevoked, hused⟩

end Tenancit.Adminauth
