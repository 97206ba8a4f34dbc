import Tenancit.Idempotency.Interleaving

/-!
Each mutation is done once. In every interleaving the log is that of a table which a mutation
enters when nothing stands under its key: whoever comes after it is given its answer, or an
error, until it has expired and is removed.
-/
namespace Tenancit.Idempotency

open Encoding Crypto Store Table Locks OnceTable Runs

/-- What a request may be told by what stands under its key, and what may be removed. -/
def rules : Rules Answer Reply Timestamp where
  Answers
    | none, r => r.result = .error (.store .noRows)
    | some a, r =>
      if a.fingerprint ≠ r.fingerprint then r.result = .error .fingerprintMismatch
      else if a.expiresAt ≤ r.now then r.result = .error .expired
      else r.result = .ok a.replay ∨ ∃ err, r.result = .error (.crypto err)
  Removable now a := a.expiresAt ≤ now

section

variable {Key : Type} {aead : Aead Key} {U : Cryptor aead → Prop} {w w' : World aead} {n : Nat}
  {s : Session aead} {phase : Phase}

/-- The cryptors of the processes: their current versions fit the column, and a version that two of
them have loaded is one key. -/
structure Compatible (U : Cryptor aead → Prop) : Prop where
  fits : ∀ c, U c → c.current < 2 ^ 15
  agree : ∀ c d, U c → U d → c.Agree d

/-- The record holds the answer. -/
structure Stored (U : Cryptor aead → Prop) (r : AdminIdempotencyRecord) (a : Answer) : Prop where
  fingerprint : r.requestFingerprint = a.fingerprint
  expiresAt : r.expiresAt = a.expiresAt
  status : r.status = .completed
  httpStatus : r.httpStatus = some (Int16.ofInt a.status)
  success : 200 ≤ a.status ∧ a.status ≤ 299
  contentType : r.contentType = some a.contentType
  body : ∃ c random, U c ∧ r.responseCipher = some (c.encryptBytes random a.body).cipher ∧
    r.nonce = some (c.encryptBytes random a.body).nonce ∧
    r.keyVersion = some (Int16.ofInt c.current)

/-- The record is claimed by the request. -/
structure Fresh (r : AdminIdempotencyRecord) (request : Request) : Prop where
  key : recordKey r = request.recordKey
  status : r.status = .processing
  fingerprint : r.requestFingerprint = request.fingerprint

/-- The entries of the table are those of the records. -/
structure Represents (U : Cryptor aead → Prop) (records : Records) (t : RecordKey → Option Answer) :
    Prop where
  stored : ∀ r ∈ records, ∃ a, t (recordKey r) = some a ∧ Stored U r a
  record : ∀ k a, t k = some a → ∃ r ∈ records, recordKey r = k

/-- What holds in every reachable state. -/
structure Inv (U : Cryptor aead → Prop) (w : World aead) : Prop where
  keys : Keyed recordKey w.records
  ids : Keyed AdminIdempotencyRecord.id w.records
  heldKeys : HeldOnce Session.heldKey w.sessions
  heldIds : HeldOnce Session.heldId w.sessions
  free : ∀ s ∈ w.sessions, ∀ row, s.row? = some row →
    row.id ∉ w.deleted ∧ ∀ r ∈ w.records, recordKey r ≠ recordKey row ∧ r.id ≠ row.id
  uses : ∀ s ∈ w.sessions, U s.attempt.cryptor
  claimed : ∀ s ∈ w.sessions, ∀ row, s.phase = .claimed row → Fresh row s.attempt.request
  completed : ∀ s ∈ w.sessions, ∀ row a, s.phase = .completed row a → Stored U row a
  expired : ∀ c ∈ w.cleanups, ∀ r ∈ w.records, r.id ∈ c.ids → r.expiresAt ≤ c.now
  serial : ∃ t, Serial rules w.log t ∧ Represents U w.records t

theorem inv_start : Inv U ({} : World aead) where
  keys := keyed_nil
  ids := keyed_nil
  heldKeys := heldOnce_nil
  heldIds := heldOnce_nil
  free := by simp
  uses := by simp
  claimed := by simp
  completed := by simp
  expired := by simp
  serial := ⟨_, .nil _, by simp, by simp⟩

/-- A stored answer is replayed as it is, by any process whose keys are compatible. -/
theorem replayRecord_stored (hU : Compatible U) {d : Cryptor aead} (hd : U d)
    {r : AdminIdempotencyRecord} {a : Answer} (h : Stored U r a) (request : Request)
    (now : Timestamp) :
    rules.Answers (some a) ⟨request.fingerprint, now, replayRecord d request now r⟩ := by
  obtain ⟨c, random, hc, hcipher, hnonce, hversion⟩ := h.body
  have hstatus : (Int16.ofInt a.status).toInt = a.status := by
    obtain ⟨hlo, hhi⟩ := h.success
    rw [Int16.toInt_ofInt, Int.bmod_def, show Int16.size = 65536 from rfl]
    omega
  have hcurrent : (Int16.ofInt c.current).toInt = c.current := by
    have hpos := (c.loaded_stored c.current_loaded).1
    have hfits := hU.fits c hc
    rw [Int16.toInt_ofInt, Int.bmod_def, show Int16.size = 65536 from rfl]
    omega
  have hopen : (⟨(c.encryptBytes random a.body).cipher, (c.encryptBytes random a.body).nonce,
    c.current⟩ : Encrypted) =
    c.encryptBytes random a.body := rfl
  simp only [rules, replayRecord, h.fingerprint, h.expiresAt, h.status, h.httpStatus, hversion,
    hcipher, hnonce, Option.getD_some,
    hcurrent, hstatus, h.contentType, hopen]
  split
  · rfl
  · split
    · rfl
    · cases hbody : d.decryptBytes (c.encryptBytes random a.body) with
      | error err => exact .inr ⟨err, rfl⟩
      | ok body =>
        obtain rfl := (hU.agree c d hc hd).decryptBytes hbody
        exact .inl rfl

theorem heldKey_eq {row : AdminIdempotencyRecord} (h : s.row? = some row) :
    s.heldKey = some (recordKey row) := by
  rw [Session.heldKey, h]
  rfl

theorem heldId_eq {row : AdminIdempotencyRecord} (h : s.row? = some row) :
    s.heldId = some row.id := by
  rw [Session.heldId, h]
  rfl

/-- A session goes on with no record, or with one that nobody else has. -/
theorem Inv.setPhase (h : Inv U w) (hn : w.sessions[n]? = some s)
    (hrow : ∀ row, ({ s with phase } : Session aead).row? = some row →
      (∀ m x, m ≠ n → w.sessions[m]? = some x → x.heldKey ≠ some (recordKey row) ∧
        x.heldId ≠ some row.id) ∧
      row.id ∉ w.deleted ∧ ∀ r ∈ w.records, recordKey r ≠ recordKey row ∧ r.id ≠ row.id)
    (hclaimed : ∀ row, phase = .claimed row → Fresh row s.attempt.request)
    (hcompleted : ∀ row a, phase = .completed row a → Stored U row a) :
    Inv U (w.setPhase n s phase) where
  keys := h.keys
  ids := h.ids
  heldKeys := by
    refine h.heldKeys.set fun k hk m x hm hx => ?_
    obtain ⟨row, hrow', rfl⟩ := Option.map_eq_some_iff.mp hk
    exact ((hrow row hrow').1 m x hm hx).1
  heldIds := by
    refine h.heldIds.set fun k hk m x hm hx => ?_
    obtain ⟨row, hrow', rfl⟩ := Option.map_eq_some_iff.mp hk
    exact ((hrow row hrow').1 m x hm hx).2
  free x hx row hrow' := by
    rcases List.mem_or_eq_of_mem_set hx with hx | rfl
    · exact h.free x hx row hrow'
    · exact (hrow row hrow').2
  uses x hx := by
    rcases List.mem_or_eq_of_mem_set hx with hx | rfl
    · exact h.uses x hx
    · exact h.uses s (List.mem_of_getElem? hn)
  claimed x hx row hrow' := by
    rcases List.mem_or_eq_of_mem_set hx with hx | rfl
    · exact h.claimed x hx row hrow'
    · exact hclaimed row hrow'
  completed x hx row a hrow' := by
    rcases List.mem_or_eq_of_mem_set hx with hx | rfl
    · exact h.completed x hx row a hrow'
    · exact hcompleted row a hrow'
  expired := h.expired
  serial := h.serial

/-- A session goes on with no record. -/
theorem Inv.leave (h : Inv U w) (hn : w.sessions[n]? = some s)
    (hrow : ({ s with phase } : Session aead).row? = none) (hclaimed : ∀ row, phase ≠ .claimed row)
    (hcompleted : ∀ row a, phase ≠ .completed row a) :
    Inv U (w.setPhase n s phase) :=
  h.setPhase hn (fun row hrow' => by rw [hrow] at hrow'; cases hrow')
    (fun row heq => absurd heq (hclaimed row))
    fun row a heq => absurd heq (hcompleted row a)

theorem Inv.end_ (h : Inv U w) (hn : w.sessions[n]? = some s) : Inv U (w.setPhase n s .ended) :=
  h.leave hn rfl (by simp) (by simp)

theorem Inv.open_ (h : Inv U w) {a : Attempt aead} (ha : U a.cryptor) :
    Inv U { w with sessions := w.sessions ++ [⟨a, .begun⟩] } where
  keys := h.keys
  ids := h.ids
  heldKeys := h.heldKeys.concat fun k hk => by cases hk
  heldIds := h.heldIds.concat fun k hk => by cases hk
  free x hx row hrow := by
    rcases List.mem_append.mp hx with hx | hx
    · exact h.free x hx row hrow
    · obtain rfl := List.mem_singleton.mp hx
      cases hrow
  uses x hx := by
    rcases List.mem_append.mp hx with hx | hx
    · exact h.uses x hx
    · exact List.mem_singleton.mp hx ▸ ha
  claimed x hx row hrow := by
    rcases List.mem_append.mp hx with hx | hx
    · exact h.claimed x hx row hrow
    · obtain rfl := List.mem_singleton.mp hx
      cases hrow
  completed x hx row a hrow := by
    rcases List.mem_append.mp hx with hx | hx
    · exact h.completed x hx row a hrow
    · obtain rfl := List.mem_singleton.mp hx
      cases hrow
  expired := h.expired
  serial := h.serial

theorem claimRecord_cases {request : Request} {now : Timestamp} {t : Tick} {records rows : Records}
    {affected : Nat} (h : claimRecord request now t records = .ok (affected, rows)) :
    affected = 0 ∨ affected = 1 ∧ ∀ r ∈ records, recordKey r ≠
      request.recordKey ∧ r.id ≠ t.ids 0 := by
  unfold claimRecord at h
  split at h
  · cases h
  · split at h
    · cases h
      exact .inl rfl
    next hnone =>
      cases h
      exact .inr ⟨rfl, fun r hr => ⟨fun heq => hnone ⟨r, hr, .inr heq⟩, fun heq =>
        hnone ⟨r, hr, .inl heq⟩⟩⟩

theorem Inv.claim (h : Inv U w) {now : Timestamp} {t : Tick} (hstep : w.claim n now t = some w') :
    Inv U w' := by
  unfold World.claim at hstep
  split at hstep
  next a hn =>
    obtain ⟨⟨hsessions, hid, -⟩, hstep⟩ := Option.ite_none_right_eq_some.mp hstep
    split at hstep
    · cases hstep
      exact h.end_ hn
    next affected rows hclaim =>
      cases hstep
      rcases claimRecord_cases hclaim with rfl | ⟨rfl, hnone⟩
      · exact h.leave hn rfl (by simp) (by simp)
      · refine h.setPhase hn (fun row hrow => ?_) (fun row hrow => ?_) (by simp)
        · obtain rfl := Option.some.inj hrow
          exact ⟨fun m x _ hx => hsessions x (List.mem_of_getElem? hx), hid, hnone⟩
        · obtain rfl := Phase.claimed.inj hrow
          exact ⟨rfl, rfl, rfl⟩
  · cases hstep

theorem Inv.complete (h : Inv U w) {status : Int} {contentType : String} {body : Bytes} {t : Tick}
    (hstep : w.complete n status contentType body t = some w') : Inv U w' := by
  unfold World.complete at hstep
  split at hstep
  next a row hn =>
    have hmem := List.mem_of_getElem? hn
    obtain ⟨hkey, hstatus, hfingerprint⟩ := h.claimed _ hmem row rfl
    split at hstep
    next hvalid =>
      split at hstep
      · cases hstep
        rw [if_pos ⟨hkey, hstatus, hfingerprint⟩]
        refine h.setPhase hn (fun row' hrow => ?_) (by simp) (fun row' answer heq => ?_)
        · -- the record keeps its key and its identifier
          obtain rfl := Option.some.inj hrow
          obtain ⟨hid, hnone⟩ := h.free _ hmem row rfl
          refine ⟨fun m x hm hx => ⟨fun heq => hm ?_, fun heq => hm ?_⟩, hid, hnone⟩
          · exact h.heldKeys m n x _ _ hx hn heq rfl
          · exact h.heldIds m n x _ _ hx hn heq rfl
        · obtain ⟨rfl, rfl⟩ := Phase.completed.inj heq
          exact ⟨rfl, rfl, rfl, rfl, ⟨hvalid.1, hvalid.2.1⟩, rfl, a.cryptor, t.random,
            h.uses _ hmem, rfl, rfl, rfl⟩
      · cases hstep
        exact h.end_ hn
    · cases hstep
      exact h.end_ hn
  · cases hstep

theorem Inv.commit (h : Inv U w) (hstep : w.commit n = some w') : Inv U w' := by
  unfold World.commit at hstep
  split at hstep
  next a row answer hn =>
    cases hstep
    have hmem := List.mem_of_getElem? hn
    obtain ⟨hdeleted, hnone⟩ := h.free _ hmem row rfl
    have hended := h.end_ hn
    refine ⟨h.keys.append fun r hr => (hnone r hr).1, h.ids.append fun r hr => (hnone r hr).2,
      hended.heldKeys, hended.heldIds,
      fun s hs row' hrow => ?_, hended.uses, hended.claimed, hended.completed,
      fun c hc r hr hid => ?_, ?_⟩
    · refine ⟨(hended.free s hs row' hrow).1, fun r hr => ?_⟩
      rcases List.mem_append.mp hr with hr | hr
      · exact (hended.free s hs row' hrow).2 r hr
      · -- the other records are not this one
        obtain rfl := List.mem_singleton.mp hr
        obtain ⟨m, hm⟩ := List.mem_iff_getElem?.mp hs
        rcases set_cases hm with ⟨-, rfl⟩ | ⟨hne, hm⟩
        · cases hrow
        · exact ⟨fun heq => hne (h.heldKeys m n _ _ _ hm hn (heldKey_eq hrow) (heq ▸ rfl)),
            fun heq => hne (h.heldIds m n _ _ _ hm hn (heldId_eq hrow) (heq ▸ rfl))⟩
    · rcases List.mem_append.mp hr with hr | hr
      · exact h.expired c hc r hr hid
      · obtain rfl := List.mem_singleton.mp hr
        exact absurd (List.mem_flatMap.mpr ⟨c, hc, hid⟩) hdeleted
    · obtain ⟨t, ht, hstored, hrecord⟩ := h.serial
      have hvacant : t (recordKey row) = none := by
        by_contra hsome
        obtain ⟨b, hb⟩ := Option.ne_none_iff_exists'.mp hsome
        obtain ⟨r, hr, hkey⟩ := hrecord _ b hb
        exact (hnone r hr).1 hkey
      refine ⟨_, ht.snoc (.executed hvacant), fun r hr => ?_, fun k b hb => ?_⟩
      · rcases List.mem_append.mp hr with hr | hr
        · obtain ⟨b, hb, hr'⟩ := hstored r hr
          exact ⟨b, by rw [Function.update_of_ne (hnone r hr).1, hb], hr'⟩
        · obtain rfl := List.mem_singleton.mp hr
          exact ⟨answer, Function.update_self .., h.completed _ hmem r answer rfl⟩
      · rcases eq_or_ne k (recordKey row) with rfl | hne
        · exact ⟨row, by simp, rfl⟩
        · rw [Function.update_of_ne hne] at hb
          obtain ⟨r, hr, hk⟩ := hrecord k b hb
          exact ⟨r, List.mem_append_left _ hr, hk⟩
  · cases hstep

theorem Inv.replay (hU : Compatible U) (h : Inv U w) (hstep : w.replay n = some w') : Inv U w' := by
  unfold World.replay at hstep
  split at hstep
  next a now hn =>
    obtain ⟨-, hstep⟩ := Option.ite_none_right_eq_some.mp hstep
    cases hstep
    have hended := h.end_ hn
    obtain ⟨t, ht, hstored, hrecord⟩ := h.serial
    refine ⟨hended.keys, hended.ids, hended.heldKeys, hended.heldIds, hended.free, hended.uses,
      hended.claimed, hended.completed,
      hended.expired, t, ht.snoc (.answered ?_), hstored, hrecord⟩
    cases hfind : findRecord w.records a.request.recordKey with
    | none =>
      have hvacant : t a.request.recordKey = none := by
        by_contra hsome
        obtain ⟨b, hb⟩ := Option.ne_none_iff_exists'.mp hsome
        obtain ⟨r, hr, hkey⟩ := hrecord _ b hb
        exact lookup_eq_none.mp hfind r hr hkey
      rw [hvacant]
      rfl
    | some r =>
      obtain ⟨b, hb, hr⟩ := hstored r (mem_of_lookup hfind)
      rw [key_of_lookup hfind] at hb
      rw [hb]
      exact replayRecord_stored hU (h.uses _ (List.mem_of_getElem? hn)) hr a.request now
  · cases hstep

/-- What a cleanup deletes has expired. -/
theorem expired_of_cleanup {now : Timestamp} {limit : Nat} {records rest : Records} {count : Nat}
    (hids : Keyed AdminIdempotencyRecord.id records)
    (h : cleanupExpired now limit records = .ok (count, rest)) {r : AdminIdempotencyRecord}
    (hr : r ∈ records) (hgone : r.id ∉ rest.map AdminIdempotencyRecord.id) : r.expiresAt ≤ now := by
  unfold cleanupExpired at h
  split at h
  · cases h
  · cases h
    by_contra hlate
    refine hgone (List.mem_map.mpr ⟨r,
      mem_delete.mpr ⟨hr, decide_eq_false fun hid => hlate ?_⟩, rfl⟩)
    obtain ⟨g, hg, hid⟩ := List.mem_map.mp hid
    obtain ⟨hg, hexpired⟩ :=
      List.mem_filter.mp ((List.mem_insertionSort _).mp (List.mem_of_mem_take hg))
    exact hids.eq_of_key hg hr hid ▸ of_decide_eq_true hexpired

theorem Inv.cleanup (h : Inv U w) {now : Timestamp} {limit : Nat}
    (hstep : w.cleanup now limit = some w') : Inv U w' := by
  unfold World.cleanup at hstep
  split at hstep
  · cases hstep
  next count rest hcleanup =>
    cases hstep
    refine ⟨h.keys, h.ids, h.heldKeys, h.heldIds, fun s hs row hrow => ?_, h.uses, h.claimed,
      h.completed, fun c hc r hr hid => ?_,
      h.serial⟩
    · obtain ⟨hdeleted, hnone⟩ := h.free s hs row hrow
      refine ⟨fun hmem => ?_, hnone⟩
      rw [World.deleted, List.flatMap_append, List.mem_append] at hmem
      rcases hmem with hmem | hmem
      · exact hdeleted hmem
      · simp only [List.flatMap_cons, List.flatMap_nil, List.append_nil,
          List.mem_filter, List.mem_map] at hmem
        obtain ⟨⟨r, hr, hid⟩, -⟩ := hmem
        exact (hnone r hr.1).2 hid
    · rcases List.mem_append.mp hc with hc | hc
      · exact h.expired c hc r hr hid
      · obtain rfl := List.mem_singleton.mp hc
        obtain ⟨hfree, hgone⟩ := List.mem_filter.mp hid
        obtain ⟨g, hg, hid⟩ := List.mem_map.mp hfree
        obtain rfl := h.ids.eq_of_key (List.mem_filter.mp hg).1 hr hid
        exact expired_of_cleanup (h.ids.sublist (List.filter_sublist.map _)) hcleanup hg
          (of_decide_eq_true hgone)

theorem mem_deleted_eraseIdx {m : Nat} {id : UUID}
    (h : id ∈ (w.cleanups.eraseIdx m).flatMap Cleanup.ids) : id ∈ w.deleted := by
  obtain ⟨c, hc, hid⟩ := List.mem_flatMap.mp h
  exact List.mem_flatMap.mpr ⟨c, List.mem_of_mem_eraseIdx hc, hid⟩

theorem Inv.cleanupRollback (h : Inv U w) (m : Nat) :
    Inv U { w with cleanups := w.cleanups.eraseIdx m } where
  keys := h.keys
  ids := h.ids
  heldKeys := h.heldKeys
  heldIds := h.heldIds
  free s hs row hrow :=
    ⟨fun hmem => (h.free s hs row hrow).1 (mem_deleted_eraseIdx hmem), (h.free s hs row hrow).2⟩
  uses := h.uses
  claimed := h.claimed
  completed := h.completed
  expired c hc := h.expired c (List.mem_of_mem_eraseIdx hc)
  serial := h.serial

theorem Inv.cleanupCommit (h : Inv U w) {m : Nat} (hstep : w.cleanupCommit m = some w') :
    Inv U w' := by
  obtain ⟨c, hc, rfl⟩ := Option.map_eq_some_iff.mp hstep
  have hmem := List.mem_of_getElem? hc
  have hrolled := h.cleanupRollback m
  have hsub : ∀ r ∈ delete (fun r : AdminIdempotencyRecord => r.id ∈ c.ids) w.records,
    r ∈ w.records := fun r hr => (mem_delete.mp hr).1
  refine ⟨h.keys.delete, h.ids.delete, h.heldKeys, h.heldIds,
    fun s hs row hrow =>
    ⟨(hrolled.free s hs row hrow).1, fun r hr => (h.free s hs row hrow).2 r (hsub r hr)⟩,
    h.uses, h.claimed,
    h.completed, fun c' hc' r hr => hrolled.expired c' hc' r (hsub r hr), ?_⟩
  obtain ⟨t, ht, hstored, hrecord⟩ := h.serial
  have hgone : ∀ r ∈ w.records, recordKey r ∈
      (w.records.filter fun r => r.id ∈ c.ids).map recordKey ↔ r.id ∈ c.ids := by
    intro r hr
    constructor
    · intro hkey
      obtain ⟨g, hg, heq⟩ := List.mem_map.mp hkey
      obtain ⟨hg, hid⟩ := List.mem_filter.mp hg
      exact h.keys.eq_of_key hg hr heq ▸ of_decide_eq_true hid
    · exact fun hid => List.mem_map_of_mem (List.mem_filter.mpr ⟨hr, decide_eq_true hid⟩)
  refine ⟨_, ht.snoc (.removed fun k hk => ?_), fun r hr => ?_, fun k a hk => ?_⟩
  · obtain ⟨g, hg, rfl⟩ := List.mem_map.mp hk
    obtain ⟨hg, hid⟩ := List.mem_filter.mp hg
    obtain ⟨a, ha, hga⟩ := hstored g hg
    refine ⟨a, ha, ?_⟩
    show a.expiresAt ≤ c.now
    exact hga.expiresAt ▸ h.expired c hmem g hg (of_decide_eq_true hid)
  · obtain ⟨hr, hkept⟩ := mem_delete.mp hr
    obtain ⟨a, ha, hra⟩ := hstored r hr
    exact ⟨a, by rw [if_neg fun hk => of_decide_eq_false hkept ((hgone r hr).mp hk), ha], hra⟩
  · split at hk
    · cases hk
    next hnot =>
      obtain ⟨r, hr, rfl⟩ := hrecord k a hk
      exact ⟨r, mem_delete.mpr ⟨hr, decide_eq_false fun hid => hnot ((hgone r hr).mpr hid)⟩, rfl⟩

/-- The processes that take part. -/
def Label.Uses (U : Cryptor aead → Prop) : Label aead → Prop
  | .open_ a => U a.cryptor
  | _ => True

theorem Inv.step (hU : Compatible U) (h : Inv U w) {l : Label aead} (hl : l.Uses U)
    (hstep : w.step l = some w') : Inv U w' := by
  cases l with
  | open_ a =>
    obtain ⟨-, hstep⟩ := Option.ite_none_right_eq_some.mp hstep
    exact Option.some.inj hstep ▸ h.open_ hl
  | claim n now t => exact h.claim hstep
  | complete n status contentType body t => exact h.complete hstep
  | commit n => exact h.commit hstep
  | replay n => exact h.replay hU hstep
  | rollback n =>
    obtain ⟨s, hs, rfl⟩ := Option.map_eq_some_iff.mp hstep
    exact h.end_ hs
  | cleanup now limit => exact h.cleanup hstep
  | cleanupCommit m => exact h.cleanupCommit hstep
  | cleanupRollback m => exact Option.some.inj hstep ▸ h.cleanupRollback m

theorem inv_run (hU : Compatible U) {ls : List (Label aead)} (huses : ∀ l ∈ ls, l.Uses U)
    (hrun : Run (Steps World.step) {} ls w) : Inv U w := by
  refine hrun.history (P := fun ls w => (∀ l ∈ ls, l.Uses U) → Inv U w)
    (fun _ => inv_start) ?_ huses
  intro ls u l t _ ih hstep huses
  obtain ⟨hls, hl⟩ := List.forall_mem_append.mp huses
  exact (ih hls).step hU (List.forall_mem_singleton.mp hl) hstep

/-- A log in which each mutation is done once. -/
structure Once (log : List LogEntry) : Prop where
  /-- Of two mutations under one key the record of the first was removed in between, and had
  expired. -/
  apart : ∀ xs ys zs k a b, log = xs ++ .executed k a :: ys ++ .executed k b :: zs →
    ∃ us now ks vs, ys = us ++ .removed now ks :: vs ∧ k ∈ ks ∧ a.expiresAt ≤ now
  /-- A replay is the answer of the mutation that was committed last under the key, with the same
  fingerprint and in time. -/
  replayed : ∀ xs ys k r replay, log = xs ++ .answered k r :: ys → r.result = .ok replay →
    ∃ a us vs, xs = us ++ .executed k a :: vs ∧ (∀ e ∈ vs, ¬e.Removes k ∧ ∀ b, e ≠ .executed k b) ∧
      a.fingerprint = r.fingerprint ∧ r.now < a.expiresAt ∧ replay = a.replay
  /-- Nobody is told that a request is in progress. -/
  settled : ∀ k r, .answered k r ∈ log → r.result ≠ .error .inProgress

/-- In every interleaving of requests and cleanups, between processes whose keys are compatible,
each mutation is done once. -/
theorem mutations_once (hU : Compatible U) {ls : List (Label aead)} (huses : ∀ l ∈ ls, l.Uses U)
    (hrun : Run (Steps World.step) {} ls w) : Once w.log := by
  obtain ⟨t, hserial, -⟩ := (inv_run hU huses hrun).serial
  refine ⟨fun xs ys zs k a b hlog => ?_, fun xs ys k r replay hlog hr => ?_, fun k r hmem hr => ?_⟩
  · exact (hlog ▸ hserial).executed_apart
  · obtain ⟨a, us, vs, hxs, hvs, hanswers⟩ := Serial.answered (hlog ▸ hserial) fun hnone => by
      simp [rules, hr] at hnone
    simp only [rules, hr] at hanswers
    split at hanswers
    · cases hanswers
    next hsame =>
      split at hanswers
      · cases hanswers
      next hintime =>
        refine ⟨a, us, vs, hxs, hvs, not_not.mp hsame, not_le.mp hintime, ?_⟩
        rcases hanswers with heq | ⟨err, heq⟩
        · exact Except.ok.inj heq
        · cases heq
  · obtain ⟨xs, ys, hlog⟩ := List.append_of_mem hmem
    obtain ⟨a, -, -, -, -, hanswers⟩ :=
      Serial.answered (hlog ▸ hserial) fun hnone => by simp [rules, hr] at hnone
    simp only [rules, hr] at hanswers
    split at hanswers
    · cases hanswers
    · split at hanswers
      · cases hanswers
      · rcases hanswers with heq | ⟨err, heq⟩ <;> cases heq

end

/-- A request of the shared token, and its retry. -/
def retried : Attempt Aead.tagged :=
  ⟨⟨⟨"shared_admin_token", "", "primary"⟩, "POST /v1/admin/tenants", 5, List.replicate 32 0,
    Timestamp.seconds 600⟩, .single Aead.tagged 7⟩

/-- The retry finds the record of the first, and replays its answer. -/
theorem mutations_once_retried : ∃ w, exec World.step ({} : World Aead.tagged)
      [.open_ retried, .open_ retried, .claim 0 0 ⟨0, fun _ => 1, fun _ => 0, .plain⟩,
        .complete 0 201 "application/json" [1] ⟨0, fun _ => 1, fun _ => 0, .plain⟩,
        .commit 0, .claim 1 1 ⟨0, fun _ => 2, fun _ => 0, .plain⟩,
        .replay 1] = some w ∧ Once w.log := by
  obtain ⟨w, hw⟩ := Option.isSome_iff_exists.mp (show (exec World.step ({} : World Aead.tagged)
    [.open_ retried, .open_ retried, .claim 0 0 ⟨0, fun _ => 1, fun _ => 0, .plain⟩,
     .complete 0 201 "application/json" [1] ⟨0, fun _ => 1, fun _ => 0, .plain⟩,
      .commit 0, .claim 1 1 ⟨0, fun _ => 2, fun _ => 0, .plain⟩,
      .replay 1]).isSome = true by decide +kernel)
  have hcompatible : Compatible (fun c => c = Cryptor.single Aead.tagged 7) :=
    ⟨by rintro c rfl; decide, by rintro c d rfl rfl; exact (Cryptor.keeps_refl _).agree⟩
  exact ⟨w, hw, mutations_once hcompatible (by simp [Label.Uses, retried]) (exec_eq_some_iff.mp hw)⟩

end Tenancit.Idempotency
