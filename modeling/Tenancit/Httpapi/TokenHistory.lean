import Tenancit.Httpapi.ApiTokens
import Tenancit.Httpapi.CatalogRequests

/-!
The tokens that are accepted at the end of a run, told by the requests of the run: who was
handed which token, and which rotation, revocation or end came after.
-/
namespace Tenancit.Httpapi

open Encoding Crypto Store Service Queries Table
open Program

section changes

variable {sha256 : Bytes → Bytes} {ts ts' ticks : List Tick} {s s' : ClientTables} {now : Timestamp}
  {id : UUID} {c : ApiClient} {token : String} {graceSeconds : Int32}

/-- A rotation keeps the superseded token where it has a grace, until a reading and the grace. -/
inductive KeptPrevious (id : UUID) (graceSeconds : Int32) (read : Option Tick)
    (s s' : ClientTables) : Prop
  | dropped (hnone : graceSeconds ≤ 0) (h : s'.previousTokens = s.previousTokens)
  | kept (hgrace : 0 < graceSeconds) {current : ApiClient} (hcurrent : current ∈ s.clients)
      (hid : current.id = id)
      {t : Tick} (hread : read = some t) {p : ApiClientPreviousToken} (hclient : p.apiClientId = id)
      (hhash : p.keyHash = current.keyHash)
      (huntil : p.validUntil = t.clock + Timestamp.seconds graceSeconds.toInt)
      (h : s'.previousTokens = s.previousTokens ++ [p])

/-- A revoked client has been deleted with its tokens. -/
structure Removed (id : UUID) (s s' : ClientTables) : Prop where
  revoked : ∃ x ∈ s.clients, x.id = id ∧ x.status = .revoked
  clients : s'.clients = delete (fun x => x.id = id && x.status = .revoked) s.clients
  previous : s'.previousTokens = delete (fun p => p.apiClientId = id) s.previousTokens

theorem Change.rotateAPIClient_kept
    (h : Change.rotateAPIClient sha256 id graceSeconds now ts s = .ok ((c, token), ts', s')) :
    KeptPrevious id graceSeconds ts[2]? s s' := by
  obtain ⟨t, ts₁, rfl, h₁⟩ := Tx.draw_bind_eq_ok.mp h
  obtain ⟨t₁, ts₂, current, rfl, hcurrent, h₂⟩ := Tx.query_bind_eq_ok.mp h₁
  obtain ⟨-, h₃⟩ := Tx.require_bind_eq_ok.mp h₂
  obtain ⟨u, ts₃, s₁, hsave, h₄⟩ := Tx.bind_eq_ok.mp h₃
  obtain ⟨t₂, ts₄, rotated, s₂, -, hrotate, h₅⟩ := Tx.statement_bind_eq_ok.mp h₄
  cases Tx.pure_eq_ok.mp h₅
  simp only [rotateAPIClientToken, ite_error_eq_ok] at hrotate
  obtain ⟨-, rfl⟩ := changeClient_ok hrotate.2
  have hlookup := one_eq_ok.mp hcurrent
  unfold Change.savePrevious at hsave
  split at hsave
  next hgrace =>
    obtain ⟨read, ts₅, rfl, h₆⟩ := Tx.draw_bind_eq_ok.mp hsave
    obtain ⟨t₃, -, hsaved⟩ := Tx.statement_eq_ok.mp (Tx.mapErr_eq_ok.mp h₆)
    obtain ⟨-, p, hclient, hhash, hvalid, hprevious⟩ := savePreviousAPIClientToken_ok hsaved
    exact .kept hgrace (mem_of_lookup hlookup)
      (key_of_lookup hlookup) rfl hclient hhash hvalid hprevious
  next hnone =>
    cases Tx.pure_eq_ok.mp hsave
    exact .dropped (Int32.not_lt.mp hnone) rfl

theorem Change.deleteAPIClient_removed {x : ApiClient}
    (h : Change.deleteAPIClient id ts s = .ok (x, ts', s')) : Removed id s s' := by
  obtain ⟨t, ts₁, current, -, hcurrent, h₁⟩ := Tx.query_bind_eq_ok.mp h
  obtain ⟨hstatus, h₂⟩ := Tx.require_bind_eq_ok.mp h₁
  obtain ⟨t₁, ts₂, n, s₁, -, hdelete, h₃⟩ := Tx.statement_bind_eq_ok.mp h₂
  obtain ⟨hcount, h₄⟩ := Tx.require_bind_eq_ok.mp h₃
  cases Tx.pure_eq_ok.mp h₄
  have hlookup := one_eq_ok.mp hcurrent
  unfold Queries.deleteAPIClient at hdelete
  split at hdelete
  · cases hdelete
    exact absurd rfl hcount
  · cases hdelete
    exact ⟨⟨_, mem_of_lookup hlookup, key_of_lookup hlookup, hstatus⟩, rfl, rfl⟩

end changes

section requests

variable {Key : Type} {aead : Aead Key} {s : Server aead} {ticks ts' : List Tick} {d d' : Database}
  {res : Response}

/-- A committed mutation under an idempotency key drew three ticks before its change: for its begin,
the claim's reading and the claim. -/
theorem idempotentMutation_ticks {α : Type} {cryptor : Cryptor aead} {r : AdminRequest}
    {request : Idempotency.Request}
    {secret : Bool} {change : Timestamp → Tx Domain Response α} {audit : α → AuditEntry}
    {body : α → Tx Domain Response Json} (hbody : ∀ a, Reads (body a))
    (h : idempotentMutation insertAdminAuditSuccess cryptor r request secret change audit body ticks
      d = .ok (res, ts', d')) :
    ∃ begun claimed claim ts a ts₁, ticks = begun :: claimed :: claim :: ts ∧
      change begun.clock ts d.domain = .ok (a, ts₁, d'.domain) := by
  obtain ⟨begun, ts₀, rfl, h₁⟩ := Tx.draw_bind_eq_ok.mp h
  obtain ⟨u, ts₁, records, hbegin, h₂⟩ := Tx.onPart_bind_eq_ok.mp h₁
  obtain ⟨a, ts₂, dom, hchange, h₃⟩ := Tx.onPart_bind_eq_ok.mp h₂
  obtain ⟨u, ts₃, ev, haudit, h₄⟩ := Tx.onPart_bind_eq_ok.mp h₃
  obtain ⟨b, ts₄, dom', hb, h₅⟩ := Tx.onPart_bind_eq_ok.mp h₄
  obtain ⟨-, -, rfl⟩ := (hbody a).ok hb
  obtain ⟨done, ts₅, records', -, h₆⟩ := Tx.onPart_bind_eq_ok.mp h₅
  obtain ⟨committed, rest, -, h₇⟩ := Tx.draw_bind_eq_ok.mp h₆
  cases Tx.pure_eq_ok.mp h₇
  obtain ⟨replay, ts₆, records₁, hclaim, hreplay⟩ := Tx.bind_eq_ok.mp hbegin
  cases replay with
  | some replay => cases hreplay
  | none =>
    cases Tx.pure_eq_ok.mp hreplay
    obtain ⟨-, h₈⟩ := Tx.require_bind_eq_ok.mp (Tx.mapErr_eq_ok.mp hclaim)
    obtain ⟨claimed, ts₇, rfl, h₉⟩ := Tx.draw_bind_eq_ok.mp h₈
    obtain ⟨claim, ts₈, affected, records₂, rfl, -, h₁₀⟩ := Tx.statement_bind_eq_ok.mp h₉
    split at h₁₀
    · cases Tx.pure_eq_ok.mp h₁₀
      exact ⟨begun, claimed, claim, _, a, ts₂, rfl, hchange⟩
    · obtain ⟨t, ts₉, row, -, -, h₁₁⟩ := Tx.query_bind_eq_ok.mp h₁₀
      obtain ⟨replay, -, h₁₂⟩ := Tx.ofExcept_bind_eq_ok.mp h₁₁
      cases Tx.pure_eq_ok.mp h₁₂

/-- What a committed request did to the clients, by the request; all that are not named leave them
alone. -/
def Request.ClientSpec (sha256 : Bytes → Bytes) (ticks : List Tick) (res : Response)
    (s s' : ClientTables) : Request → Prop
  | .createAPIClient _ _ => ∃ c token, TokenAnswer c token res ∧ Created sha256 ticks c token s s'
  | .updateAPIClient _ (some id) _ => Adjusted id s s'
  | .rotateAPIClient _ (some id) (.ok graceSeconds) => ∃ c token, TokenAnswer c token res ∧
      Rotated sha256 ticks id graceSeconds c token s s' ∧
      KeptPrevious id graceSeconds ticks[5]? s s'
  | .revokeAPIClient _ (some id) => Revoked id s s'
  | .deleteAPIClient _ (some id) => Removed id s s'
  | _ => s' = s

theorem rotateAPIClient_spec {r : AdminRequest} {id : UUID} {graceSeconds : Int32}
    (h : Httpapi.rotateAPIClient insertAdminAuditSuccess s r (some id) (.ok graceSeconds) ticks
      d = .ok (res, ts', d')) :
    ∃ c token, TokenAnswer c token res ∧ Rotated s.sha256 ticks id graceSeconds c token
      d.domain.clients d'.domain.clients ∧
      KeptPrevious id graceSeconds ticks[5]? d.domain.clients d'.domain.clients := by
  obtain ⟨c, token, hrotated, hanswer⟩ := rotateAPIClient_answer h
  refine ⟨c, token, hanswer, hrotated, ?_⟩
  obtain ⟨id, hid, h₁⟩ := Tx.ofExcept_bind_eq_ok.mp h
  obtain rfl := Except.ok.inj hid
  obtain ⟨graceSeconds, hgrace, h₂⟩ := Tx.ofExcept_bind_eq_ok.mp h₁
  obtain ⟨raw, hraw, hgrace⟩ := bind_eq_ok.mp hgrace
  obtain rfl := Except.ok.inj hraw
  simp only [checkGrace, ite_error_eq_ok] at hgrace
  obtain rfl := Except.ok.inj hgrace.2
  obtain ⟨request, -, h₃⟩ := Tx.ofExcept_bind_eq_ok.mp h₂
  obtain ⟨begun, claimed, claim, ts, ⟨c, token⟩, ts₁, rfl, hchange⟩ :=
    idempotentMutation_ticks (fun _ => reads_rotatedClient) h₃
  obtain ⟨tables, hc, hdomain⟩ := Tx.onPart_eq_ok.mp hchange
  rw [hdomain]
  exact Change.rotateAPIClient_kept hc

theorem Request.clientSpec {x : Request} (h : x.handler s ticks d = .ok (res, ts', d')) :
    x.ClientSpec s.sha256 ticks res d.domain.clients d'.domain.clients := by
  cases x with
  | createAPIClient r body =>
    obtain ⟨c, token, hcreated, hanswer, -⟩ := createAPIClient_answer h
    exact ⟨c, token, hanswer, hcreated⟩
  | updateAPIClient r id body =>
    obtain ⟨id, hid, h₁⟩ := Tx.ofExcept_bind_eq_ok.mp h
    obtain ⟨in_, -, h₂⟩ := Tx.ofExcept_bind_eq_ok.mp h₁
    obtain ⟨t, rest, -, h₃⟩ := Tx.draw_bind_eq_ok.mp h₂
    obtain ⟨in_, -, h₄⟩ := Tx.ofExcept_bind_eq_ok.mp h₃
    obtain ⟨now, pre, ts, ts₁, a, -, hchange⟩ :=
      (auditedMutation_ok (fun _ => Reads.pure _) h₄).clients
    cases parse_eq_ok.mp hid
    exact Change.updateAPIClient_ok hchange
  | rotateAPIClient r id body =>
    obtain ⟨id, hid, h₁⟩ := Tx.ofExcept_bind_eq_ok.mp h
    cases parse_eq_ok.mp hid
    cases body with
    | error res =>
      obtain ⟨graceSeconds, hgrace, -⟩ := Tx.ofExcept_bind_eq_ok.mp h₁
      cases hgrace
    | ok graceSeconds => exact rotateAPIClient_spec h
  | revokeAPIClient r id =>
    obtain ⟨id, hid, h₁⟩ := Tx.ofExcept_bind_eq_ok.mp h
    obtain ⟨now, pre, ts, ts₁, a, -, hchange⟩ :=
      (auditedMutation_ok (fun _ => reads_scopes) h₁).clients
    cases parse_eq_ok.mp hid
    exact Change.revokeAPIClient_ok hchange
  | deleteAPIClient r id =>
    obtain ⟨id, hid, h₁⟩ := Tx.ofExcept_bind_eq_ok.mp h
    obtain ⟨now, pre, ts, ts₁, a, -, hchange⟩ :=
      (auditedMutation_ok (fun _ => Reads.pure _) h₁).clients
    cases parse_eq_ok.mp hid
    exact Change.deleteAPIClient_removed hchange
  | consumerWriteValue slug resourceAlias fieldKey body =>
    obtain ⟨begun, in_, pre, ts, ts₁, f, c, -, -, -, rfl⟩ := handleConsumerWriteValue_ok h
    rfl
  | _ =>
    obtain ⟨α, r, change, audit, -, hcommits, -⟩ := Request.catalog_commits h trivial
    exact hcommits.clients_onCatalog

end requests

section steps

variable {Key : Type} {aead : Aead Key} {sha256 : Bytes → Bytes} {x : Served aead} {d : Database}
  {id : UUID} {keyHash : String} {s s' : ClientTables}

/-- What a request of a run does to the clients. -/
inductive Served.Changes (x : Served aead) (d : Database) (s s' : ClientTables) : Prop
  | same (h : s' = s)
  | created {c : ApiClient} {token : String} (hout : x.HandsOut d c token)
      (h : Created x.server.sha256 x.ticks c token s s')
  | adjusted {id : UUID} (h : Adjusted id s s')
  | rotated {id : UUID} {graceSeconds : Int32} {c : ApiClient} {token : String} (hx : x.Committed d)
      (hrotates : x.request.Rotates id graceSeconds) (hout : x.HandsOut d c token)
      (h : Rotated x.server.sha256 x.ticks id graceSeconds c token s s')
      (hkept : KeptPrevious id graceSeconds x.ticks[5]? s s')
  | revoked {id : UUID} (hx : x.Committed d) (hrevokes : x.request.Revokes id) (h : Revoked id s s')
  | removed {id : UUID} (h : Removed id s s')

theorem Served.changes (x : Served aead) (d : Database) :
    x.Changes d d.domain.clients (x.after d).domain.clients := by
  cases hx : (serve x.server x.request x.ticks d).committed with
  | false => exact .same (by rw [x.rolled_back hx])
  | true =>
    obtain ⟨res, ts', h⟩ := x.committed hx
    have hanswer : (serve x.server x.request x.ticks d).answer = res := by
      rw [serve, Program.transact, h]
    have hspec := Request.clientSpec h
    unfold Request.ClientSpec at hspec
    split at hspec
    next r body hrequest =>
      obtain ⟨c, token, hshown, hcreated⟩ := hspec
      exact .created ⟨by rw [hrequest]; trivial, hx, hanswer ▸ hshown⟩ hcreated
    · exact .adjusted hspec
    next r id graceSeconds hrequest =>
      obtain ⟨c, token, hshown, hrotated, hkept⟩ := hspec
      exact .rotated hx (by rw [hrequest]; exact ⟨rfl, rfl⟩) ⟨by rw [hrequest]; trivial, hx,
        hanswer ▸ hshown⟩ hrotated hkept
    next r id hrequest => exact .revoked hx (by rw [hrequest]; rfl) hspec
    · exact .removed hspec
    · exact .same hspec

theorem Served.revokes_spec (hx : x.Committed d) (hrevokes : x.request.Revokes id) :
    Revoked id d.domain.clients (x.after d).domain.clients := by
  obtain ⟨res, ts', h⟩ := x.committed hx
  have hspec := Request.clientSpec h
  unfold Request.Revokes at hrevokes
  split at hrevokes
  next r id' hrequest =>
    rw [hrequest] at hspec
    exact hrevokes ▸ hspec
  · cases hrevokes

theorem Served.rotates_spec {graceSeconds : Int32} (hx : x.Committed d)
    (hrotates : x.request.Rotates id graceSeconds) :
    ∃ c token, Rotated x.server.sha256 x.ticks id graceSeconds c token d.domain.clients
      (x.after d).domain.clients ∧
      KeptPrevious id graceSeconds x.ticks[5]? d.domain.clients (x.after d).domain.clients := by
  obtain ⟨res, ts', h⟩ := x.committed hx
  have hspec := Request.clientSpec h
  unfold Request.Rotates at hrotates
  split at hrotates
  next r id' graceSeconds' hrequest =>
    obtain ⟨rfl, rfl⟩ := hrotates
    rw [hrequest] at hspec
    obtain ⟨c, token, -, hrotated, hkept⟩ := hspec
    exact ⟨c, token, hrotated, hkept⟩
  · cases hrotates

/-- A request is not both. -/
theorem Request.Rotates.not_revokes {x : Request} {graceSeconds : Int32} {id' : UUID}
    (h : x.Rotates id graceSeconds) : ¬x.Revokes id' := by
  intro hrevokes
  unfold Request.Rotates at h
  split at h
  · cases hrevokes
  · cases h

/-- A request names one grace. -/
theorem Request.Rotates.grace_eq {x : Request} {g g' : Int32} (h : x.Rotates id g)
    (h' : x.Rotates id g') : g = g' := by
  unfold Request.Rotates at h h'
  split at h
  · exact h.2.symm.trans h'.2
  · cases h

end steps

section stages

variable {sha256 : Bytes → Bytes} {s s' : ClientTables} {id : UUID} {keyHash token : String}
  {t : Tick} {bound : Timestamp}

/-- No row has the hash. -/
def Forgotten (keyHash : String) (s : ClientTables) : Prop := Hashes (fun _ h => h ≠ keyHash) s

/-- The hash is that of the client's token, and of no superseded one. -/
structure InForce (id : UUID) (keyHash : String) (s : ClientTables) : Prop where
  owned : Owned id keyHash s
  current : Current id keyHash s
  previous : ∀ p ∈ s.previousTokens, p.keyHash ≠ keyHash

/-- The hash is that of a superseded token of the client alone, whose grace ends at a time. -/
structure Waning (id : UUID) (keyHash : String) (bound : Timestamp) (s : ClientTables) : Prop where
  owned : Owned id keyHash s
  current : ∀ c ∈ s.clients, c.keyHash ≠ keyHash
  previous : ∃ p ∈ s.previousTokens, p.keyHash = keyHash
  bound : ∀ p ∈ s.previousTokens, p.keyHash = keyHash → p.validUntil = bound

/-- The hash is one of a client that is revoked. -/
structure Barred (id : UUID) (keyHash : String) (s : ClientTables) : Prop where
  hashes : Hashes (fun id' keyHash' => keyHash' = keyHash → id' = id) s
  row : ∃ c ∈ s.clients, c.id = id ∧ c.status = .revoked

/-- A token is accepted only where its hash is found with its client, which is active. -/
theorem Authenticates.found (h : Authenticates sha256 token t s) :
    ∃ c ∈ s.clients, c.status = .active ∧
    (c.keyHash = hashAPIKey sha256 token ∨
      GraceToken s c.id (hashAPIKey sha256 token) t.clock) := by
  obtain ⟨p, hp⟩ := h
  unfold requireAPIKey at hp
  split at hp
  · cases hp
  split at hp
  · cases hp
  next client scopes hlookup =>
    split at hp
    · cases hp
    next hactive =>
      unfold getAPIClientAuthByHash at hlookup
      split at hlookup
      · cases hlookup
      next c hfound =>
        obtain ⟨rfl, -⟩ := Prod.mk.inj (Except.ok.inj hlookup)
        have hmatch := List.find?_some hfound
        simp only [Bool.or_eq_true, decide_eq_true_eq] at hmatch
        exact ⟨c, List.mem_of_find?_eq_some hfound, not_not.mp fun hne =>
          hactive (.inl hne), hmatch⟩

theorem Forgotten.not_authenticates (h : Forgotten (hashAPIKey sha256 token) s) :
    ¬Authenticates sha256 token t s := by
  intro hauth
  obtain ⟨c, hc, -, hhash | ⟨p, hp, -, hhash, -⟩⟩ := hauth.found
  · exact h.clients c hc hhash
  · exact h.previous p hp hhash

theorem Barred.not_authenticates (h : Barred id (hashAPIKey sha256 token) s) :
    ¬Authenticates sha256 token t s := by
  intro hauth
  obtain ⟨c, hc, hactive, hheld⟩ := hauth.found
  have hid : c.id = id := by
    rcases hheld with hhash | ⟨p, hp, hclient, hhash, -⟩
    · exact h.hashes.clients c hc hhash
    · exact hclient ▸ h.hashes.previous p hp hhash
  obtain ⟨r, hr, hrid, hrevoked⟩ := h.row
  rw [← h.hashes.ids.eq_of_key hc hr (hid.trans hrid.symm), hactive] at hrevoked
  cases hrevoked

theorem InForce.authenticates_iff (h : InForce id (hashAPIKey sha256 token) s) (hne : token ≠ "") :
    Authenticates sha256 token t s ↔ Unexpired id t.clock s :=
  h.owned.authenticates hne (.inl h.current)

theorem Waning.authenticates_iff (h : Waning id (hashAPIKey sha256 token) bound s)
    (hne : token ≠ "") :
    Authenticates sha256 token t s ↔ t.clock < bound ∧ Unexpired id t.clock s := by
  by_cases hlt : t.clock < bound
  · obtain ⟨p, hp, hhash⟩ := h.previous
    have hgraced : Graced id (hashAPIKey sha256 token) t.clock s :=
      ⟨p, hp, h.owned.hashes.previous p hp hhash, hhash, h.bound p hp hhash ▸ hlt⟩
    rw [h.owned.authenticates hne (.inr hgraced), and_iff_right hlt]
  · refine iff_of_false (fun hauth => ?_) fun hand => hlt hand.1
    obtain ⟨c, hc, -, hhash | ⟨p, hp, -, hhash, hvalid⟩⟩ := hauth.found
    · exact h.current c hc hhash
    · exact hlt (h.bound p hp hhash ▸ hvalid)

end stages

section stagesteps

variable {Key : Type} {aead : Aead Key} {sha256 : Bytes → Bytes} {x : Served aead}
  {xs : List (Served aead)} {d : Database} {id : UUID} {keyHash token : String} {bound : Timestamp}
  {graceSeconds : Int32}

/-- A hash that no row has comes in only with a token that is handed out. -/
theorem Served.gone (hservers : x.server.sha256 = sha256) (hsha : Function.Injective sha256)
    (hnone : ∀ c, ¬x.HandsOut d c token)
    (h : Forgotten (hashAPIKey sha256 token) d.domain.clients) :
    Forgotten (hashAPIKey sha256 token) (x.after d).domain.clients := by
  have hnew : ∀ c token', x.HandsOut d c token' → hashAPIKey x.server.sha256 token' ≠
      hashAPIKey sha256 token := by
    intro c token' hout he
    rw [hservers] at he
    exact hnone c (hashAPIKey_injective hsha he ▸ hout)
  cases x.changes d with
  | same hsame => exact hsame ▸ h
  | created hout hcreated =>
    refine ⟨?_, ?_, ?_⟩
    · rw [hcreated.clients]
      exact h.ids.append hcreated.fresh
    · rw [hcreated.clients, List.forall_mem_append]
      exact ⟨h.clients, List.forall_mem_singleton.mpr (hcreated.keyHash ▸ hnew _ _ hout)⟩
    · rw [hcreated.previous]
      exact h.previous
  | adjusted hadjusted =>
    exact (show ClientEffect sha256 [] x.request _ _ from .adjusted hadjusted).hashes h nofun
  | rotated hx hrotates hout hrotated hkept =>
    obtain ⟨set, hclients, -, hset⟩ := hrotated.clients
    obtain ⟨current, hcurrent, -, ps, hprevious, hps, -⟩ := hrotated.previous
    refine ⟨?_, ?_, ?_⟩
    · rw [hclients]
      exact h.ids.update fun y => (hset y).1
    · rw [hclients]
      exact forall_mem_update h.clients fun y _ _ => (hset y).2.1 ▸ hnew _ _ hout
    · rw [hprevious, List.forall_mem_append]
      exact ⟨h.previous, fun p hp => (hps p hp).2 ▸ h.clients current hcurrent⟩
  | revoked hx hrevokes hrevoked =>
    exact (show ClientEffect sha256 [] x.request _ _ from .revoked hrevokes hrevoked).hashes h nofun
  | removed hremoved =>
    refine ⟨?_, ?_, ?_⟩
    · rw [hremoved.clients]
      exact h.ids.delete
    · rw [hremoved.clients]
      exact fun y hy => h.clients y (mem_delete.mp hy).1
    · rw [hremoved.previous]
      exact fun p hp => h.previous p (mem_delete.mp hp).1

/-- Requests that do not draw a token leave it to whom it was. -/
theorem Served.hashes {P : UUID → String → Prop} (hundrawn : Undrawn sha256 keyHash (x :: xs))
    (hP : ∀ id h, h ≠ keyHash → P id h) (h : Hashes P d.domain.clients) :
    Hashes P (x.after d).domain.clients := by
  have heffect := hundrawn.servers x (.head _) ▸ x.effect d
  exact heffect.hashes h fun id t ht => hP id _ (hundrawn.hashes x (.head _) t ht)

/-- A client that is revoked stays so, and its hash goes with it. -/
theorem Served.barred (hundrawn : Undrawn sha256 keyHash (x :: xs))
    (h : Barred id keyHash d.domain.clients) :
    Barred id keyHash (x.after d).domain.clients ∨
    Forgotten keyHash (x.after d).domain.clients := by
  have hhashes := Served.hashes hundrawn (fun _ _ hne he => absurd he hne) h.hashes
  obtain ⟨r, hr, hid, hrevoked⟩ := h.row
  cases x.changes d with
  | same hsame => exact .inl ⟨hhashes, hsame ▸ h.row⟩
  | created hout hcreated =>
    exact .inl ⟨hhashes, r, hcreated.clients ▸ List.mem_append_left _ hr, hid, hrevoked⟩
  | adjusted hadjusted =>
    obtain ⟨-, set, hclients, hset⟩ := hadjusted
    exact .inl ⟨hhashes, hclients ▸ exists_mem_update_of ⟨r, hr, hid, hrevoked⟩ fun y _ hy _ =>
      ⟨(hset y).1.trans hy.1, (hset y).2.2.trans hy.2⟩⟩
  | rotated hx hrotates hout hrotated hkept =>
    obtain ⟨set, hclients, -, hset⟩ := hrotated.clients
    exact .inl ⟨hhashes, hclients ▸ exists_mem_update_of ⟨r, hr, hid, hrevoked⟩ fun y _ hy _ =>
      ⟨(hset y).1.trans hy.1, (hset y).2.2.1.trans hy.2⟩⟩
  | revoked hx hrevokes hdone =>
    obtain ⟨-, set, hclients, hset⟩ := hdone
    exact .inl ⟨hhashes, hclients ▸ exists_mem_update_of ⟨r, hr, hid, hrevoked⟩ fun y _ hy _ =>
      ⟨(hset y).1.trans hy.1, (hset y).2.2⟩⟩
  | @removed id' hremoved =>
    by_cases hne : id' = id
    · refine .inr ⟨hhashes.ids, fun y hy he => ?_, fun p hp he => ?_⟩
      · have hyid := hhashes.clients y hy he
        rw [hremoved.clients] at hy
        obtain ⟨hy, hkept⟩ := mem_delete.mp hy
        rw [h.hashes.ids.eq_of_key hy hr (hyid.trans hid.symm), hid, hrevoked, hne] at hkept
        simp at hkept
      · have hpid := hhashes.previous p hp he
        rw [hremoved.previous] at hp
        obtain ⟨-, hkept⟩ := mem_delete.mp hp
        simp [hpid, hne] at hkept
    · refine .inl ⟨hhashes, r, ?_, hid, hrevoked⟩
      rw [hremoved.clients]
      refine mem_delete.mpr ⟨hr, ?_⟩
      simp [hid, Ne.symm hne]

/-- A revocation bars every token of the client. -/
theorem Served.barred_of_revokes (hundrawn : Undrawn sha256 keyHash (x :: xs)) (hx : x.Committed d)
    (hrevokes : x.request.Revokes id) (h : Owned id keyHash d.domain.clients) :
    Barred id keyHash (x.after d).domain.clients := by
  refine ⟨Served.hashes hundrawn (fun _ _ hne he => absurd he hne) h.hashes, ?_⟩
  obtain ⟨-, set, hclients, hset⟩ := Served.revokes_spec hx hrevokes
  obtain ⟨r, hr, hid, -⟩ := h.row
  refine ⟨set r, hclients ▸ mem_update.mpr ⟨r, hr, by simp [hid]⟩,
    (hset r).1.trans hid, (hset r).2.2⟩

/-- The hash of no superseded token stays one, while its client is not rotated. -/
theorem Served.inForce (hundrawn : Undrawn sha256 keyHash (x :: xs))
    (hrevokes : ¬(x.Committed d ∧ x.request.Revokes id))
    (hrotates : ∀ graceSeconds, ¬(x.Committed d ∧ x.request.Rotates id graceSeconds))
    (h : InForce id keyHash d.domain.clients) : InForce id keyHash (x.after d).domain.clients := by
  refine ⟨Served.owned hundrawn hrevokes h.owned, Served.current hrotates h.owned h.current, ?_⟩
  cases x.changes d with
  | same hsame => exact hsame ▸ h.previous
  | created hout hcreated => exact hcreated.previous ▸ h.previous
  | adjusted hadjusted => exact hadjusted.1 ▸ h.previous
  | @rotated id' g c token hx hr hout hrotated hkept =>
    cases hkept with
    | dropped hnone hsame => exact hsame ▸ h.previous
    | kept hgrace hcurrent hid hread hclient hhash huntil hprevious =>
      rw [hprevious, List.forall_mem_append]
      refine ⟨h.previous, List.forall_mem_singleton.mpr fun he => ?_⟩
      -- the superseded token would be that of the client itself
      have hne := h.owned.hashes.clients _ hcurrent (hhash.symm.trans he)
      exact hrotates g ⟨hx, hne.symm.trans hid ▸ hr⟩
  | revoked hx hr hrevoked => exact hrevoked.1 ▸ h.previous
  | removed hremoved =>
    rw [hremoved.previous]
    exact fun p hp => h.previous p (mem_delete.mp hp).1

/-- A token in its grace stays there, until the same end, whatever comes but a revocation. -/
theorem Served.waning (hundrawn : Undrawn sha256 keyHash (x :: xs))
    (hrevokes : ¬(x.Committed d ∧ x.request.Revokes id))
    (h : Waning id keyHash bound d.domain.clients) :
    Waning id keyHash bound (x.after d).domain.clients := by
  have howned := Served.owned hundrawn hrevokes h.owned
  have hdrawn : ∀ token, (∃ t ∈ x.ticks, token = generateAPIToken t.random) →
      hashAPIKey x.server.sha256 token ≠ keyHash := by
    rintro token ⟨t, ht, rfl⟩
    rw [hundrawn.servers x (.head _)]
    exact hundrawn.hashes x (.head _) t ht
  cases x.changes d with
  | same hsame =>
    rw [hsame]
    exact h
  | created hout hcreated =>
    refine ⟨howned, ?_, hcreated.previous ▸ h.previous, hcreated.previous ▸ h.bound⟩
    rw [hcreated.clients, List.forall_mem_append]
    exact ⟨h.current, List.forall_mem_singleton.mpr (hcreated.keyHash ▸ hdrawn _ hcreated.drawn)⟩
  | adjusted hadjusted =>
    obtain ⟨hprevious, set, hclients, hset⟩ := hadjusted
    refine ⟨howned, ?_, hprevious ▸ h.previous, hprevious ▸ h.bound⟩
    rw [hclients]
    exact forall_mem_update h.current fun y hy _ => (hset y).2.1 ▸ h.current y hy
  | rotated hx hr hout hrotated hkept =>
    obtain ⟨set, hclients, -, hset⟩ := hrotated.clients
    have hcurrent : ∀ c ∈ (x.after d).domain.clients.clients, c.keyHash ≠ keyHash := by
      rw [hclients]
      exact forall_mem_update h.current fun y _ _ => (hset y).2.1 ▸ hdrawn _ hrotated.drawn
    cases hkept with
    | dropped hnone hsame => exact ⟨howned, hcurrent, hsame ▸ h.previous, hsame ▸ h.bound⟩
    | kept hgrace hmem hid hread hclient hhash huntil hprevious =>
      obtain ⟨p, hp, hheld⟩ := h.previous
      refine ⟨howned, hcurrent, ⟨p, hprevious ▸ List.mem_append_left _ hp, hheld⟩, ?_⟩
      rw [hprevious, List.forall_mem_append]
      exact ⟨h.bound, List.forall_mem_singleton.mpr fun he =>
        absurd (hhash.symm.trans he) (h.current _ hmem)⟩
  | revoked hx hr hrevoked =>
    obtain ⟨hprevious, set, hclients, hset⟩ := hrevoked
    refine ⟨howned, ?_, hprevious ▸ h.previous, hprevious ▸ h.bound⟩
    rw [hclients]
    exact forall_mem_update h.current fun y hy _ => (hset y).2.1 ▸ h.current y hy
  | @removed id' hremoved =>
    have hne : id ≠ id' := by
      rintro rfl
      obtain ⟨r, hr, hid, hrevoked⟩ := hremoved.revoked
      rw [h.owned.unique hr hid] at hrevoked
      cases hrevoked
    obtain ⟨p, hp, hheld⟩ := h.previous
    refine ⟨howned, ?_, ⟨p, ?_, hheld⟩, ?_⟩
    · rw [hremoved.clients]
      exact fun y hy => h.current y (mem_delete.mp hy).1
    · rw [hremoved.previous]
      refine mem_delete.mpr ⟨hp, ?_⟩
      simp [h.owned.hashes.previous p hp hheld, hne]
    · rw [hremoved.previous]
      exact fun q hq => h.bound q (mem_delete.mp hq).1

/-- A rotation of the client ends its token, or leaves it a grace from the reading on. -/
theorem Served.rotated (hundrawn : Undrawn sha256 keyHash (x :: xs)) (hx : x.Committed d)
    (hrotates : x.request.Rotates id graceSeconds) (h : InForce id keyHash d.domain.clients) :
    (graceSeconds ≤ 0 ∧ Forgotten keyHash (x.after d).domain.clients) ∨
    (0 < graceSeconds ∧ ∃ read, x.ticks[5]? = some read ∧
      Waning id keyHash (read.clock + Timestamp.seconds graceSeconds.toInt)
      (x.after d).domain.clients) := by
  have howned := Served.owned hundrawn (fun hr => hrotates.not_revokes hr.2) h.owned
  obtain ⟨c, token, hrotated, hkept⟩ := Served.rotates_spec hx hrotates
  obtain ⟨set, hclients, -, hset⟩ := hrotated.clients
  obtain ⟨t, ht, rfl⟩ := hrotated.drawn
  have hcurrent : ∀ c ∈ (x.after d).domain.clients.clients, c.keyHash ≠ keyHash := by
    intro y hy he
    have hyid := howned.hashes.clients y hy he
    rw [hclients] at hy
    obtain ⟨r, hr, rfl⟩ := mem_update.mp hy
    split at he
    · rw [(hset r).2.1, hundrawn.servers x (.head _)] at he
      exact hundrawn.hashes x (.head _) t ht he
    next hother =>
      rw [if_neg hother] at hyid
      simp [hyid, h.owned.unique hr hyid] at hother
  cases hkept with
  | dropped hnone hsame => exact .inl ⟨hnone, howned.hashes.ids, hcurrent, hsame ▸ h.previous⟩
  | kept hgrace hmem hid hread hclient hhash huntil hprevious =>
    obtain ⟨r, hr, hrid, hrhash⟩ := h.current
    rw [h.owned.hashes.ids.eq_of_key hmem hr (hid.trans hrid.symm), hrhash] at hhash
    refine .inr ⟨hgrace, _, hread, howned, hcurrent,
      ⟨_, hprevious ▸ List.mem_append_right _ (.head _), hhash⟩, ?_⟩
    rw [hprevious, List.forall_mem_append]
    exact ⟨fun p hp he => absurd he (h.previous p hp),
      List.forall_mem_singleton.mpr fun _ => huntil⟩

end stagesteps

section history

variable {Key : Type} {aead : Aead Key} {sha256 : Bytes → Bytes} {xs : List (Served aead)}
  {d e : Database} {id : UUID} {token : String} {bound : Timestamp} {t : Tick}

/-- The first rotation of the client along the run, where there is one, leaves a grace that lasts
beyond a time; it counts from the sixth reading of the request. -/
def Remains (id : UUID) (t : Timestamp) : List (Served aead) → Database → Prop
  | [], _ => True
  | x :: xs, d =>
    (∀ graceSeconds, x.Committed d → x.request.Rotates id graceSeconds → 0 < graceSeconds ∧
      ∃ read, x.ticks[5]? = some read ∧ t < read.clock + Timestamp.seconds graceSeconds.toInt) ∧
    ((∀ graceSeconds, ¬(x.Committed d ∧ x.request.Rotates id graceSeconds)) →
      Remains id t xs (x.after d))

theorem barred_run (id : UUID) (hrun : Runs.Run Served.Step d xs e)
    (hundrawn : Undrawn sha256 (hashAPIKey sha256 token) xs)
    (h : Barred id (hashAPIKey sha256 token) d.domain.clients ∨
      Forgotten (hashAPIKey sha256 token) d.domain.clients) :
    ¬Authenticates sha256 token t e.domain.clients := by
  induction xs generalizing d with
  | nil =>
    obtain rfl := Runs.run_nil_iff.mp hrun
    exact h.elim Barred.not_authenticates Forgotten.not_authenticates
  | cons x xs ih =>
    obtain ⟨u, rfl, hrun⟩ := Runs.run_cons_iff.mp hrun
    refine ih hrun hundrawn.tail ?_
    rcases h with hbarred | hgone
    · exact Served.barred hundrawn hbarred
    · exact .inr (Served.hashes hundrawn (fun _ _ hne => hne) hgone)

/-- A token in its grace is accepted until it ends, the client ends or is revoked. -/
theorem waning_run (hne : token ≠ "") (hrun : Runs.Run Served.Step d xs e)
    (hundrawn : Undrawn sha256 (hashAPIKey sha256 token) xs)
    (h : Waning id (hashAPIKey sha256 token) bound d.domain.clients) :
    Authenticates sha256 token t e.domain.clients ↔
      Unrevoked id xs d ∧ t.clock < bound ∧ Unexpired id t.clock e.domain.clients := by
  induction xs generalizing d with
  | nil =>
    obtain rfl := Runs.run_nil_iff.mp hrun
    rw [h.authenticates_iff hne, Unrevoked, true_and]
  | cons x xs ih =>
    obtain ⟨u, rfl, hrun⟩ := Runs.run_cons_iff.mp hrun
    by_cases hrevokes : x.Committed d ∧ x.request.Revokes id
    · have hbarred := Served.barred_of_revokes hundrawn hrevokes.1 hrevokes.2 h.owned
      exact iff_of_false (barred_run id hrun hundrawn.tail (.inl hbarred))
        fun hand => hand.1.1 hrevokes
    · rw [ih hrun hundrawn.tail (Served.waning hundrawn hrevokes h), Unrevoked,
        and_iff_right hrevokes]

/-- A token in force is accepted until the client ends or is revoked, or a rotation's grace is
over. -/
theorem inForce_run (hne : token ≠ "") (hrun : Runs.Run Served.Step d xs e)
    (hundrawn : Undrawn sha256 (hashAPIKey sha256 token) xs)
    (h : InForce id (hashAPIKey sha256 token) d.domain.clients) :
    Authenticates sha256 token t e.domain.clients ↔
      Unrevoked id xs d ∧ Remains id t.clock xs d ∧ Unexpired id t.clock e.domain.clients := by
  induction xs generalizing d with
  | nil =>
    obtain rfl := Runs.run_nil_iff.mp hrun
    rw [h.authenticates_iff hne, Unrevoked, Remains, true_and, true_and]
  | cons x xs ih =>
    obtain ⟨u, rfl, hrun⟩ := Runs.run_cons_iff.mp hrun
    rw [Unrevoked, Remains]
    by_cases hrevokes : x.Committed d ∧ x.request.Revokes id
    · have hbarred := Served.barred_of_revokes hundrawn hrevokes.1 hrevokes.2 h.owned
      exact iff_of_false (barred_run id hrun hundrawn.tail (.inl hbarred))
        fun hand => hand.1.1 hrevokes
    by_cases hrotates : ∃ graceSeconds, x.Committed d ∧ x.request.Rotates id graceSeconds
    · obtain ⟨graceSeconds, hx, hrotates⟩ := hrotates
      obtain ⟨hnone, hgone⟩ | ⟨hgrace, read, hread, hwaning⟩ :=
        Served.rotated hundrawn hx hrotates h
      · refine iff_of_false (barred_run id hrun hundrawn.tail (.inr hgone)) fun hand => ?_
        exact absurd (hand.2.1.1 graceSeconds hx hrotates).1 (Int32.not_lt.mpr hnone)
      · rw [waning_run hne hrun hundrawn.tail hwaning, and_iff_right hrevokes]
        constructor
        · rintro ⟨hunrevoked, hlt, hunexpired⟩
          refine ⟨hunrevoked,
            ⟨fun g _ hg => ?_, fun hnone => absurd ⟨hx, hrotates⟩ (hnone graceSeconds)⟩, hunexpired⟩
          rw [hg.grace_eq hrotates]
          exact ⟨hgrace, read, hread, hlt⟩
        · rintro ⟨hunrevoked, hremains, hunexpired⟩
          obtain ⟨-, read', hread', hlt⟩ := hremains.1 graceSeconds hx hrotates
          obtain rfl := Option.some.inj (hread.symm.trans hread')
          exact ⟨hunrevoked, hlt, hunexpired⟩
    · have hnone := not_exists.mp hrotates
      have hinForce := Served.inForce hundrawn hrevokes hnone h
      rw [ih hrun hundrawn.tail hinForce, and_iff_right hrevokes]
      refine and_congr_right fun _ => and_congr_left fun _ =>
        ⟨fun hremains => ⟨fun g hx hg => ?_, fun _ => hremains⟩, ?_⟩
      · exact absurd ⟨hx, hg⟩ (hnone g)
      · exact fun hremains => hremains.2 hnone

/-- The hash of a token that no request of the run hands out does not come in. -/
theorem forgotten_run (hsha : Function.Injective sha256) (hrun : Runs.Run Served.Step d xs e)
    (hservers : ∀ x ∈ xs, x.server.sha256 = sha256)
    (hnone : ∀ ys x zs u c, xs = ys ++ x :: zs → Runs.Run Served.Step d ys u →
      ¬x.HandsOut u c token)
    (h : Forgotten (hashAPIKey sha256 token) d.domain.clients) :
    Forgotten (hashAPIKey sha256 token) e.domain.clients := by
  induction xs generalizing d with
  | nil =>
    obtain rfl := Runs.run_nil_iff.mp hrun
    exact h
  | cons x xs ih =>
    obtain ⟨u, rfl, hrun⟩ := Runs.run_cons_iff.mp hrun
    refine ih hrun (fun y hy => hservers y (.tail _ hy)) (fun ys y zs v c hxs hys => ?_) ?_
    · exact hnone (x :: ys) y zs v c (by rw [hxs, List.cons_append]) (.cons rfl hys)
    · exact Served.gone (hservers x (.head _)) hsha (fun c => hnone [] x xs d c rfl (.nil d)) h

/-- Where all tokens of a run are drawn once, those of a request are not drawn by those after it. -/
theorem nodup_runTokens {ys zs : List (Served aead)} {x : Served aead}
    (h : (runTokens (ys ++ x :: zs)).Nodup) :
    (runTokens (ys ++ [x])).Nodup ∧ ∀ t ∈ x.ticks, generateAPIToken t.random ∉ runTokens zs := by
  rw [List.append_cons, runTokens_append, List.nodup_append'] at h
  refine ⟨h.1, fun t ht hzs => h.2.2 (mem_runTokens.mpr ⟨x, ?_, t, ht, rfl⟩) hzs⟩
  exact List.mem_append_right _ (.head _)

/-- A token that is handed out is in force. -/
theorem Served.HandsOut.inForce {x : Served aead} {c : ApiClient} (h : x.HandsOut d c token)
    (hserver : x.server.sha256 = sha256)
    (hfresh : ∀ t ∈ x.ticks,
      Forgotten (hashAPIKey sha256 (generateAPIToken t.random)) d.domain.clients) :
    (∃ t ∈ x.ticks, token = generateAPIToken t.random) ∧ InForce c.id (hashAPIKey sha256 token)
    (x.after d).domain.clients := by
  obtain ⟨c', token', h', hdone⟩ := x.handsOut h.asks h.committed
  obtain ⟨hid, rfl⟩ := h'.answer.unique h.answer
  rcases hdone with ⟨hcreated, -, -⟩ | ⟨id, graceSeconds, hrotated, -⟩
  · rw [hserver] at hcreated
    obtain ⟨read, hread, htoken⟩ := hcreated.drawn
    have hgone := htoken ▸ hfresh read hread
    obtain ⟨howned, hcurrent⟩ := hcreated.owned hgone
    rw [← hid]
    exact ⟨⟨read, hread, htoken⟩, howned, hcurrent, hcreated.previous ▸ hgone.previous⟩
  · rw [hserver] at hrotated
    obtain ⟨read, hread, htoken⟩ := hrotated.drawn
    have hgone := htoken ▸ hfresh read hread
    obtain ⟨hcid, howned, hcurrent⟩ := hrotated.owned hgone
    obtain ⟨current, hmem, -, ps, hprevious, hps, -⟩ := hrotated.previous
    rw [← hid, hcid]
    refine ⟨⟨read, hread, htoken⟩, howned, hcurrent, ?_⟩
    rw [hprevious, List.forall_mem_append]
    exact ⟨hgone.previous, fun p hp => (hps p hp).2 ▸ hgone.clients current hmem⟩

/-- In every run, the tokens accepted at its end are those that a creation or a rotation of the run
has handed out, while their client has not ended and has not been revoked since, and the first
rotation since, where there is one, left a grace that is not over. -/
theorem token_accepted_iff (hsha : Function.Injective sha256) (hrun : Runs.Run Served.Step {} xs e)
    (hservers : ∀ x ∈ xs, x.server.sha256 = sha256) (hfresh : (runTokens xs).Nodup) :
    Authenticates sha256 token t e.domain.clients ↔ ∃ ys x zs d, ∃ c :
    ApiClient, xs = ys ++ x :: zs ∧
      Runs.Run Served.Step {} ys d ∧ x.HandsOut d c token ∧ Unrevoked c.id zs (x.after d) ∧
      Remains c.id t.clock zs (x.after d) ∧ Unexpired c.id t.clock e.domain.clients := by
  -- what follows a request that hands the token out decides whether it is accepted
  have hafter : ∀ ys x zs d, ∀ c : ApiClient, xs = ys ++ x :: zs → Runs.Run Served.Step {} ys d →
    x.HandsOut d c token →
      (Authenticates sha256 token t e.domain.clients ↔ Unrevoked c.id zs (x.after d) ∧
        Remains c.id t.clock zs (x.after d) ∧ Unexpired c.id t.clock e.domain.clients) := by
    rintro ys x zs d c rfl hys hout
    obtain ⟨hbefore, hlater⟩ := nodup_runTokens hfresh
    rw [List.append_cons, List.forall_mem_append] at hservers
    have hgone := hashes_of_fresh hsha hys hservers.1 hbefore
    obtain ⟨⟨read, hread, rfl⟩, hinForce⟩ :=
      hout.inForce (hservers.1 x (List.mem_append_right _ (.head _))) hgone
    obtain ⟨u, hu, hrest⟩ := Runs.run_append_iff.mp hrun
    obtain rfl := hu.functional (fun _ _ _ _ h h' => h.trans h'.symm) hys
    obtain ⟨v, rfl, hrest⟩ := Runs.run_cons_iff.mp hrest
    exact inForce_run (generateAPIToken_ne_empty _) hrest
      (undrawn_of_notMem hsha hservers.2 (hlater read hread)) hinForce
  constructor
  · intro hauth
    by_contra hnone
    refine Forgotten.not_authenticates
      (forgotten_run hsha hrun hservers (fun ys x zs d c hxs hys hout =>
      ?_) ⟨.nil, nofun, nofun⟩) hauth
    exact hnone ⟨ys, x, zs, d, c, hxs, hys, hout, (hafter ys x zs d c hxs hys hout).mp hauth⟩
  · rintro ⟨ys, x, zs, d, c, hxs, hys, hout, hand⟩
    exact (hafter ys x zs d c hxs hys hout).mpr hand

/-- A reading at five. -/
def sampleReading : Tick := ⟨5, fun _ => 1, fun _ => 0, .plain⟩

/-- A client is created and rotated at five: the token of the rotation is accepted then. -/
theorem token_accepted_iff_rotated :
    ∃ (c : ApiClient) (token : String), (sampleRotation 5).HandsOut sampleCreated c token ∧
    Authenticates tokenHash token sampleReading
      ((sampleRotation 5).after sampleCreated).domain.clients := by
  obtain ⟨hx, -, hfresh, -, -⟩ := sampleRotation_runs
  obtain ⟨c, token, hout, -⟩ := (sampleRotation 5).handsOut trivial hx
  have hstored :=
    hashes_of_fresh tokenHash_injective sampleCreated_run (sampleRotation_servers 5) hfresh
  have hserver : (sampleRotation 5).server.sha256 = tokenHash := rfl
  obtain ⟨-, -, -, hunexpired⟩ := hout.spec hserver hstored sampleRotation_clock
  refine ⟨c, token, hout,
    (token_accepted_iff tokenHash_injective (sampleCreated_run.snoc rfl)
    (sampleRotation_servers 5) hfresh).mpr ?_⟩
  refine ⟨[sampleCreation], _, [], _, c, rfl, sampleCreated_run, hout, trivial, trivial, ?_⟩
  exact hunexpired.mpr (sampleCreated_unexpired.mpr (by decide))

end history

end Tenancit.Httpapi
