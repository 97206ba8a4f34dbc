import Tenancit.Httpapi.Statements
import Tenancit.Store.ClientSpec

/-!
What a committed request did to the clients and their tokens: one case for each of the
handlers of `httpapi/api_client_lifecycle.go` and for the creation of a client. All other
requests leave the clients alone.
-/
namespace Tenancit.Httpapi

open Encoding Crypto Store Service Queries Table
open Program

section changes

variable {sha256 : Bytes → Bytes} {ts ts' ticks : List Tick} {s s' : ClientTables} {now : Timestamp}
  {id : UUID} {c : ApiClient} {token : String} {graceSeconds : Int32}

/-- A client has been created with a token that one of the ticks made up. -/
structure Created (sha256 : Bytes → Bytes) (ticks : List Tick) (c : ApiClient) (token : String)
    (s s' : ClientTables) : Prop where
  drawn : ∃ t ∈ ticks, token = generateAPIToken t.random
  keyHash : c.keyHash = hashAPIKey sha256 token
  active : c.status = .active
  fresh : ∀ x ∈ s.clients, x.id ≠ c.id
  clients : s'.clients = s.clients ++ [c]
  previous : s'.previousTokens = s.previousTokens

/-- The rows of a client have been changed where it is active, but not in what a token is
checked against apart from its end. -/
def Adjusted (id : UUID) (s s' : ClientTables) : Prop :=
  s'.previousTokens = s.previousTokens ∧ ∃ set : ApiClient → ApiClient,
    s'.clients = update (fun x => x.id = id && x.status = .active) set s.clients ∧
      ∀ x, (set x).id = x.id ∧ (set x).keyHash = x.keyHash ∧ (set x).status = x.status

/-- The token of an active client has been replaced, and the old one kept for a grace. -/
structure Rotated (sha256 : Bytes → Bytes) (ticks : List Tick) (id : UUID) (graceSeconds : Int32)
    (c : ApiClient) (token : String) (s s' : ClientTables) : Prop where
  drawn : ∃ t ∈ ticks, token = generateAPIToken t.random
  clients : ∃ set : ApiClient → ApiClient,
    s'.clients = update (fun x => x.id = id && x.status = .active) set s.clients ∧
      (∃ x ∈ s.clients, x.id = id ∧ x.status = .active ∧ c = set x) ∧
        ∀ x, (set x).id = x.id ∧ (set x).keyHash = hashAPIKey sha256 token ∧
          (set x).status = x.status ∧
          (set x).expiresAt = x.expiresAt
  previous : ∃ current ∈ s.clients, current.id = id ∧ ∃ ps, s'.previousTokens =
    s.previousTokens ++ ps ∧
    (∀ p ∈ ps, p.apiClientId = id ∧ p.keyHash = current.keyHash) ∧
      (0 < graceSeconds → ∃ p ∈ ps, ∃ t ∈ ticks, p.validUntil = t.clock +
        Timestamp.seconds graceSeconds.toInt)

def Revoked (id : UUID) (s s' : ClientTables) : Prop :=
  s'.previousTokens = s.previousTokens ∧ ∃ set : ApiClient → ApiClient,
    s'.clients = update (fun x => x.id = id) set s.clients ∧
      ∀ x, (set x).id = x.id ∧ (set x).keyHash = x.keyHash ∧ (set x).status = .revoked

/-- Rows of a revoked client have been deleted. -/
structure Deleted (id : UUID) (s s' : ClientTables) : Prop where
  revoked : ∃ x ∈ s.clients, x.id = id ∧ x.status = .revoked
  clients : s'.clients.Sublist s.clients
  others : ∀ x ∈ s.clients, x.id ≠ id → x ∈ s'.clients
  previous : s'.previousTokens.Sublist s.previousTokens
  previousOthers : ∀ p ∈ s.previousTokens, p.apiClientId ≠ id → p ∈ s'.previousTokens

theorem Change.createAPIClient_ok {in_ : ApiClientPolicyInput}
    (h : Change.createAPIClient sha256 in_ now ts s = .ok ((c, token), ts', s')) :
    Created sha256 ts c token s s' ∧ c.expiresAt = in_.expiresAt := by
  obtain ⟨t, rest, rfl, h₁⟩ := Tx.draw_bind_eq_ok.mp h
  obtain ⟨t₁, ts₁, row, s₁, -, hcreate, h₂⟩ := Tx.statement_bind_eq_ok.mp h₁
  obtain ⟨t₂, ts₂, u, s₂, -, hscopes, h₃⟩ := Tx.statement_bind_eq_ok.mp h₂
  cases Tx.pure_eq_ok.mp h₃
  obtain ⟨hhash, hstatus, hexpires, hfree, hclients, hprevious⟩ :=
    Queries.createAPIClient_ok hcreate
  obtain ⟨hclients', hprevious'⟩ := replaceAPIClientScopes_ok hscopes
  exact ⟨⟨⟨t, .head _, rfl⟩, hhash, hstatus, hfree, hclients'.trans hclients,
    hprevious'.trans hprevious⟩, hexpires⟩

theorem Change.updateAPIClient_ok {in_ : ApiClientPolicyInput} {x : ApiClient × ApiClient}
    (h : Change.updateAPIClient id in_ ts s = .ok (x, ts', s')) : Adjusted id s s' := by
  obtain ⟨t, ts₁, previous, -, -, h₁⟩ := Tx.query_bind_eq_ok.mp h
  obtain ⟨read, ts₂, -, h₂⟩ := Tx.draw_bind_eq_ok.mp h₁
  obtain ⟨-, h₃⟩ := Tx.require_bind_eq_ok.mp h₂
  obtain ⟨t₂, ts₃, updated, s₁, -, hupdate, h₄⟩ := Tx.statement_bind_eq_ok.mp h₃
  obtain ⟨t₃, ts₄, u, s₂, -, hscopes, h₅⟩ := Tx.statement_bind_eq_ok.mp h₄
  cases Tx.pure_eq_ok.mp h₅
  simp only [updateAPIClientPolicy, ite_error_eq_ok] at hupdate
  obtain ⟨-, rfl⟩ := changeClient_ok hupdate.2.2
  obtain ⟨hclients, hprevious⟩ := replaceAPIClientScopes_ok hscopes
  exact ⟨hprevious, _, hclients, fun _ => ⟨rfl, rfl, rfl⟩⟩

/-- Where a grace is given, the superseded token is kept until a reading and the grace. -/
theorem Change.savePrevious_ok {keyHash : String} {u : Unit}
    (h : Change.savePrevious now id keyHash graceSeconds ts s = .ok (u, ts', s')) :
    s'.clients = s.clients ∧ ∃ ps, s'.previousTokens = s.previousTokens ++ ps ∧
      (∀ p ∈ ps, p.apiClientId = id ∧ p.keyHash = keyHash) ∧
        (0 < graceSeconds → ∃ p ∈ ps, ∃ t ∈ ts, p.validUntil = t.clock +
          Timestamp.seconds graceSeconds.toInt) := by
  unfold Change.savePrevious at h
  split at h
  · obtain ⟨read, ts₁, rfl, h₁⟩ := Tx.draw_bind_eq_ok.mp h
    obtain ⟨t, -, hsave⟩ := Tx.statement_eq_ok.mp (Tx.mapErr_eq_ok.mp h₁)
    obtain ⟨hclients, p, hid, hhash, hvalid, hprevious⟩ := savePreviousAPIClientToken_ok hsave
    refine ⟨hclients, [p], hprevious, fun q hq => ?_, fun _ => ⟨p, .head _, read, .head _, hvalid⟩⟩
    obtain rfl := List.mem_singleton.mp hq
    exact ⟨hid, hhash⟩
  next hgrace =>
    cases Tx.pure_eq_ok.mp h
    exact ⟨rfl, [], (List.append_nil _).symm, nofun, fun h => absurd h hgrace⟩

theorem Change.rotateAPIClient_ok
    (h : Change.rotateAPIClient sha256 id graceSeconds now ts s = .ok ((c, token), ts', s')) :
    Rotated sha256 ts id graceSeconds c token s s' := by
  obtain ⟨t, ts₁, rfl, h₁⟩ := Tx.draw_bind_eq_ok.mp h
  obtain ⟨t₁, ts₂, current, rfl, hcurrent, h₂⟩ := Tx.query_bind_eq_ok.mp h₁
  obtain ⟨-, h₃⟩ := Tx.require_bind_eq_ok.mp h₂
  obtain ⟨u, ts₃, s₁, hsave, h₄⟩ := Tx.bind_eq_ok.mp h₃
  obtain ⟨t₂, ts₄, rotated, s₂, -, hrotate, h₅⟩ := Tx.statement_bind_eq_ok.mp h₄
  cases Tx.pure_eq_ok.mp h₅
  simp only [rotateAPIClientToken, ite_error_eq_ok] at hrotate
  obtain ⟨⟨x, hx, hid, hactive, hc⟩, rfl⟩ := changeClient_ok hrotate.2
  obtain ⟨hclients, ps, hprevious, hps, hvalid⟩ := Change.savePrevious_ok hsave
  have hlookup := one_eq_ok.mp hcurrent
  rw [hclients] at hx
  refine ⟨⟨t, .head _, rfl⟩,
    ⟨_, congrArg (update _ _) hclients, ⟨x, hx, hid, of_decide_eq_true hactive, hc⟩,
    fun _ => ⟨rfl, rfl, rfl, rfl⟩⟩, ?_⟩
  refine ⟨current, mem_of_lookup hlookup, key_of_lookup hlookup, ps, hprevious,
    hps, fun hgrace => ?_⟩
  obtain ⟨p, hp, read, hread, hv⟩ := hvalid hgrace
  exact ⟨p, hp, read, .tail _ (.tail _ hread), hv⟩

theorem Change.revokeAPIClient_ok {x : ApiClient × ApiClient}
    (h : Change.revokeAPIClient id ts s = .ok (x, ts', s')) : Revoked id s s' := by
  obtain ⟨t, ts₁, current, -, -, h₁⟩ := Tx.query_bind_eq_ok.mp h
  obtain ⟨t₁, ts₂, revoked, s₁, -, hrevoke, h₂⟩ := Tx.statement_bind_eq_ok.mp h₁
  cases Tx.pure_eq_ok.mp h₂
  obtain ⟨-, rfl⟩ := changeClient_ok hrevoke
  simp only [Bool.and_true]
  exact ⟨rfl, _, rfl, fun _ => ⟨rfl, rfl, rfl⟩⟩

theorem Change.deleteAPIClient_ok {x : ApiClient}
    (h : Change.deleteAPIClient id ts s = .ok (x, ts', s')) : Deleted id s s' := by
  obtain ⟨t, ts₁, current, -, hcurrent, h₁⟩ := Tx.query_bind_eq_ok.mp h
  obtain ⟨hstatus, h₂⟩ := Tx.require_bind_eq_ok.mp h₁
  obtain ⟨t₁, ts₂, n, s₁, -, hdelete, h₃⟩ := Tx.statement_bind_eq_ok.mp h₂
  obtain ⟨-, h₄⟩ := Tx.require_bind_eq_ok.mp h₃
  cases Tx.pure_eq_ok.mp h₄
  obtain ⟨hclients, hothers, hprevious, hpreviousOthers⟩ := Queries.deleteAPIClient_ok hdelete
  have hlookup := one_eq_ok.mp hcurrent
  exact ⟨⟨_, mem_of_lookup hlookup, key_of_lookup hlookup, hstatus⟩, hclients, hothers,
    hprevious, hpreviousOthers⟩

end changes

section requests

/-- A policy is accepted only with an end that lies ahead. -/
theorem checkPolicy_unexpired {now : Timestamp} {raw in_ : ApiClientPolicyInput}
    (h : checkPolicy now raw = .ok in_) : now < in_.expiresAt := by
  simp only [checkPolicy, validateAPIClientPolicy] at h
  split at h
  · cases h
  split at h
  · cases h
  next hvalid =>
    obtain rfl := Except.ok.inj h
    simp only [ite_error_eq_ok] at hvalid
    exact not_le.mp (not_or.mp hvalid.2.2.2.1).1

variable {α : Type} {r : AdminRequest} {audit : α → Option AuditEntry} {ticks ts' : List Tick}
  {d d' : Database} {res : Response}

theorem Commits.clients_onCatalog {change : Timestamp → Tx Catalog Response α}
    (h : Commits r (fun now => onCatalog (change now)) audit ticks d d') :
    d'.domain.clients = d.domain.clients := by
  obtain ⟨begun, pre, a, ts, ts₁, ts₂, -, -, hchange, -⟩ := h
  obtain ⟨c, -, hdomain⟩ := Tx.onPart_eq_ok.mp hchange
  rw [hdomain]

theorem Commits.clients {change : Timestamp → Tx ClientTables Response α}
    (h : Commits r (fun now => onClients (change now)) audit ticks d d') :
    ∃ now pre ts ts' a, ticks = pre ++ ts ∧ change now ts d.domain.clients =
      .ok (a, ts', d'.domain.clients) := by
  obtain ⟨begun, pre, a, ts, ts₁, ts₂, -, hticks, hchange, -⟩ := h
  obtain ⟨c, hc, hdomain⟩ := Tx.onPart_eq_ok.mp hchange
  exact ⟨begun.clock, pre, ts, ts₁, a, hticks, by rw [hc, hdomain]⟩

theorem Created.mono {sha256 : Bytes → Bytes} {ts : List Tick} {c : ApiClient} {token : String}
    {s s' : ClientTables} (h : Created sha256 ts c token s s') (hticks : ∀ t ∈ ts, t ∈ ticks) :
    Created sha256 ticks c token s s' := by
  obtain ⟨t, ht, htoken⟩ := h.drawn
  exact { h with drawn := ⟨t, hticks t ht, htoken⟩ }

theorem Rotated.mono {sha256 : Bytes → Bytes} {ts : List Tick} {id : UUID} {graceSeconds : Int32}
    {c : ApiClient} {token : String} {s s' : ClientTables}
    (h : Rotated sha256 ts id graceSeconds c token s s') (hticks : ∀ t ∈ ts, t ∈ ticks) :
    Rotated sha256 ticks id graceSeconds c token s s' := by
  obtain ⟨t, ht, htoken⟩ := h.drawn
  obtain ⟨current, hcurrent, hid, ps, hprevious, hps, hvalid⟩ := h.previous
  refine ⟨⟨t, hticks t ht, htoken⟩, h.clients, current, hcurrent, hid, ps, hprevious,
    hps, fun hgrace => ?_⟩
  obtain ⟨p, hp, read, hread, hv⟩ := hvalid hgrace
  exact ⟨p, hp, read, hticks read hread, hv⟩

variable {Key : Type} {aead : Aead Key} {s : Server aead}

/-- A committed mutation under an idempotency key answers with what it read of its change. -/
theorem idempotentMutation_answer {cryptor : Cryptor aead}
    {request : Idempotency.Request} {secret : Bool}
    {change : Timestamp → Tx Domain Response α} {audit : α → AuditEntry}
    {body : α → Tx Domain Response Json} (hbody : ∀ a, Reads (body a))
    (h : idempotentMutation insertAdminAuditSuccess cryptor r request secret change audit body ticks
      d = .ok (res, ts', d')) :
    ∃ now pre ts a ts₁ ts₂ ts₃ b, ticks = pre ++ ts ∧ change now ts d.domain =
      .ok (a, ts₁, d'.domain) ∧
      body a ts₂ d'.domain = .ok (b, ts₃, d'.domain) ∧
      res = writeIdempotentResponse 201 b.marshal secret := by
  obtain ⟨begun, ts₀, rfl, h₁⟩ := Tx.draw_bind_eq_ok.mp h
  obtain ⟨replayed, ts₁, records, hbegin, h₂⟩ := Tx.onPart_bind_eq_ok.mp h₁
  obtain ⟨pre, rfl, -⟩ := draws_beginAdminIdempotency.ok hbegin
  obtain ⟨a, ts₂, dom, hchange, h₃⟩ := Tx.onPart_bind_eq_ok.mp h₂
  obtain ⟨u, ts₃, ev, haudit, h₄⟩ := Tx.onPart_bind_eq_ok.mp h₃
  obtain ⟨b, ts₄, dom', hb, h₅⟩ := Tx.onPart_bind_eq_ok.mp h₄
  obtain ⟨-, -, rfl⟩ := (hbody a).ok hb
  obtain ⟨done, ts₅, records', -, h₆⟩ := Tx.onPart_bind_eq_ok.mp h₅
  obtain ⟨committed, rest, -, h₇⟩ := Tx.draw_bind_eq_ok.mp h₆
  cases Tx.pure_eq_ok.mp h₇
  exact ⟨begun.clock, begun :: pre, ts₁, a, ts₂, ts₃, ts₄, b, rfl, hchange, hb, rfl⟩

/-- The answer that carries a token. -/
def TokenAnswer (c : ApiClient) (token : String) (res : Response) : Prop :=
  ∃ scopes now, res =
    writeIdempotentResponse 201 (createAPIClientResponse c scopes now token).marshal true

theorem createAPIClient_answer {body : Except Response ApiClientPolicyInput}
    (h : Httpapi.createAPIClient insertAdminAuditSuccess s r body ticks d = .ok (res, ts', d')) :
    ∃ c token, Created s.sha256 ticks c token d.domain.clients d'.domain.clients ∧
      TokenAnswer c token res ∧ ∃ t ∈ ticks, t.clock < c.expiresAt := by
  obtain ⟨in_, -, h₁⟩ := Tx.ofExcept_bind_eq_ok.mp h
  obtain ⟨t, rest, rfl, h₂⟩ := Tx.draw_bind_eq_ok.mp h₁
  obtain ⟨in_, hpolicy, h₃⟩ := Tx.ofExcept_bind_eq_ok.mp h₂
  obtain ⟨request, -, h₄⟩ := Tx.ofExcept_bind_eq_ok.mp h₃
  obtain ⟨now, pre, ts, ⟨c, token⟩, ts₁, ts₂, ts₃, b, rfl, hchange, hbody, rfl⟩ :=
    idempotentMutation_answer (fun _ => reads_newClient) h₄
  obtain ⟨tables, hc, hdomain⟩ := Tx.onPart_eq_ok.mp hchange
  obtain ⟨hcreated, hexpires⟩ := Change.createAPIClient_ok hc
  obtain ⟨read, ts₄, -, hview⟩ := Tx.draw_bind_eq_ok.mp hbody
  cases Tx.pure_eq_ok.mp hview
  rw [hdomain]
  refine ⟨c, token, hcreated.mono fun t ht => ?_, ⟨_, _, rfl⟩, t, .head _, ?_⟩
  · exact .tail _ (List.mem_append_right _ ht)
  · rw [hexpires]
    exact checkPolicy_unexpired hpolicy

theorem rotateAPIClient_answer {id : UUID} {graceSeconds : Int32}
    (h : Httpapi.rotateAPIClient insertAdminAuditSuccess s r (some id) (.ok graceSeconds) ticks
      d = .ok (res, ts', d')) :
    ∃ c token, Rotated s.sha256 ticks id graceSeconds c token d.domain.clients d'.domain.clients ∧
      TokenAnswer c token res := by
  obtain ⟨id, hid, h₁⟩ := Tx.ofExcept_bind_eq_ok.mp h
  obtain rfl := Except.ok.inj hid
  obtain ⟨graceSeconds, hgrace, h₂⟩ := Tx.ofExcept_bind_eq_ok.mp h₁
  obtain ⟨raw, hraw, hgrace⟩ := bind_eq_ok.mp hgrace
  obtain rfl := Except.ok.inj hraw
  simp only [checkGrace, ite_error_eq_ok] at hgrace
  obtain rfl := Except.ok.inj hgrace.2
  obtain ⟨request, -, h₃⟩ := Tx.ofExcept_bind_eq_ok.mp h₂
  obtain ⟨now, pre, ts, ⟨c, token⟩, ts₁, ts₂, ts₃, b, rfl, hchange, hbody, rfl⟩ :=
    idempotentMutation_answer (fun _ => reads_rotatedClient) h₃
  obtain ⟨tables, hc, hdomain⟩ := Tx.onPart_eq_ok.mp hchange
  obtain ⟨scopes, ts₄, dom, hscopes, hview⟩ := Tx.bind_eq_ok.mp hbody
  obtain ⟨read, ts₅, -, hview⟩ := Tx.draw_bind_eq_ok.mp hview
  cases Tx.pure_eq_ok.mp hview
  rw [hdomain]
  exact ⟨c, token, (Change.rotateAPIClient_ok hc).mono fun t ht =>
    List.mem_append_right _ ht, _, _, rfl⟩

/-- The request asks for a rotation of the client, with a grace. -/
def Request.Rotates (id : UUID) (graceSeconds : Int32) : Request → Prop
  | .rotateAPIClient _ (some id') (.ok graceSeconds') => id' = id ∧ graceSeconds' = graceSeconds
  | _ => False

/-- The request asks for the revocation of the client. -/
def Request.Revokes (id : UUID) : Request → Prop
  | .revokeAPIClient _ (some id') => id' = id
  | _ => False

/-- What a committed request did to the clients. -/
inductive ClientEffect (sha256 : Bytes → Bytes) (ticks : List Tick) (x : Request)
    (s s' : ClientTables) : Prop
  | same (h : s' = s)
  | created {c : ApiClient} {token : String} (h : Created sha256 ticks c token s s')
  | adjusted {id : UUID} (h : Adjusted id s s')
  | rotated {id : UUID} {graceSeconds : Int32} {c : ApiClient} {token : String}
      (hx : x.Rotates id graceSeconds)
      (h : Rotated sha256 ticks id graceSeconds c token s s')
  | revoked {id : UUID} (hx : x.Revokes id) (h : Revoked id s s')
  | deleted {id : UUID} (h : Deleted id s s')

theorem Request.clientEffect {x : Request} (h : x.handler s ticks d = .ok (res, ts', d')) :
    ClientEffect s.sha256 ticks x d.domain.clients d'.domain.clients := by
  cases x with
  | createTenant r body =>
    obtain ⟨b, -, h₁⟩ := Tx.ofExcept_bind_eq_ok.mp h
    obtain ⟨request, -, h₂⟩ := Tx.ofExcept_bind_eq_ok.mp h₁
    exact .same (idempotentMutation_ok (fun _ => Reads.pure _) h₂).clients_onCatalog
  | updateTenant r id body =>
    obtain ⟨id, -, h₁⟩ := Tx.ofExcept_bind_eq_ok.mp h
    obtain ⟨b, -, h₂⟩ := Tx.ofExcept_bind_eq_ok.mp h₁
    exact .same (auditedMutation_ok (fun _ => Reads.pure _) h₂).clients_onCatalog
  | deleteTenant r id =>
    obtain ⟨id, -, h₁⟩ := Tx.ofExcept_bind_eq_ok.mp h
    exact .same (auditedMutation_ok (fun _ => Reads.pure _) h₁).clients_onCatalog
  | addDomain r id body =>
    obtain ⟨id, -, h₁⟩ := Tx.ofExcept_bind_eq_ok.mp h
    obtain ⟨hostname, -, h₂⟩ := Tx.ofExcept_bind_eq_ok.mp h₁
    exact .same (auditedMutation_ok (fun _ => Reads.pure _) h₂).clients_onCatalog
  | updateDomain r id domainId body =>
    obtain ⟨id, -, h₁⟩ := Tx.ofExcept_bind_eq_ok.mp h
    obtain ⟨domainId, -, h₂⟩ := Tx.ofExcept_bind_eq_ok.mp h₁
    obtain ⟨hostname, -, h₃⟩ := Tx.ofExcept_bind_eq_ok.mp h₂
    exact .same (auditedMutation_ok (fun _ => Reads.pure _) h₃).clients_onCatalog
  | deleteDomain r id domainId =>
    obtain ⟨id, -, h₁⟩ := Tx.ofExcept_bind_eq_ok.mp h
    obtain ⟨domainId, -, h₂⟩ := Tx.ofExcept_bind_eq_ok.mp h₁
    exact .same (auditedMutation_ok (fun _ => Reads.pure _) h₂).clients_onCatalog
  | createResource r id body =>
    obtain ⟨id, -, h₁⟩ := Tx.ofExcept_bind_eq_ok.mp h
    obtain ⟨b, -, h₂⟩ := Tx.ofExcept_bind_eq_ok.mp h₁
    obtain ⟨request, -, h₃⟩ := Tx.ofExcept_bind_eq_ok.mp h₂
    exact .same (idempotentMutation_ok (fun _ => Reads.pure _) h₃).clients_onCatalog
  | updateResourceIdentity r id resourceId body =>
    obtain ⟨id, -, h₁⟩ := Tx.ofExcept_bind_eq_ok.mp h
    obtain ⟨resourceId, -, h₂⟩ := Tx.ofExcept_bind_eq_ok.mp h₁
    obtain ⟨b, -, h₃⟩ := Tx.ofExcept_bind_eq_ok.mp h₂
    exact .same (auditedMutation_ok (fun _ => Reads.pure _) h₃).clients_onCatalog
  | duplicateResource r id resourceId body =>
    obtain ⟨id, -, h₁⟩ := Tx.ofExcept_bind_eq_ok.mp h
    obtain ⟨resourceId, -, h₂⟩ := Tx.ofExcept_bind_eq_ok.mp h₁
    obtain ⟨resourceAlias, -, h₃⟩ := Tx.ofExcept_bind_eq_ok.mp h₂
    obtain ⟨request, -, h₄⟩ := Tx.ofExcept_bind_eq_ok.mp h₃
    exact .same (idempotentMutation_ok (fun _ => Reads.pure _) h₄).clients_onCatalog
  | setResourceStatus r id resourceId body =>
    obtain ⟨id, -, h₁⟩ := Tx.ofExcept_bind_eq_ok.mp h
    obtain ⟨resourceId, -, h₂⟩ := Tx.ofExcept_bind_eq_ok.mp h₁
    obtain ⟨status, -, h₃⟩ := Tx.ofExcept_bind_eq_ok.mp h₂
    exact .same (auditedMutation_ok (fun _ => Reads.pure _) h₃).clients_onCatalog
  | updateResourceField r id resourceId fieldKey body =>
    obtain ⟨id, -, h₁⟩ := Tx.ofExcept_bind_eq_ok.mp h
    obtain ⟨resourceId, -, h₂⟩ := Tx.ofExcept_bind_eq_ok.mp h₁
    obtain ⟨fieldKey, -, h₃⟩ := Tx.ofExcept_bind_eq_ok.mp h₂
    obtain ⟨value, -, h₄⟩ := Tx.ofExcept_bind_eq_ok.mp h₃
    exact .same (auditedMutation_ok (fun _ => Reads.pure _) h₄).clients_onCatalog
  | clearResourceFieldOverride r id resourceId fieldKey =>
    obtain ⟨id, -, h₁⟩ := Tx.ofExcept_bind_eq_ok.mp h
    obtain ⟨resourceId, -, h₂⟩ := Tx.ofExcept_bind_eq_ok.mp h₁
    exact .same (auditedMutation_ok (fun _ => Reads.pure _) h₂).clients_onCatalog
  | deleteResource r id resourceId =>
    obtain ⟨id, -, h₁⟩ := Tx.ofExcept_bind_eq_ok.mp h
    obtain ⟨resourceId, -, h₂⟩ := Tx.ofExcept_bind_eq_ok.mp h₁
    exact .same (auditedMutation_ok (fun _ => Reads.pure _) h₂).clients_onCatalog
  | createDefinition r body =>
    obtain ⟨b, -, h₁⟩ := Tx.ofExcept_bind_eq_ok.mp h
    exact .same (auditedMutation_ok (fun _ => Reads.pure _) h₁).clients_onCatalog
  | updateDefinition r id body =>
    obtain ⟨id, -, h₁⟩ := Tx.ofExcept_bind_eq_ok.mp h
    obtain ⟨b, -, h₂⟩ := Tx.ofExcept_bind_eq_ok.mp h₁
    exact .same (auditedMutation_ok (fun _ => Reads.pure _) h₂).clients_onCatalog
  | setDefinitionStatus r id body =>
    obtain ⟨id, -, h₁⟩ := Tx.ofExcept_bind_eq_ok.mp h
    obtain ⟨b, -, h₂⟩ := Tx.ofExcept_bind_eq_ok.mp h₁
    exact .same (auditedMutation_ok (fun _ => Reads.pure _) h₂).clients_onCatalog
  | deleteDefinition r id =>
    obtain ⟨id, -, h₁⟩ := Tx.ofExcept_bind_eq_ok.mp h
    exact .same (auditedMutation_ok (fun _ => Reads.pure _) h₁).clients_onCatalog
  | addField r id body =>
    obtain ⟨id, -, h₁⟩ := Tx.ofExcept_bind_eq_ok.mp h
    obtain ⟨arg, -, h₂⟩ := Tx.ofExcept_bind_eq_ok.mp h₁
    exact .same (auditedMutation_ok (fun _ => Reads.pure _) h₂).clients_onCatalog
  | updateField r id fieldId body =>
    obtain ⟨id, -, h₁⟩ := Tx.ofExcept_bind_eq_ok.mp h
    obtain ⟨fieldId, -, h₂⟩ := Tx.ofExcept_bind_eq_ok.mp h₁
    obtain ⟨b, -, h₃⟩ := Tx.ofExcept_bind_eq_ok.mp h₂
    exact .same (auditedMutation_ok (fun _ => Reads.pure _) h₃).clients_onCatalog
  | deleteField r id fieldId =>
    obtain ⟨id, -, h₁⟩ := Tx.ofExcept_bind_eq_ok.mp h
    obtain ⟨fieldId, -, h₂⟩ := Tx.ofExcept_bind_eq_ok.mp h₁
    exact .same (auditedMutation_ok (fun _ => Reads.pure _) h₂).clients_onCatalog
  | createAPIClient r body =>
    obtain ⟨c, token, hcreated, -⟩ := createAPIClient_answer h
    exact .created hcreated
  | updateAPIClient r id body =>
    obtain ⟨id, hid, h₁⟩ := Tx.ofExcept_bind_eq_ok.mp h
    obtain ⟨in_, -, h₂⟩ := Tx.ofExcept_bind_eq_ok.mp h₁
    obtain ⟨t, rest, -, h₃⟩ := Tx.draw_bind_eq_ok.mp h₂
    obtain ⟨in_, -, h₄⟩ := Tx.ofExcept_bind_eq_ok.mp h₃
    obtain ⟨now, pre, ts, ts₁, a, -, hchange⟩ :=
      (auditedMutation_ok (fun _ => Reads.pure _) h₄).clients
    cases parse_eq_ok.mp hid
    exact .adjusted (Change.updateAPIClient_ok hchange)
  | rotateAPIClient r id body =>
    obtain ⟨id, hid, h₁⟩ := Tx.ofExcept_bind_eq_ok.mp h
    cases parse_eq_ok.mp hid
    cases body with
    | error res =>
      obtain ⟨graceSeconds, hgrace, -⟩ := Tx.ofExcept_bind_eq_ok.mp h₁
      cases hgrace
    | ok graceSeconds =>
      obtain ⟨c, token, hrotated, -⟩ := rotateAPIClient_answer h
      exact .rotated ⟨rfl, rfl⟩ hrotated
  | revokeAPIClient r id =>
    obtain ⟨id, hid, h₁⟩ := Tx.ofExcept_bind_eq_ok.mp h
    obtain ⟨now, pre, ts, ts₁, a, -, hchange⟩ :=
      (auditedMutation_ok (fun _ => reads_scopes) h₁).clients
    cases parse_eq_ok.mp hid
    exact .revoked rfl (Change.revokeAPIClient_ok hchange)
  | deleteAPIClient r id =>
    obtain ⟨id, hid, h₁⟩ := Tx.ofExcept_bind_eq_ok.mp h
    obtain ⟨now, pre, ts, ts₁, a, -, hchange⟩ :=
      (auditedMutation_ok (fun _ => Reads.pure _) h₁).clients
    cases parse_eq_ok.mp hid
    exact .deleted (Change.deleteAPIClient_ok hchange)
  | consumerWriteValue slug resourceAlias fieldKey body =>
    obtain ⟨begun, in_, pre, ts, ts₁, f, c, -, -, -, rfl⟩ := handleConsumerWriteValue_ok h
    exact .same rfl

end requests

end Tenancit.Httpapi
