import Tenancit.Httpapi.ClientChanges
import Tenancit.Httpapi.ResolveTag
import Tenancit.Lib.Runs

/-!
The life of an API token: `RequireAPIKey` of `httpapi/auth.go`, and for how long the token
that a creation or a rotation has handed out is accepted, over all requests that follow.
-/
namespace Tenancit.Httpapi

open Encoding Crypto Store Service Queries Table

/-- `apiClientPrincipal` -/
structure ApiClientPrincipal where
  id : UUID
  name : String
  scopes : List String
  rpmLimit : Int32

/-- `RequireAPIKey`, with an empty text for a request without a bearer token: `now` is the
reading of the application's clock, `t` the tick of the lookup. -/
def requireAPIKey (sha256 : Bytes → Bytes) (bearer : String) (now : Timestamp) (t : Tick)
    (s : ClientTables) : Except Response ApiClientPrincipal :=
  if bearer = "" then .error (writeError 401 "invalid_api_key")
  else match getAPIClientAuthByHash (hashAPIKey sha256 bearer) t s with
    | .error _ => .error (writeError 401 "invalid_api_key")
    | .ok (client, scopes) =>
      if client.status ≠ .active ∨ ¬now < client.expiresAt
        then .error (writeError 401 "invalid_api_key")
      else .ok ⟨client.id, client.name, scopes, client.rpmLimit⟩

/-- The token is accepted at a reading of both clocks. -/
def Authenticates (sha256 : Bytes → Bytes) (token : String) (t : Tick) (s : ClientTables) : Prop :=
  ∃ p, requireAPIKey sha256 token t.clock t s = .ok p

variable {sha256 : Bytes → Bytes} {s s' : ClientTables} {id : UUID} {keyHash token : String}
  {t : Tick} {ticks : List Tick} {x : Request}

/-- Every hash in the tables has a property, together with the client it is kept for. -/
structure Hashes (P : UUID → String → Prop) (s : ClientTables) : Prop where
  ids : Keyed ApiClient.id s.clients
  clients : ∀ c ∈ s.clients, P c.id c.keyHash
  previous : ∀ p ∈ s.previousTokens, P p.apiClientId p.keyHash

/-- What a hash stands for is the active client alone. -/
structure Owned (id : UUID) (keyHash : String) (s : ClientTables) : Prop where
  hashes : Hashes (fun id' keyHash' => keyHash' = keyHash → id' = id) s
  row : ∃ c ∈ s.clients, c.id = id ∧ c.status = .active

/-- The hash is that of the client's token. -/
def Current (id : UUID) (keyHash : String) (s : ClientTables) : Prop :=
  ∃ c ∈ s.clients, c.id = id ∧ c.keyHash = keyHash

/-- The hash is that of a superseded token of the client, whose grace lasts beyond a time. -/
def Graced (id : UUID) (keyHash : String) (t : Timestamp) (s : ClientTables) : Prop :=
  ∃ p ∈ s.previousTokens, p.apiClientId = id ∧ p.keyHash = keyHash ∧ t < p.validUntil

def Unexpired (id : UUID) (t : Timestamp) (s : ClientTables) : Prop :=
  ∃ c ∈ s.clients, c.id = id ∧ t < c.expiresAt

section owned

theorem Owned.unique (h : Owned id keyHash s) {c : ApiClient}
    (hc : c ∈ s.clients) (hid : c.id = id) : c.status = .active := by
  obtain ⟨r, hr, hrid, hactive⟩ := h.row
  rwa [h.hashes.ids.eq_of_key hc hr (hid.trans hrid.symm)]

/-- A client whose row is active is not one that is deleted. -/
theorem Owned.deleted_ne (h : Owned id keyHash s) {id' : UUID} (hd : Deleted id' s s') :
    id ≠ id' := by
  rintro rfl
  obtain ⟨r, hr, hid, hrevoked⟩ := hd.revoked
  rw [h.unique hr hid] at hrevoked
  cases hrevoked

theorem generateAPIToken_ne_empty (random : Nat → UInt8) : generateAPIToken random ≠ "" := by
  intro h
  have hlength := congrArg String.length h
  simp [generateAPIToken] at hlength

/-- The lookup finds the client as long as the token is current or in its grace. -/
theorem Owned.lookup (h : Owned id keyHash s)
    (hheld : Current id keyHash s ∨ Graced id keyHash t.clock s) :
    ∃ c ∈ s.clients, c.id = id ∧ getAPIClientAuthByHash keyHash t s = .ok (c, scopesOf s c.id) := by
  obtain ⟨c, hc, hmatch⟩ : ∃ c ∈ s.clients,
      (c.keyHash = keyHash || GraceToken s c.id keyHash t.clock) = true := by
    rcases hheld with ⟨c, hc, -, hhash⟩ | ⟨p, hp, hid, hhash, hvalid⟩
    · exact ⟨c, hc, by simp [hhash]⟩
    · obtain ⟨c, hc, hcid, -⟩ := h.row
      have hgrace : GraceToken s c.id keyHash t.clock := ⟨p, hp, hid.trans hcid.symm, hhash, hvalid⟩
      exact ⟨c, hc, by simp [hgrace]⟩
  have hsome : (s.clients.find? fun c => c.keyHash = keyHash ||
      GraceToken s c.id keyHash t.clock).isSome = true :=
    List.find?_isSome.mpr ⟨c, hc, hmatch⟩
  obtain ⟨r, hr⟩ := Option.isSome_iff_exists.mp hsome
  have hmem := List.mem_of_find?_eq_some hr
  refine ⟨r, hmem, ?_, by rw [getAPIClientAuthByHash, hr]⟩
  have hfound : (r.keyHash = keyHash || GraceToken s r.id keyHash t.clock) = true :=
    List.find?_some (p := fun c : ApiClient => c.keyHash = keyHash ||
      GraceToken s c.id keyHash t.clock) hr
  rcases Bool.or_eq_true_iff.mp hfound with hhash | hgrace
  · exact h.hashes.clients r hmem (of_decide_eq_true hhash)
  · obtain ⟨p, hp, hid, hhash, -⟩ := of_decide_eq_true hgrace
    exact hid.symm.trans (h.hashes.previous p hp hhash)

theorem Owned.authenticates (h : Owned id (hashAPIKey sha256 token) s) (hne : token ≠ "")
    (hheld : Current id (hashAPIKey sha256 token) s ∨
      Graced id (hashAPIKey sha256 token) t.clock s) :
    Authenticates sha256 token t s ↔ Unexpired id t.clock s := by
  obtain ⟨c, hc, hid, hlookup⟩ := h.lookup hheld
  have hactive := h.unique hc hid
  rw [Authenticates, requireAPIKey, if_neg hne, hlookup]
  by_cases hexpires : t.clock < c.expiresAt
  · refine iff_of_true ⟨_, if_neg ?_⟩ ⟨c, hc, hid, hexpires⟩
    simp [hactive, hexpires]
  · refine iff_of_false ?_ ?_
    · simp [hexpires]
    · rintro ⟨r, hr, hrid, hlt⟩
      rw [h.hashes.ids.eq_of_key hr hc (hrid.trans hid.symm)] at hlt
      exact hexpires hlt

end owned

section steps

/-- Requests keep what is known of the hashes and holds of those they draw. -/
theorem ClientEffect.hashes {P : UUID → String → Prop} (h : ClientEffect sha256 ticks x s s')
    (hs : Hashes P s)
    (hdrawn : ∀ id, ∀ t ∈ ticks, P id (hashAPIKey sha256 (generateAPIToken t.random))) :
    Hashes P s' := by
  cases h with
  | same h => exact h ▸ hs
  | created h =>
    obtain ⟨t, ht, htoken⟩ := h.drawn
    refine ⟨?_, ?_, ?_⟩
    · rw [h.clients]
      exact hs.ids.append h.fresh
    · rw [h.clients, List.forall_mem_append]
      refine ⟨hs.clients, List.forall_mem_singleton.mpr ?_⟩
      rw [h.keyHash, htoken]
      exact hdrawn _ t ht
    · rw [h.previous]
      exact hs.previous
  | adjusted h =>
    obtain ⟨hprevious, set, hclients, hset⟩ := h
    refine ⟨?_, ?_, ?_⟩
    · rw [hclients]
      exact hs.ids.update fun y => (hset y).1
    · rw [hclients]
      refine forall_mem_update hs.clients fun y hy _ => ?_
      rw [(hset y).1, (hset y).2.1]
      exact hs.clients y hy
    · rw [hprevious]
      exact hs.previous
  | rotated hx h =>
    obtain ⟨t, ht, htoken⟩ := h.drawn
    obtain ⟨set, hclients, -, hset⟩ := h.clients
    obtain ⟨current, hcurrent, hid, ps, hprevious, hps, -⟩ := h.previous
    refine ⟨?_, ?_, ?_⟩
    · rw [hclients]
      exact hs.ids.update fun y => (hset y).1
    · rw [hclients]
      refine forall_mem_update hs.clients fun y _ _ => ?_
      rw [(hset y).2.1, htoken]
      exact hdrawn _ t ht
    · rw [hprevious, List.forall_mem_append]
      refine ⟨hs.previous, fun p hp => ?_⟩
      -- the superseded token is kept for the client it was the token of
      rw [(hps p hp).1, (hps p hp).2, ← hid]
      exact hs.clients current hcurrent
  | revoked hx h =>
    obtain ⟨hprevious, set, hclients, hset⟩ := h
    refine ⟨?_, ?_, ?_⟩
    · rw [hclients]
      exact hs.ids.update fun y => (hset y).1
    · rw [hclients]
      refine forall_mem_update hs.clients fun y hy _ => ?_
      rw [(hset y).1, (hset y).2.1]
      exact hs.clients y hy
    · rw [hprevious]
      exact hs.previous
  | deleted h =>
    exact ⟨hs.ids.sublist (h.clients.map _), fun y hy => hs.clients y (h.clients.subset hy),
      fun p hp => hs.previous p (h.previous.subset hp)⟩

/-- An active client stays active, unless it is revoked. -/
theorem ClientEffect.active (h : ClientEffect sha256 ticks x s s') (hrevokes : ¬x.Revokes id)
    (ho : Owned id keyHash s) : ∃ c ∈ s'.clients, c.id = id ∧ c.status = .active := by
  cases h with
  | same h => exact h ▸ ho.row
  | created h =>
    obtain ⟨r, hr, hactive⟩ := ho.row
    exact ⟨r, h.clients ▸ List.mem_append_left _ hr, hactive⟩
  | adjusted h =>
    obtain ⟨-, set, hclients, hset⟩ := h
    rw [hclients]
    exact exists_mem_update_of ho.row fun y _ hy _ =>
      ⟨(hset y).1.trans hy.1, (hset y).2.2.trans hy.2⟩
  | rotated hx h =>
    obtain ⟨set, hclients, -, hset⟩ := h.clients
    rw [hclients]
    exact exists_mem_update_of ho.row fun y _ hy _ =>
      ⟨(hset y).1.trans hy.1, (hset y).2.2.1.trans hy.2⟩
  | @revoked id' hx h =>
    obtain ⟨-, set, hclients, -⟩ := h
    have hne : id ≠ id' := by
      rintro rfl
      exact hrevokes hx
    rw [hclients]
    exact exists_mem_update_of ho.row fun y _ hy hp =>
      absurd (hy.1.symm.trans (of_decide_eq_true hp)) hne
  | deleted h =>
    obtain ⟨r, hr, hid, hactive⟩ := ho.row
    exact ⟨r, h.others r hr (hid ▸ ho.deleted_ne h), hid, hactive⟩

/-- Requests keep a token its client's, unless they revoke the client or draw the token
again. -/
theorem ClientEffect.owned (h : ClientEffect sha256 ticks x s s') (hrevokes : ¬x.Revokes id)
    (hfresh : ∀ t ∈ ticks, hashAPIKey sha256 (generateAPIToken t.random) ≠ keyHash)
    (ho : Owned id keyHash s) : Owned id keyHash s' :=
  ⟨h.hashes ho.hashes fun _ t ht he => absurd he (hfresh t ht), h.active hrevokes ho⟩

/-- A token stays current while its client is not rotated. -/
theorem ClientEffect.current (h : ClientEffect sha256 ticks x s s')
    (hrotates : ∀ graceSeconds, ¬x.Rotates id graceSeconds) (ho : Owned id keyHash s)
    (hc : Current id keyHash s) : Current id keyHash s' := by
  cases h with
  | same h => exact h ▸ hc
  | created h =>
    obtain ⟨c, hc, hheld⟩ := hc
    exact ⟨c, h.clients ▸ List.mem_append_left _ hc, hheld⟩
  | adjusted h =>
    obtain ⟨-, set, hclients, hset⟩ := h
    rw [Current, hclients]
    exact exists_mem_update_of hc fun y _ hy _ => ⟨(hset y).1.trans hy.1, (hset y).2.1.trans hy.2⟩
  | @rotated id' graceSeconds c token hx h =>
    obtain ⟨set, hclients, -, -⟩ := h.clients
    have hne : id ≠ id' := by
      rintro rfl
      exact hrotates graceSeconds hx
    rw [Current, hclients]
    refine exists_mem_update_of hc fun y _ hy hp => ?_
    exact absurd (hy.1.symm.trans (of_decide_eq_true (Bool.and_eq_true_iff.mp hp).1)) hne
  | revoked hx h =>
    obtain ⟨-, set, hclients, hset⟩ := h
    rw [Current, hclients]
    exact exists_mem_update_of hc fun y _ hy _ => ⟨(hset y).1.trans hy.1, (hset y).2.1.trans hy.2⟩
  | deleted h =>
    obtain ⟨c, hc, hid, hhash⟩ := hc
    exact ⟨c, h.others c hc (hid ▸ ho.deleted_ne h), hid, hhash⟩

/-- A grace is not cut short while the client is there. -/
theorem ClientEffect.graced (h : ClientEffect sha256 ticks x s s') (ho : Owned id keyHash s)
    {t : Timestamp} (hg : Graced id keyHash t s) : Graced id keyHash t s' := by
  obtain ⟨p, hp, hid, hheld⟩ := hg
  refine ⟨p, ?_, hid, hheld⟩
  cases h with
  | same h => exact h ▸ hp
  | created h => exact h.previous ▸ hp
  | adjusted h => exact h.1 ▸ hp
  | rotated hx h =>
    obtain ⟨current, -, -, ps, hprevious, -⟩ := h.previous
    exact hprevious ▸ List.mem_append_left _ hp
  | revoked hx h => exact h.1 ▸ hp
  | deleted h => exact h.previousOthers p hp (hid ▸ ho.deleted_ne h)

/-- A rotation with a grace turns a current token into one in its grace. -/
theorem Rotated.graced {ticks : List Tick} {graceSeconds : Int32} {c : ApiClient} {new : String}
    (h : Rotated sha256 ticks id graceSeconds c new s s') (ho : Owned id keyHash s)
    (hc : Current id keyHash s) {t : Timestamp} (hgrace : 0 < graceSeconds)
    (ht : ∀ read ∈ ticks, t < read.clock + Timestamp.seconds graceSeconds.toInt) :
    Graced id keyHash t s' := by
  obtain ⟨current, hcurrent, hcid, ps, hprevious, hps, hvalid⟩ := h.previous
  obtain ⟨c, hmem, hid, hhash⟩ := hc
  obtain ⟨p, hp, read, hread, hv⟩ := hvalid hgrace
  obtain rfl := ho.hashes.ids.eq_of_key hcurrent hmem (hcid.trans hid.symm)
  refine ⟨p, hprevious ▸ List.mem_append_right _ hp, (hps p hp).1, (hps p hp).2.trans hhash, ?_⟩
  rw [hv]
  exact ht read hread

theorem Created.owned {c : ApiClient} (h : Created sha256 ticks c token s s')
    (hs : Hashes (fun _ h => h ≠ hashAPIKey sha256 token) s) :
    Owned c.id (hashAPIKey sha256 token) s' ∧ Current c.id (hashAPIKey sha256 token) s' := by
  have hmem : c ∈ s'.clients := h.clients ▸ List.mem_append_right _ (.head _)
  refine ⟨⟨⟨?_, ?_, ?_⟩, c, hmem, rfl, h.active⟩, c, hmem, rfl, h.keyHash⟩
  · rw [h.clients]
    exact hs.ids.append h.fresh
  · rw [h.clients, List.forall_mem_append]
    exact ⟨fun y hy he => absurd he (hs.clients y hy), List.forall_mem_singleton.mpr fun _ => rfl⟩
  · rw [h.previous]
    exact fun p hp he => absurd he (hs.previous p hp)

theorem Rotated.owned {c : ApiClient} {graceSeconds : Int32}
    (h : Rotated sha256 ticks id graceSeconds c token s s')
    (hs : Hashes (fun _ h => h ≠ hashAPIKey sha256 token) s) :
    c.id = id ∧ Owned id (hashAPIKey sha256 token) s' ∧
    Current id (hashAPIKey sha256 token) s' := by
  obtain ⟨set, hclients, ⟨r, hr, hid, hactive, rfl⟩, hset⟩ := h.clients
  obtain ⟨current, hcurrent, -, ps, hprevious, hps, -⟩ := h.previous
  have hmem : set r ∈ s'.clients := by
    rw [hclients]
    exact mem_update.mpr ⟨r, hr, by simp [hid, hactive]⟩
  have hrid : (set r).id = id := (hset r).1.trans hid
  refine ⟨hrid, ⟨⟨?_, ?_, ?_⟩, set r, hmem, hrid, (hset r).2.2.1.trans hactive⟩, set r,
    hmem, hrid, (hset r).2.1⟩
  · rw [hclients]
    exact hs.ids.update fun y => (hset y).1
  · rw [hclients]
    refine forall_mem_update (fun y hy he => absurd he (hs.clients y hy)) fun y _ hp _ => ?_
    exact (hset y).1.trans (of_decide_eq_true (Bool.and_eq_true_iff.mp hp).1)
  · rw [hprevious, List.forall_mem_append]
    refine ⟨fun p hp he => absurd he (hs.previous p hp), fun p hp he => ?_⟩
    exact absurd ((hps p hp).2.symm.trans he) (hs.clients current hcurrent)

/-- A rotation leaves the end of the client's life where it was. -/
theorem Rotated.unexpired_iff {c : ApiClient} {graceSeconds : Int32}
    (h : Rotated sha256 ticks id graceSeconds c token s s') {t : Timestamp} :
    Unexpired id t s' ↔ Unexpired id t s := by
  obtain ⟨set, hclients, -, hset⟩ := h.clients
  rw [Unexpired, hclients]
  constructor
  · rintro ⟨y, hy, hid, hlt⟩
    obtain ⟨r, hr, rfl⟩ := mem_update.mp hy
    have hkeep : ∀ b : Bool, (if b then set r else r).id =
        r.id ∧ (if b then set r else r).expiresAt = r.expiresAt := by
      intro b
      cases b with
      | false => exact ⟨rfl, rfl⟩
      | true => exact ⟨(hset r).1, (hset r).2.2.2⟩
    rw [(hkeep _).1] at hid
    rw [(hkeep _).2] at hlt
    exact ⟨r, hr, hid, hlt⟩
  · intro h
    refine exists_mem_update_of h fun r _ hr _ => ⟨(hset r).1.trans hr.1, ?_⟩
    rw [(hset r).2.2.2]
    exact hr.2

end steps

section answers

variable {c c' : ApiClient} {token token' : String} {res : Response}

variable (c token) in
/-- The identifier is the first text of the answer, the token its last. -/
theorem render_createAPIClientResponse (scopes : List String) (now : Timestamp) :
    (∃ rest, (createAPIClientResponse c scopes now token).render Json.compact =
      "\x7b\"client\":\x7b\"id\":".toList ++ (Json.quoted Json.compact c.id.text ++ rest)) ∧
    ∃ front, (createAPIClientResponse c scopes now token).render Json.compact =
      front ++ ':' :: Json.quoted Json.compact token ++ ['\x7d'] := by
  have hfields : (createAPIClientResponse c scopes now token).render Json.compact =
      '\x7b' :: (Json.quoted Json.compact "client" ++
        ':' :: ((newAPIClientView c scopes now).render Json.compact ++
        ',' :: (Json.quoted Json.compact "token" ++ ':' :: Json.quoted Json.compact token))) ++
        ['\x7d'] := by
    simp [createAPIClientResponse, Json.render, Json.renderFields, Json.renderField, Json.compact]
  constructor
  · obtain ⟨fields, hview⟩ : ∃ fields, newAPIClientView c scopes now =
      .obj (("id", c.id.json) :: fields) := ⟨_, rfl⟩
    rw [hfields, hview]
    exact ⟨_, by
      simp [Json.render, Json.renderFields, Json.renderField, UUID.json, Json.compact, Json.quoted]
      rfl⟩
  · refine ⟨'\x7b' :: (Json.quoted Json.compact "client" ++
      ':' :: ((newAPIClientView c scopes now).render Json.compact ++
      ',' :: Json.quoted Json.compact "token")), ?_⟩
    rw [hfields]
    simp

/-- The answer to a creation or a rotation shows whose token it is, and the token. -/
theorem TokenAnswer.unique (h : TokenAnswer c token res) (h' : TokenAnswer c' token' res) :
    c.id = c'.id ∧ token = token' := by
  obtain ⟨scopes, now, rfl⟩ := h
  obtain ⟨scopes', now', h'⟩ := h'
  have hrender := Json.marshal_inj (congrArg Response.body h')
  obtain ⟨⟨rest, hid⟩, front, htoken⟩ := render_createAPIClientResponse c token scopes now
  obtain ⟨⟨rest', hid'⟩, front', htoken'⟩ := render_createAPIClientResponse c' token' scopes' now'
  have hlast := (List.append_left_inj _).mp (htoken.symm.trans (hrender.trans htoken'))
  have hfirst := List.append_cancel_left (hid.symm.trans (hrender.trans hid'))
  exact ⟨text_injective (Json.quoted_inj hfirst).1, Json.quoted_last_inj hlast⟩

end answers

section runs

variable {Key : Type} {aead : Aead Key} {d e : Database} {c : ApiClient}

def Served.Committed (x : Served aead) (d : Database) : Prop :=
  (serve x.server x.request x.ticks d).committed = true

/-- The request asks for a token. -/
def Request.AsksToken : Request → Prop
  | .createAPIClient _ _ | .rotateAPIClient _ _ _ => True
  | _ => False

/-- The request is carried out and its answer shows a client and a token. -/
structure Served.HandsOut (x : Served aead) (d : Database) (c : ApiClient) (token : String) :
    Prop where
  asks : x.request.AsksToken
  committed : x.Committed d
  answer : TokenAnswer c token (serve x.server x.request x.ticks d).answer

/-- Along the run no request revokes the client. -/
def Unrevoked (id : UUID) : List (Served aead) → Database → Prop
  | [], _ => True
  | x :: xs, d => ¬(x.Committed d ∧ x.request.Revokes id) ∧ Unrevoked id xs (x.after d)

/-- The first rotation of the client along the run leaves a grace that lasts beyond a
time. -/
def InGrace (id : UUID) (t : Timestamp) : List (Served aead) → Database → Prop
  | [], _ => True
  | x :: xs, d =>
    (∀ graceSeconds, x.Committed d → x.request.Rotates id graceSeconds →
      0 < graceSeconds ∧ ∀ read ∈ x.ticks, t < read.clock + Timestamp.seconds graceSeconds.toInt) ∧
    ((∀ graceSeconds, ¬(x.Committed d ∧ x.request.Rotates id graceSeconds)) →
      InGrace id t xs (x.after d))

/-- The tokens that the random octets of a run can make up. -/
def runTokens (xs : List (Served aead)) : List String :=
  xs.flatMap fun x => x.ticks.map fun t => generateAPIToken t.random

theorem Served.effect (x : Served aead) (d : Database) :
    ClientEffect x.server.sha256 x.ticks x.request d.domain.clients (x.after d).domain.clients := by
  cases hx : (serve x.server x.request x.ticks d).committed with
  | false => exact .same (by rw [x.rolled_back hx])
  | true =>
    obtain ⟨res, ts', h⟩ := x.committed hx
    exact Request.clientEffect h

variable {x : Served aead} {xs ys : List (Served aead)}

/-- A hash that no request of the run draws, on servers that use one hash function. -/
structure Undrawn (sha256 : Bytes → Bytes) (keyHash : String) (xs : List (Served aead)) : Prop where
  servers : ∀ x ∈ xs, x.server.sha256 = sha256
  hashes : ∀ x ∈ xs, ∀ t ∈ x.ticks, hashAPIKey sha256 (generateAPIToken t.random) ≠ keyHash

theorem Undrawn.tail (h : Undrawn sha256 keyHash (x :: xs)) : Undrawn sha256 keyHash xs :=
  ⟨fun y hy => h.servers y (.tail _ hy), fun y hy => h.hashes y (.tail _ hy)⟩

theorem Served.owned (h : Undrawn sha256 keyHash (x :: xs))
    (hrevokes : ¬(x.Committed d ∧ x.request.Revokes id)) (ho : Owned id keyHash d.domain.clients) :
    Owned id keyHash (x.after d).domain.clients := by
  cases hx : (serve x.server x.request x.ticks d).committed with
  | false =>
    rw [x.rolled_back hx]
    exact ho
  | true =>
    have heffect := h.servers x (.head _) ▸ x.effect d
    exact heffect.owned (fun hr => hrevokes ⟨hx, hr⟩) (h.hashes x (.head _)) ho

/-- A rotation that leaves a grace puts a current token into it. -/
theorem Served.rotated_graced {graceSeconds : Int32} (hx : x.Committed d)
    (hrotates : x.request.Rotates id graceSeconds)
    (ho : Owned id keyHash d.domain.clients)
    (hc : Current id keyHash d.domain.clients) {t : Timestamp}
    (hgrace : 0 < graceSeconds ∧ ∀ read ∈ x.ticks, t < read.clock +
      Timestamp.seconds graceSeconds.toInt) :
    Graced id keyHash t (x.after d).domain.clients := by
  obtain ⟨res, ts', h⟩ := x.committed hx
  unfold Request.Rotates at hrotates
  split at hrotates
  next r id' graceSeconds' hrequest =>
    obtain ⟨rfl, rfl⟩ := hrotates
    rw [hrequest] at h
    obtain ⟨c, token, hrotated, -⟩ := rotateAPIClient_answer h
    exact hrotated.graced ho hc hgrace.1 hgrace.2
  · cases hrotates

/-- Any other request leaves the token current. -/
theorem Served.current (hrotates : ∀ graceSeconds,
      ¬(x.Committed d ∧ x.request.Rotates id graceSeconds))
    (ho : Owned id keyHash d.domain.clients) (hc : Current id keyHash d.domain.clients) :
    Current id keyHash (x.after d).domain.clients := by
  cases hx : (serve x.server x.request x.ticks d).committed with
  | false =>
    rw [x.rolled_back hx]
    exact hc
  | true => exact (x.effect d).current (fun g hr => hrotates g ⟨hx, hr⟩) ho hc

/-- A token in its grace is accepted for it while its client is not revoked. -/
theorem graced_run (hrun : Runs.Run Served.Step d xs e) (hundrawn : Undrawn sha256 keyHash xs)
    (hunrevoked : Unrevoked id xs d) (ho : Owned id keyHash d.domain.clients) {t : Timestamp}
    (hg : Graced id keyHash t d.domain.clients) :
    Owned id keyHash e.domain.clients ∧ Graced id keyHash t e.domain.clients := by
  induction xs generalizing d with
  | nil =>
    obtain rfl := Runs.run_nil_iff.mp hrun
    exact ⟨ho, hg⟩
  | cons x xs ih =>
    obtain ⟨u, rfl, hrun⟩ := Runs.run_cons_iff.mp hrun
    exact ih hrun hundrawn.tail hunrevoked.2 (x.owned hundrawn hunrevoked.1 ho)
      ((x.effect d).graced ho hg)

/-- A current token stays current or is put into a grace that lasts beyond the time. -/
theorem current_run (hrun : Runs.Run Served.Step d xs e) (hundrawn : Undrawn sha256 keyHash xs)
    (hunrevoked : Unrevoked id xs d) {t : Timestamp} (hgrace : InGrace id t xs d)
    (ho : Owned id keyHash d.domain.clients) (hc : Current id keyHash d.domain.clients) :
    Owned id keyHash e.domain.clients ∧
    (Current id keyHash e.domain.clients ∨ Graced id keyHash t e.domain.clients) := by
  induction xs generalizing d with
  | nil =>
    obtain rfl := Runs.run_nil_iff.mp hrun
    exact ⟨ho, .inl hc⟩
  | cons x xs ih =>
    obtain ⟨u, rfl, hrun⟩ := Runs.run_cons_iff.mp hrun
    have howned := x.owned hundrawn hunrevoked.1 ho
    by_cases hrotates : ∃ graceSeconds, x.Committed d ∧ x.request.Rotates id graceSeconds
    · obtain ⟨graceSeconds, hx, hr⟩ := hrotates
      have hg := x.rotated_graced hx hr ho hc (hgrace.1 graceSeconds hx hr)
      obtain ⟨ho', hg'⟩ := graced_run hrun hundrawn.tail hunrevoked.2 howned hg
      exact ⟨ho', .inr hg'⟩
    · have hnone := not_exists.mp hrotates
      exact ih hrun hundrawn.tail hunrevoked.2 (hgrace.2 hnone) howned (x.current hnone ho hc)

theorem hashes_run (hrun : Runs.Run Served.Step d xs e) (hundrawn : Undrawn sha256 keyHash xs)
    (hs : Hashes (fun _ h => h ≠ keyHash) d.domain.clients) :
    Hashes (fun _ h => h ≠ keyHash) e.domain.clients := by
  induction xs generalizing d with
  | nil =>
    obtain rfl := Runs.run_nil_iff.mp hrun
    exact hs
  | cons x xs ih =>
    obtain ⟨u, rfl, hrun⟩ := Runs.run_cons_iff.mp hrun
    have heffect := hundrawn.servers x (.head _) ▸ x.effect d
    exact ih hrun hundrawn.tail (heffect.hashes hs fun _ t ht => hundrawn.hashes x (.head _) t ht)

theorem runTokens_append : runTokens (xs ++ ys) = runTokens xs ++ runTokens ys :=
  List.flatMap_append

theorem mem_runTokens {token : String} :
    token ∈ runTokens xs ↔ ∃ x ∈ xs, ∃ t ∈ x.ticks, token = generateAPIToken t.random := by
  simp [runTokens, eq_comm]

/-- A token that is not among those of a run is not drawn by it. -/
theorem undrawn_of_notMem (hsha : Function.Injective sha256)
    (hservers : ∀ x ∈ xs, x.server.sha256 = sha256) (h : token ∉ runTokens xs) :
    Undrawn sha256 (hashAPIKey sha256 token) xs := by
  refine ⟨hservers, fun x hx t ht he => h (mem_runTokens.mpr ⟨x, hx, t, ht, ?_⟩)⟩
  exact (hashAPIKey_injective hsha he).symm

/-- The request is no rotation of a client that has ended. -/
def Request.FindsUnexpired (now : Timestamp) (s : ClientTables) : Request → Prop
  | .rotateAPIClient _ (some id) _ => Unexpired id now s
  | _ => True

/-- A creation or a rotation that commits hands out a token. -/
theorem Served.handsOut (hasks : x.request.AsksToken) (hx : x.Committed d) :
    ∃ (c : ApiClient) (token : String), x.HandsOut d c token ∧
    ((Created x.server.sha256 x.ticks c token d.domain.clients (x.after d).domain.clients ∧
        (∃ t ∈ x.ticks, t.clock < c.expiresAt) ∧ ∀ now s, x.request.FindsUnexpired now s) ∨
      ∃ id graceSeconds, Rotated x.server.sha256 x.ticks id graceSeconds c token d.domain.clients
        (x.after d).domain.clients ∧
        ∀ now s, x.request.FindsUnexpired now s ↔ Unexpired id now s) := by
  obtain ⟨res, ts', hok⟩ := x.committed hx
  have hanswer : (serve x.server x.request x.ticks d).answer = res := by
    rw [serve, Program.transact, hok]
  have hasks' := hasks
  unfold Request.AsksToken at hasks'
  split at hasks'
  next r body hrequest =>
    rw [hrequest] at hok ⊢
    obtain ⟨c, token, hcreated, hshown, hunexpired⟩ := createAPIClient_answer hok
    exact ⟨c, token, ⟨hasks, hx, hanswer ▸ hshown⟩, .inl ⟨hcreated, hunexpired, fun _ _ => trivial⟩⟩
  next r id body hrequest =>
    rw [hrequest] at hok ⊢
    cases id with
    | none =>
      obtain ⟨id, hid, -⟩ := Program.Tx.ofExcept_bind_eq_ok.mp hok
      cases hid
    | some id =>
      cases body with
      | error e =>
        obtain ⟨id, -, hbody⟩ := Program.Tx.ofExcept_bind_eq_ok.mp hok
        obtain ⟨graceSeconds, hgrace, -⟩ := Program.Tx.ofExcept_bind_eq_ok.mp hbody
        cases hgrace
      | ok graceSeconds =>
        obtain ⟨c, token, hrotated, hshown⟩ := rotateAPIClient_answer hok
        exact ⟨c, token, ⟨hasks, hx, hanswer ▸ hshown⟩,
          .inr ⟨id, graceSeconds, hrotated, fun _ _ => Iff.rfl⟩⟩
  · cases hasks'

/-- What it leaves behind: the token is the client's, and the client has ended if and only
if it is one that had ended before. -/
theorem Served.HandsOut.spec {now : Timestamp} (h : x.HandsOut d c token)
    (hserver : x.server.sha256 = sha256)
    (hfresh : ∀ t ∈ x.ticks,
      Hashes (fun _ h => h ≠ hashAPIKey sha256 (generateAPIToken t.random)) d.domain.clients)
    (hnow : ∀ t ∈ x.ticks, t.clock = now) :
    (∃ t ∈ x.ticks, token = generateAPIToken t.random) ∧
      Owned c.id (hashAPIKey sha256 token) (x.after d).domain.clients ∧
      Current c.id (hashAPIKey sha256 token) (x.after d).domain.clients ∧
      (Unexpired c.id now (x.after d).domain.clients ↔
        x.request.FindsUnexpired now d.domain.clients) := by
  obtain ⟨c', token', h', hdone⟩ := x.handsOut h.asks h.committed
  obtain ⟨hid, rfl⟩ := h'.answer.unique h.answer
  rcases hdone with ⟨hcreated, ⟨t, ht, hlt⟩, hfinds⟩ | ⟨id, graceSeconds, hrotated, hfinds⟩
  · rw [hserver] at hcreated
    obtain ⟨read, hread, htoken⟩ := hcreated.drawn
    obtain ⟨howned, hcurrent⟩ := hcreated.owned (htoken ▸ hfresh read hread)
    rw [← hid]
    refine ⟨⟨read, hread, htoken⟩, howned, hcurrent, iff_of_true ⟨c', ?_, rfl, ?_⟩ (hfinds _ _)⟩
    · exact hcreated.clients ▸ List.mem_append_right _ (.head _)
    · rwa [← hnow t ht]
  · rw [hserver] at hrotated
    obtain ⟨read, hread, htoken⟩ := hrotated.drawn
    obtain ⟨hcid, howned, hcurrent⟩ := hrotated.owned (htoken ▸ hfresh read hread)
    rw [← hid, hcid]
    exact ⟨⟨read, hread, htoken⟩, howned, hcurrent, hrotated.unexpired_iff.trans (hfinds _ _).symm⟩

/-- No table holds the hash of a token that is yet to be drawn. -/
theorem hashes_of_fresh (hsha : Function.Injective sha256) (hrun : Runs.Run Served.Step {} xs d)
    (hservers : ∀ y ∈ xs ++ [x], y.server.sha256 = sha256)
    (hfresh : (runTokens (xs ++ [x])).Nodup) :
    ∀ t ∈ x.ticks, Hashes (fun _ h => h ≠ hashAPIKey sha256 (generateAPIToken t.random))
      d.domain.clients := by
  intro t ht
  have hnew : generateAPIToken t.random ∉ runTokens xs := by
    intro hxs
    rw [runTokens_append, List.nodup_append'] at hfresh
    exact hfresh.2.2 hxs (mem_runTokens.mpr ⟨x, .head _, t, ht, rfl⟩)
  refine hashes_run hrun (undrawn_of_notMem hsha (fun y hy =>
    hservers y (List.mem_append_left _ hy)) hnew) ?_
  exact ⟨.nil, nofun, nofun⟩

/-- In every run, a token that a creation or a rotation hands out is accepted at once, and
from then on until its client ends, is revoked or leaves the token's grace behind, if and
only if the request is no rotation of a client that had ended. -/
theorem token_handed_out_works_iff (hsha : Function.Injective sha256) {now : Timestamp}
    (hrun : Runs.Run Served.Step {} xs d) (hservers : ∀ y ∈ xs ++ [x], y.server.sha256 = sha256)
    (hfresh : (runTokens (xs ++ [x])).Nodup) (hnow : ∀ t ∈ x.ticks, t.clock = now)
    (h : x.HandsOut d c token) :
    ((∀ t : Tick, t.clock = now → Authenticates sha256 token t (x.after d).domain.clients) ∧
      ∀ (ys : List (Served aead)) (e : Database) (t : Tick), Runs.Run Served.Step (x.after d) ys e →
        (∀ y ∈ ys, y.server.sha256 = sha256) → (runTokens (xs ++ x :: ys)).Nodup →
        Unrevoked c.id ys (x.after d) → InGrace c.id t.clock ys (x.after d) →
        Unexpired c.id t.clock e.domain.clients → Authenticates sha256 token t e.domain.clients) ↔
      x.request.FindsUnexpired now d.domain.clients := by
  obtain ⟨⟨read, hread, htoken⟩, howned, hcurrent, hiff⟩ :=
    h.spec (hservers x (List.mem_append_right _ (.head _)))
    (hashes_of_fresh hsha hrun hservers hfresh) hnow
  have hne : token ≠ "" := htoken ▸ generateAPIToken_ne_empty _
  rw [← hiff]
  constructor
  · rintro ⟨hatOnce, -⟩
    have hread' := hatOnce read (hnow read hread)
    rw [howned.authenticates hne (.inl hcurrent), hnow read hread] at hread'
    exact hread'
  · intro hunexpired
    refine ⟨fun t ht => ?_, fun ys e t hrun' hservers' hfresh' hunrevoked hgrace hend => ?_⟩
    · rw [howned.authenticates hne (.inl hcurrent), ht]
      exact hunexpired
    · have hlater : token ∉ runTokens ys := by
        intro hys
        rw [← List.singleton_append, runTokens_append, runTokens_append, List.nodup_append',
          List.nodup_append'] at hfresh'
        exact hfresh'.2.1.2.2 (mem_runTokens.mpr ⟨x, .head _, read, hread, htoken⟩) hys
      obtain ⟨howned', hheld⟩ :=
        current_run hrun' (undrawn_of_notMem hsha hservers' hlater) hunrevoked
          hgrace howned hcurrent
      exact (howned'.authenticates hne hheld).mpr hend

end runs

section sample

/-- The ticks of a request that is served at one reading, with octets of their own. -/
def tokenTicks (now : Timestamp) (start count : Nat) : List Tick :=
  (List.range count).map fun i =>
    ⟨now, fun k => Fin.ofNat _ (1000 * (start + i) + k + 1), fun _ => (start + i).toUInt8, .plain⟩

/-- The client ends at ten microseconds. -/
def samplePolicy : ApiClientPolicyInput := ⟨"app", ["tenant:list"], 60, 10⟩

def sampleClientId : UUID := 5001

/-- A hash for the two requests and the tokens of the sample. -/
def tokenHash : Bytes → Bytes := hashKnowing
  ([utf8 "POST /v1/admin/api-clients" ++ 0 :: (Json.obj [("name", .str samplePolicy.name),
      ("scopes", scopesJson samplePolicy.scopes), ("rpm_limit", .num samplePolicy.rpmLimit.toInt),
      ("expires_at", Timestamp.json samplePolicy.expiresAt)]).marshal,
    utf8 "POST /v1/admin/api-clients/{id}/rotate" ++ 0 ::
      (Json.obj [("client_id", sampleClientId.json),
        ("input", .obj [("grace_seconds", .num 0)])]).marshal] ++
    (tokenTicks 0 0 32).map fun t => utf8 (generateAPIToken t.random))

theorem tokenHash_injective : Function.Injective tokenHash := hashKnowing_injective (by decide)

def tokenServer : Server Aead.tagged := ⟨.single Aead.tagged 7, tokenHash⟩

def sampleCreation : Served Aead.tagged :=
  ⟨tokenServer, .createAPIClient (sampleAdmin 1) (.ok samplePolicy), tokenTicks 0 0 16⟩

def sampleRotation (now : Timestamp) : Served Aead.tagged :=
  ⟨tokenServer, .rotateAPIClient (sampleAdmin 2) (some sampleClientId) (.ok 0),
   tokenTicks now 16 16⟩

/-- The database once the client is created. -/
def sampleCreated : Database := sampleCreation.after {}

theorem sampleCreated_run : Runs.Run Served.Step {} [sampleCreation] sampleCreated :=
  .cons rfl (.nil _)

theorem sampleRotation_clock {now : Timestamp} :
    ∀ t ∈ (sampleRotation now).ticks, t.clock = now := by
  intro t ht
  obtain ⟨i, -, rfl⟩ := List.mem_map.mp ht
  rfl

theorem sampleRotation_servers (now : Timestamp) :
    ∀ y ∈ [sampleCreation] ++ [sampleRotation now], y.server.sha256 = tokenHash := by
  intro y hy
  rcases List.mem_append.mp hy with hy | hy <;> obtain rfl := List.mem_singleton.mp hy <;> rfl

theorem sampleRotation_runs :
    (sampleRotation 5).Committed sampleCreated ∧ (sampleRotation 20).Committed sampleCreated ∧
    (runTokens ([sampleCreation] ++ [sampleRotation 5])).Nodup ∧
    (runTokens ([sampleCreation] ++ [sampleRotation 20])).Nodup ∧
    sampleCreated.domain.clients.clients.map (fun c => (c.id, c.expiresAt)) =
      [(sampleClientId, 10)] := by
  unfold Served.Committed
  decide +kernel

theorem sampleCreated_unexpired {t : Timestamp} :
    Unexpired sampleClientId t sampleCreated.domain.clients ↔ t < 10 := by
  obtain ⟨-, -, -, -, hrows⟩ := sampleRotation_runs
  obtain ⟨c, hc⟩ := List.length_eq_one_iff.mp (by simpa using congrArg List.length hrows)
  rw [hc, List.map_singleton, List.singleton_inj, Prod.mk.injEq] at hrows
  simp [Unexpired, hc, hrows]

/-- A client that has ended at ten is rotated at twenty, and the token it is given is not
accepted. -/
theorem expired_client_rotated :
    Function.Injective tokenHash ∧ ∃ (d : Database) (c : ApiClient) (token : String),
    Runs.Run Served.Step {} [sampleCreation] d ∧
    (runTokens ([sampleCreation] ++ [sampleRotation 20])).Nodup ∧
      (∀ y ∈ [sampleCreation] ++ [sampleRotation 20], y.server.sha256 = tokenHash) ∧
      (∀ t ∈ (sampleRotation 20).ticks, t.clock = 20) ∧ (sampleRotation 20).HandsOut d c token ∧
      ∀ t : Tick, t.clock =
        20 → ¬Authenticates tokenHash token t ((sampleRotation 20).after d).domain.clients := by
  obtain ⟨-, hx, -, hfresh, -⟩ := sampleRotation_runs
  obtain ⟨c, token, hout, -⟩ := (sampleRotation 20).handsOut trivial hx
  refine ⟨tokenHash_injective, sampleCreated, c, token, sampleCreated_run, hfresh,
    sampleRotation_servers 20,
    sampleRotation_clock, hout, fun t ht => ?_⟩
  have hserver : (sampleRotation 20).server.sha256 = tokenHash := rfl
  have hstored :=
    hashes_of_fresh tokenHash_injective sampleCreated_run (sampleRotation_servers 20) hfresh
  obtain ⟨⟨read, -, htoken⟩, howned, hcurrent, hiff⟩ :=
    hout.spec hserver hstored sampleRotation_clock
  rw [howned.authenticates (htoken ▸ generateAPIToken_ne_empty _) (.inl hcurrent), ht, hiff]
  exact fun hunexpired => absurd (sampleCreated_unexpired.mp hunexpired) (by decide)

/-- A client that ends at ten is rotated at five, and the token it is given is accepted. -/
theorem rotated_client_authenticates :
    ∃ (c : ApiClient) (token : String), (sampleRotation 5).HandsOut sampleCreated c token ∧
    ∀ t : Tick, t.clock =
      5 → Authenticates tokenHash token t
      ((sampleRotation 5).after sampleCreated).domain.clients := by
  obtain ⟨hx, -, hfresh, -, -⟩ := sampleRotation_runs
  obtain ⟨c, token, hout, -⟩ := (sampleRotation 5).handsOut trivial hx
  have hworks :=
    token_handed_out_works_iff tokenHash_injective sampleCreated_run
      (sampleRotation_servers 5) hfresh
    sampleRotation_clock hout
  exact ⟨c, token, hout, (hworks.mpr (sampleCreated_unexpired.mpr (by decide))).1⟩

end sample

end Tenancit.Httpapi
