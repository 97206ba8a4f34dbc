import Tenancit.Httpapi.AdminRoutes
import Tenancit.Httpapi.AuditFits
import Tenancit.Lib.Runs

/-!
What the audit log tells of a run of requests to `/v1/admin`: who made a change, with which right,
and which requests were refused or failed. A change that the log does not tell is the second
revocation of a client.
-/
namespace Tenancit.Httpapi

open Encoding Crypto Store Text Adminauth Service Queries
open Program

variable {Key : Type} {aead : Aead Key}

section told

variable {α : Type} {r : AdminRequest} {actor : Principal} {e : AuditEntry}
  {ts ts' ticks : List Tick} {s s' : EventTables} {d d' : Database} {res : Response}

/-- The row tells of a success of the actor. -/
def Tells (p : Principal) (row : AdminAuditEvent) : Prop :=
  row.result = "success" ∧
  (⟨row.actorKind, row.actorIssuer, row.actorSubject, row.actorLabel⟩ : AuditActor) = p.actor

theorem insertAdminAuditSuccess_tells (hr : r.principal = some actor)
    (h : insertAdminAuditSuccess r e ts s = .ok ((), ts', s')) :
    ∃ row, s'.audit = s.audit ++ [row] ∧ Tells actor row := by
  simp only [insertAdminAuditSuccess, hr] at h
  obtain ⟨t, ts₁, a, s₁, rfl, haudit, h₁⟩ := Tx.statement_bind_eq_ok.mp h
  obtain ⟨-, rfl, rfl⟩ := insertAdminAuditEvent_ok haudit
  cases hdraft : Events.fromAudit e.action e.targetType e.targetId with
  | none =>
    rw [hdraft] at h₁
    cases Tx.pure_eq_ok.mp h₁
    exact ⟨_, rfl, rfl, rfl⟩
  | some draft =>
    rw [hdraft] at h₁
    obtain ⟨o, ts₂, s₂, hinsert, h₂⟩ := Tx.bind_eq_ok.mp (Tx.mapErr_eq_ok.mp h₁)
    obtain ⟨t₂, -, hinsert⟩ := Tx.statement_eq_ok.mp hinsert
    simp only [insertOutboxEvent, ite_error_eq_ok, Except.ok.injEq, Prod.mk.injEq] at hinsert
    obtain ⟨-, -, rfl, rfl⟩ := hinsert
    obtain ⟨t₃, -, henqueue⟩ := Tx.statement_eq_ok.mp h₂
    simp only [enqueueOutboxDeliveries, ite_error_eq_ok, Except.ok.injEq, Prod.mk.injEq] at henqueue
    obtain ⟨-, -, -, rfl⟩ := henqueue
    exact ⟨_, rfl, rfl, rfl⟩

theorem Commits.tells {change : Timestamp → Tx Domain Response α} {audit : α → AuditEntry}
    (hr : r.principal = some actor) (h : Commits r change (fun a => some (audit a)) ticks d d') :
    ∃ row, d'.events.audit = d.events.audit ++ [row] ∧ Tells actor row := by
  obtain ⟨begun, pre, a, ts, ts₁, ts₂, -, -, -, hevents⟩ := h
  exact insertAdminAuditSuccess_tells hr hevents

/-- A committed request to the administrative interface is told, unless it revokes a client
again. -/
theorem Request.tells {s : Server aead} {x : Request} (hx : x.sender = some r)
    (hr : r.principal = some actor) (h : x.handler s ticks d = .ok (res, ts', d')) :
    res.status < 400 ∧ (x.RevokesAgain d.domain ∧ d'.events = d.events ∨
      ∃ row, d'.events.audit = d.events.audit ++ [row] ∧ Tells actor row) := by
  cases x with
  | createAPIClient r' body =>
    obtain rfl := Option.some.inj hx
    obtain ⟨in_, -, h₁⟩ := Tx.ofExcept_bind_eq_ok.mp h
    obtain ⟨t, rest, rfl, h₂⟩ := Tx.draw_bind_eq_ok.mp h₁
    obtain ⟨in_, -, h₃⟩ := Tx.ofExcept_bind_eq_ok.mp h₂
    obtain ⟨request, -, h₄⟩ := Tx.ofExcept_bind_eq_ok.mp h₃
    exact ⟨idempotentMutation_status (fun _ => reads_newClient) h₄,
      .inr ((idempotentMutation_ok (fun _ => reads_newClient) h₄).tells hr)⟩
  | updateAPIClient r' id body =>
    obtain rfl := Option.some.inj hx
    obtain ⟨id, -, h₁⟩ := Tx.ofExcept_bind_eq_ok.mp h
    obtain ⟨in_, -, h₂⟩ := Tx.ofExcept_bind_eq_ok.mp h₁
    obtain ⟨t, rest, rfl, h₃⟩ := Tx.draw_bind_eq_ok.mp h₂
    obtain ⟨in_, -, h₄⟩ := Tx.ofExcept_bind_eq_ok.mp h₃
    exact ⟨auditedMutation_status (fun _ _ _ => by simp [writeJSON]) h₄,
      .inr ((auditedMutation_ok (fun _ => Reads.pure _) h₄).tells hr)⟩
  | rotateAPIClient r' id body =>
    obtain rfl := Option.some.inj hx
    obtain ⟨id, -, h₁⟩ := Tx.ofExcept_bind_eq_ok.mp h
    obtain ⟨graceSeconds, -, h₂⟩ := Tx.ofExcept_bind_eq_ok.mp h₁
    obtain ⟨request, -, h₃⟩ := Tx.ofExcept_bind_eq_ok.mp h₂
    exact ⟨idempotentMutation_status (fun _ => reads_rotatedClient) h₃,
      .inr ((idempotentMutation_ok (fun _ => reads_rotatedClient) h₃).tells hr)⟩
  | revokeAPIClient r' id =>
    obtain rfl := Option.some.inj hx
    obtain ⟨id', hid, h₁⟩ := Tx.ofExcept_bind_eq_ok.mp h
    obtain rfl := parse_eq_ok.mp hid
    refine ⟨auditedMutation_status (fun _ _ _ => by simp [writeJSON]) h₁, ?_⟩
    obtain ⟨a, ts, ts₁, hrow, hevents⟩ := (auditedMutation_ok (fun _ => reads_scopes) h₁).revoke
    by_cases hrevoked : a.1.status = .revoked
    · rw [if_pos hrevoked] at hevents
      have hsame := (Prod.mk.inj (Prod.mk.inj (Tx.pure_eq_ok.mp hevents)).2).2
      exact .inl ⟨⟨a.1, hrow, hrevoked⟩, hsame⟩
    · rw [if_neg hrevoked] at hevents
      exact .inr (insertAdminAuditSuccess_tells hr hevents)
  | deleteAPIClient r' id =>
    obtain rfl := Option.some.inj hx
    obtain ⟨id, -, h₁⟩ := Tx.ofExcept_bind_eq_ok.mp h
    exact ⟨auditedMutation_status (fun _ _ _ => by simp [noContent]) h₁,
      .inr ((auditedMutation_ok (fun _ => Reads.pure _) h₁).tells hr)⟩
  | consumerWriteValue slug resourceAlias fieldKey body => cases hx
  | _ =>
    obtain ⟨α, r', change, audit, hsender, hcommits, hstatus⟩ := Request.catalog_commits h trivial
    obtain rfl := Option.some.inj (hsender.symm.trans hx)
    exact ⟨hstatus, .inr (hcommits.tells hr)⟩

end told

section reads

variable {s : Server aead} {r : AdminRequest} {reveal : Bool} {ticks ts' : List Tick}
  {d d' : Database} {res : Response}

theorem query_ok {α : Type} {f : Catalog → Except PgError α} {a : α}
    (h : query f ticks d = .ok (a, ts', d')) : d' = d := by
  obtain ⟨t, -, -, rfl⟩ := onCatalog_query_eq_ok.mp h
  rfl

theorem queryOne_ok {α : Type} {f : Catalog → Except PgError α} {a : α}
    (h : queryOne f ticks d = .ok (a, ts', d')) : d' = d := by
  obtain ⟨t, -, -, rfl⟩ := onCatalog_query_eq_ok.mp h
  rfl

theorem loadResources_ok {id : UUID} {built : List BuiltResourceFields}
    (h : loadResources s id reveal ticks d = .ok (built, ts', d')) : d' = d := by
  obtain ⟨headers, ts₁, d₁, hheaders, h₁⟩ := Tx.bind_eq_ok.mp h
  obtain rfl := query_ok hheaders
  split at h₁
  · cases Tx.pure_eq_ok.mp h₁
    rfl
  · obtain ⟨t, -, -, rfl⟩ := onCatalog_query_eq_ok.mp h₁
    rfl

theorem auditReveal_ok {id : UUID} {built : List BuiltResourceFields} {actor : Principal}
    (hr : r.principal = some actor)
    (h : auditReveal insertAdminAuditSuccess r id built ticks d = .ok ((), ts', d')) :
    d'.domain = d.domain ∧ ∃ row, d'.events.audit = d.events.audit ++ [row] ∧ Tells actor row := by
  obtain ⟨t, ts₁, -, h₁⟩ := Tx.draw_bind_eq_ok.mp h
  obtain ⟨u, ts₂, ev, haudit, h₂⟩ := Tx.onPart_bind_eq_ok.mp h₁
  obtain ⟨t', ts₃, -, h₃⟩ := Tx.draw_bind_eq_ok.mp h₂
  cases Tx.pure_eq_ok.mp h₃
  exact ⟨rfl, insertAdminAuditSuccess_tells hr haudit⟩

/-- A listing of resources leaves the domain alone, and one that reveals secrets is told. -/
theorem listTenantResources_ok {id : Option UUID} {actor : Principal}
    (hr : r.principal = some actor)
    (h : listTenantResources s r id reveal ticks d = .ok (res, ts', d')) :
    res.status < 400 ∧ d'.domain = d.domain ∧ (reveal = false → d' = d) ∧
      (reveal = true → ∃ row, d'.events.audit = d.events.audit ++ [row] ∧ Tells actor row) := by
  obtain ⟨id, -, h₁⟩ := Tx.ofExcept_bind_eq_ok.mp h
  obtain ⟨built, ts₁, d₁, hload, h₂⟩ := Tx.bind_eq_ok.mp (Tx.mapErr_eq_ok.mp h₁)
  obtain rfl := loadResources_ok hload
  split at h₂
  next hreveal =>
    obtain ⟨u, ts₂, d₂, haudit, h₃⟩ := Tx.bind_eq_ok.mp h₂
    cases Tx.pure_eq_ok.mp h₃
    obtain ⟨hdomain, htold⟩ := auditReveal_ok hr haudit
    exact ⟨show (200 : Int) < 400 by decide, hdomain, fun hno =>
      absurd hreveal (by simp [hno]), fun _ => htold⟩
  next hreveal =>
    cases Tx.pure_eq_ok.mp h₂
    exact ⟨show (200 : Int) < 400 by decide, rfl, fun _ => rfl, fun hyes => absurd hyes hreveal⟩

theorem queryClients_ok {α : Type} {f : ClientTables → Except PgError α} {a : α}
    (h : queryClients f ticks d = .ok (a, ts', d')) : d' = d := by
  unfold queryClients at h
  obtain ⟨dom, hdom, rfl⟩ := Tx.onPart_eq_ok.mp h
  obtain ⟨c, hc, rfl⟩ := Tx.onPart_eq_ok.mp hdom
  obtain ⟨t, rfl, -, rfl⟩ := Tx.query_eq_ok.mp (Tx.mapErr_eq_ok.mp hc)
  rfl

theorem apiClientViews_ok {cs : List ApiClient} {out : List Json}
    (h : apiClientViews cs ticks d = .ok (out, ts', d')) : d' = d := by
  induction cs generalizing ticks ts' d d' out with
  | nil =>
    cases Tx.pure_eq_ok.mp h
    rfl
  | cons c cs ih =>
    obtain ⟨scopes, ts₁, d₁, hscopes, h₁⟩ := Tx.bind_eq_ok.mp h
    obtain rfl := queryClients_ok hscopes
    obtain ⟨now, ts₂, -, h₂⟩ := Tx.draw_bind_eq_ok.mp h₁
    obtain ⟨rest, ts₃, d₃, hrest, h₃⟩ := Tx.bind_eq_ok.mp h₂
    obtain rfl := ih hrest
    cases Tx.pure_eq_ok.mp h₃
    rfl

/-- Any other call that reads leaves the database as it is. -/
theorem AdminRead.handled {x : AdminRead} (hx : ∀ id, x ≠ .listTenantResources id)
    (h : (AdminCall.read x).handler s r reveal ticks d = .ok (res, ts', d')) :
    res.status < 400 ∧ d' = d := by
  cases x with
  | listTenants =>
    obtain ⟨rows, ts₁, d₁, hq, h₁⟩ := Tx.bind_eq_ok.mp h
    obtain rfl := query_ok hq
    cases Tx.pure_eq_ok.mp h₁
    exact ⟨show (200 : Int) < 400 by decide, rfl⟩
  | getTenant id =>
    obtain ⟨id, -, h₁⟩ := Tx.ofExcept_bind_eq_ok.mp h
    obtain ⟨row, ts₁, d₁, hq, h₂⟩ := Tx.bind_eq_ok.mp h₁
    obtain rfl := queryOne_ok hq
    cases Tx.pure_eq_ok.mp h₂
    exact ⟨show (200 : Int) < 400 by decide, rfl⟩
  | listTenantDomains id =>
    obtain ⟨id, -, h₁⟩ := Tx.ofExcept_bind_eq_ok.mp h
    obtain ⟨rows, ts₁, d₁, hq, h₂⟩ := Tx.bind_eq_ok.mp h₁
    obtain rfl := query_ok hq
    cases Tx.pure_eq_ok.mp h₂
    exact ⟨show (200 : Int) < 400 by decide, rfl⟩
  | listTenantResources id => exact absurd rfl (hx id)
  | listDefinitions =>
    obtain ⟨rows, ts₁, d₁, hq, h₁⟩ := Tx.bind_eq_ok.mp h
    obtain rfl := query_ok hq
    cases Tx.pure_eq_ok.mp h₁
    exact ⟨show (200 : Int) < 400 by decide, rfl⟩
  | getDefinition id =>
    obtain ⟨id, -, h₁⟩ := Tx.ofExcept_bind_eq_ok.mp h
    obtain ⟨definition, ts₁, d₁, hq, h₂⟩ := Tx.bind_eq_ok.mp h₁
    obtain rfl := queryOne_ok hq
    obtain ⟨fields, ts₂, d₂, hf, h₃⟩ := Tx.bind_eq_ok.mp h₂
    obtain rfl := query_ok hf
    cases Tx.pure_eq_ok.mp h₃
    exact ⟨show (200 : Int) < 400 by decide, rfl⟩
  | listAPIClients =>
    obtain ⟨cs, ts₁, d₁, hq, h₁⟩ := Tx.bind_eq_ok.mp h
    obtain rfl := queryClients_ok hq
    obtain ⟨out, ts₂, d₂, hviews, h₂⟩ := Tx.bind_eq_ok.mp h₁
    obtain rfl := apiClientViews_ok hviews
    cases Tx.pure_eq_ok.mp h₂
    exact ⟨show (200 : Int) < 400 by decide, rfl⟩
  | listAPIClientUsage id q daily =>
    obtain ⟨id, -, h₁⟩ := Tx.ofExcept_bind_eq_ok.mp h
    obtain ⟨now, ts₁, -, h₂⟩ := Tx.draw_bind_eq_ok.mp h₁
    obtain ⟨window, -, h₃⟩ := Tx.ofExcept_bind_eq_ok.mp h₂
    obtain ⟨limit, -, h₄⟩ := Tx.ofExcept_bind_eq_ok.mp h₃
    obtain ⟨rows, ts₂, d₂, hq, h₅⟩ := Tx.bind_eq_ok.mp h₄
    obtain rfl := queryClients_ok hq
    cases Tx.pure_eq_ok.mp h₅
    exact ⟨show (200 : Int) < 400 by decide, rfl⟩
  | listAPIClientUsageOverview q daily =>
    obtain ⟨now, ts₁, -, h₁⟩ := Tx.draw_bind_eq_ok.mp h
    obtain ⟨window, -, h₂⟩ := Tx.ofExcept_bind_eq_ok.mp h₁
    obtain ⟨rows, ts₂, d₂, hq, h₃⟩ := Tx.bind_eq_ok.mp h₂
    obtain rfl := queryClients_ok hq
    cases Tx.pure_eq_ok.mp h₃
    exact ⟨show (200 : Int) < 400 by decide, rfl⟩

/-- The answer tells of an error. -/
def Response.IsError (res : Response) : Prop := 400 ≤ res.status

theorem isError_internal : writeInternalError.IsError := show (400 : Int) ≤ 500 by decide

theorem fails_query {α : Type} {f : Catalog → Except PgError α} :
    Fails Response.IsError (query f) := by
  unfold query
  exact Fails.onPart (Fails.onPart (Fails.mapErr fun _ => isError_internal))

theorem fails_insertAdminAuditSuccess {e : AuditEntry} :
    Fails Response.IsError (insertAdminAuditSuccess r e) := by
  unfold insertAdminAuditSuccess
  split
  · exact Fails.fail isError_internal
  · refine Fails.bind (Fails.mapErr fun _ => isError_internal) fun row => ?_
    split
    · exact Fails.pure ()
    · exact Fails.mapErr fun _ => isError_internal

/-- A listing of resources that does not succeed is answered with an error. -/
theorem fails_listTenantResources {id : Option UUID} :
    Fails Response.IsError (listTenantResources s r id reveal) := by
  refine Fails.bind (Fails.ofExcept fun e he => ?_) fun id => ?_
  · cases id with
    | none =>
      cases he
      exact show (400 : Int) ≤ 400 by decide
    | some id => cases he
  intro ts d e h
  obtain ⟨e', hinner, rfl⟩ := Tx.mapErr_eq_error.mp h
  refine Fails.bind (P := Response.IsError) ?_ (fun built => ?_) ts d e' hinner
  · refine Fails.bind fails_query fun headers => ?_
    split
    · exact Fails.pure _
    · exact Fails.onPart (Fails.onPart (Fails.mapErr fun _ => isError_internal))
  split
  · refine Fails.bind ?_ fun _ => Fails.pure _
    refine Fails.bind (Fails.draw isError_internal) fun _ => ?_
    refine Fails.bind (Fails.onPart fails_insertAdminAuditSuccess) fun _ => ?_
    exact Fails.bind (Fails.draw isError_internal) fun _ => Fails.pure _
  · exact Fails.pure _

end reads

section entitled

variable {x : Visit aead} {rows : List AdminSession} {p : AdminPrincipal}

/-- The caller has a permission that changes or secrets want: by a session that can be used, with a
role that has the permission and the proof that the request is the session's own, or by the shared
token where there are no sessions. -/
inductive Visit.May (x : Visit aead) (permission : AdminPermission) (rows : List AdminSession)
    (p : AdminPrincipal) : Prop
  | session (hoidc : x.oidc = true) (hbearer : x.head.bearer = "") {token : String}
      (hcookie : x.head.cookie = some token)
      {row : AdminSession} (hrow : row ∈ rows)
      (husable : Usable (hashCredential x.cfg.sha256 token) (timestamp x.now) row)
      {role : Role} {name : String} (hname : name ∈ row.roles) (hrole : roleNamed name = some role)
      (hpermission : permission ∈ permissionsByRole role)
      (horigin : sameRequestOrigin x.cfg x.head = true)
      (hcsrf : ValidateCSRF x.cfg.sha256 row.csrfTokenHash x.head.csrfToken)
      (hp : p.kind = .oidcUser ∧ p.issuer = trimSpace row.actorIssuer ∧
        p.subject = trimSpace row.actorSubject ∧
        p.sessionId = some row.id)
  | sharedToken (hoidc : x.oidc = false) (hbearer : x.head.bearer ≠ "")
      (hmatch : hashAPIKey x.cfg.sha256 x.head.bearer = x.cfg.adminTokenHash)
      (hp : p = sharedAdminPrincipal)

theorem Visit.May.not_breakGlass {permission : AdminPermission} (h : x.May permission rows p) :
    p.kind ≠ .breakGlass := by
  cases h with
  | session _ _ _ _ _ _ _ _ _ _ hp => simp [hp.1]
  | sharedToken _ _ _ hp => simp [hp, sharedAdminPrincipal]

/-- What the identity of a request's session is made of. -/
theorem requireAdminSession_ok {cfg : AdminConfig aead} {policy : Policy} {now : Nanoseconds}
    {head : RequestHead} (h : (requireAdminSession cfg policy now head rows).1 = .ok p) :
    ∃ token row roles, head.cookie = some token ∧ row ∈ rows ∧
      Usable (hashCredential cfg.sha256 token) (timestamp now) row ∧
      row.roles.mapM roleNamed = some roles ∧
      p.kind = .oidcUser ∧ p.issuer = trimSpace row.actorIssuer ∧
      p.subject = trimSpace row.actorSubject ∧
      p.sessionId = some row.id ∧ p.permissions = roles.eraseDups.flatMap permissionsByRole ∧
      p.csrfTokenHash = row.csrfTokenHash := by
  unfold requireAdminSession at h
  split at h
  · cases h
  next token hcookie =>
    split at h
    · cases h
    next identity rows' hauth =>
      split at h
      · cases h
      next value hvalue =>
        cases h
        obtain ⟨roles, hroles, hvalue⟩ := Option.bind_eq_some_iff.mp hvalue
        obtain ⟨v, hv, heq⟩ := Option.bind_eq_some_iff.mp hvalue
        cases heq
        unfold Adminauth.authenticate at hauth
        split at hauth
        · cases hauth
        split at hauth
        · cases hauth
        split at hauth
        · cases hauth
        next stored rows'' hstored =>
          obtain ⟨row, hrow, husable, rfl, -⟩ := authenticateSession_eq_some hstored
          have hidentity := (Prod.mk.inj hauth).1
          unfold identityFromSession at hidentity
          split at hidentity
          · cases hidentity
          next csrfToken hdecrypt =>
            cases hidentity
            unfold newOIDCPrincipal at hv
            split at hv
            · cases hv
            · cases hv
              exact ⟨token, row, roles, hcookie, hrow, husable, hroles, rfl,
                rfl, rfl, rfl, rfl, rfl⟩

theorem refusal_eq_ok {route : String} {answer : Except Response Unit} :
    refusal route answer = .ok () ↔ answer = .ok () := by
  cases answer <;> simp [refusal, Except.mapError]

theorem requireAdminPermission_ok {permission : AdminPermission}
    (h : requireAdminPermission permission p = .ok ()) : permission ∈ p.permissions := by
  unfold requireAdminPermission at h
  split at h
  next hmem => exact hmem
  · cases h

theorem Visit.authorize_ok (h : x.authorize p = .ok ()) :
    x.passGroup p = .ok () ∧ x.call.route.permission ∈ p.permissions ∧
    x.passSecrets p = .ok () := by
  obtain ⟨u, hgroup, h₁⟩ := bind_eq_ok.mp h
  obtain ⟨u, hroute, hsecrets⟩ := bind_eq_ok.mp h₁
  exact ⟨refusal_eq_ok.mp hgroup, requireAdminPermission_ok (refusal_eq_ok.mp hroute),
    refusal_eq_ok.mp hsecrets⟩

theorem Visit.passage_handled (h : x.passage rows = .handled p) :
    (x.identify rows).1 = .ok p ∧ x.authorize p = .ok () := by
  unfold Visit.passage at h
  split at h
  · cases h
  next q hidentify =>
    split at h
    · cases h
    next hauthorize =>
      cases h
      exact ⟨hidentify, hauthorize⟩

/-- The routes that write want a permission that not all have, and a method that wants a proof. -/
theorem Request.route_writes {r : Request} {route : Route} (h : r.route = some route) :
    route.permission ∉ [AdminPermission.adminRead, AdminPermission.auditRead] ∧
    route.method ∉ ["GET", "HEAD", "OPTIONS"] := by
  cases r <;> cases h <;> decide

/-- Who has passed the identity and the proof against cross-site requests, and has a permission
beyond reading. -/
theorem Visit.may {permission : AdminPermission} (hidentify : (x.identify rows).1 = .ok p)
    (hgroup : x.passGroup p = .ok ()) (hrequires : requiresCSRF x.head = true)
    (hpermission : permission ∈ p.permissions)
    (hbeyond : permission ∉ [AdminPermission.adminRead, AdminPermission.auditRead]) :
    x.May permission rows p := by
  unfold Visit.identify at hidentify
  split at hidentify
  next hoidc =>
    unfold requireAdminIdentity at hidentify
    split at hidentify
    next hbearer =>
      obtain ⟨token, row, roles, hcookie, hrow, husable, hroles, hkind, hissuer, hsubject, hsession,
          hpermissions, hhash⟩ :=
        requireAdminSession_ok hidentify
      rw [hpermissions] at hpermission
      obtain ⟨role, hrole, hpermission⟩ := List.mem_flatMap.mp hpermission
      obtain ⟨name, hname, hnamed⟩ := Table.exists_of_mem_mapM hroles (List.mem_eraseDups.mp hrole)
      rw [Visit.passGroup, if_pos hoidc, requireAdminCSRF, if_neg (by simp [hrequires]),
        if_neg (by simp [hkind])] at hgroup
      split at hgroup
      next hvalid =>
        exact .session hoidc hbearer hcookie hrow husable hname hnamed hpermission
          hvalid.2.1 (hhash ▸ hvalid.2.2)
          ⟨hkind, hissuer, hsubject, hsession⟩
      · cases hgroup
    split at hidentify
    · cases hidentify
      exact absurd hpermission hbeyond
    · cases hidentify
  next hoidc =>
    unfold requireAdminToken at hidentify
    split at hidentify
    · cases hidentify
    next hmatch =>
      cases hidentify
      obtain ⟨hbearer, hhash⟩ := not_or.mp hmatch
      exact .sharedToken (by simpa using hoidc) hbearer (not_not.mp hhash) rfl

/-- A request that writes is handled only for those who may. -/
theorem Visit.may_write {request : AdminRequest → Request} {route : Route}
    {sent : ∀ r, (request r).sender = some r} {routed : ∀ r, (request r).route = some route}
    (hcall : x.call = .write request route sent routed) (h : x.passage rows = .handled p) :
    x.May x.call.route.permission rows p := by
  obtain ⟨hidentify, hauthorize⟩ := Visit.passage_handled h
  obtain ⟨hgroup, hpermission, -⟩ := Visit.authorize_ok hauthorize
  have hroute : x.call.route = route := by rw [hcall, AdminCall.route]
  obtain ⟨hbeyond, hmethod⟩ := Request.route_writes (routed (x.request p))
  have hrequires : requiresCSRF x.head = true := by
    rw [← hroute, ← x.dispatched] at hmethod
    simp only [List.mem_cons, List.not_mem_nil, or_false] at hmethod
    rw [requiresCSRF, if_neg hmethod]
  exact Visit.may hidentify hgroup hrequires hpermission (hroute ▸ hbeyond)

/-- The request asks for the secrets of a tenant. -/
def Visit.AsksSecrets (x : Visit aead) : Prop :=
  (∃ id, x.call = .read (.listTenantResources id)) ∧ x.head.reveal = "true"

/-- Secrets are shown only to those who may see them. -/
theorem Visit.may_reveal (hasks : x.AsksSecrets) (h : x.passage rows = .handled p) :
    x.May .secretReveal rows p := by
  obtain ⟨hidentify, hauthorize⟩ := Visit.passage_handled h
  obtain ⟨hgroup, -, hsecrets⟩ := Visit.authorize_ok hauthorize
  obtain ⟨⟨id, hcall⟩, hreveal⟩ := hasks
  have hrequires : requiresCSRF x.head = true := by
    unfold requiresCSRF
    split
    · simp [hreveal]
    · rfl
  rw [Visit.passSecrets, hcall] at hsecrets
  simp only [requireSecretRevealPermission, hreveal, ne_eq, not_true_eq_false, if_false] at hsecrets
  exact Visit.may hidentify hgroup hrequires (requireAdminPermission_ok hsecrets) (by decide)

end entitled

section outcomes

variable {x : Visit aead} {p : AdminPrincipal} {d : Database} {w : AdminWorld}

/-- The call revokes a client that is revoked. -/
def Visit.RevokesAgain (x : Visit aead) (p : AdminPrincipal) (d : Database) : Prop :=
  ∃ request route sent routed, x.call = .write request route sent routed ∧
    (request (x.request p)).RevokesAgain d.domain

/-- What a handler has done: nothing, a change that it has told or that revokes a client again, or
the disclosure of secrets, which it has told. -/
inductive Visit.Handled (x : Visit aead) (p : AdminPrincipal) (d : Database)
    (o : Program.Outcome Response Database) : Prop
  | nothing (h : o.store = d)
  | wrote (hpermission : ∃ request route sent routed, x.call = .write request route sent routed)
      (hstatus : o.answer.status < 400)
      {row : AdminAuditEvent} (h : o.store.events.audit = d.events.audit ++ [row])
      (hrow : Tells p.toPrincipal row)
  | again (hpermission : ∃ request route sent routed, x.call = .write request route sent routed)
      (hstatus : o.answer.status < 400)
      (hagain : x.RevokesAgain p d) (h : o.store.events = d.events)
  | revealed (hasks : x.AsksSecrets) (hstatus : o.answer.status < 400)
      (hdomain : o.store.domain = d.domain)
      {row : AdminAuditEvent} (h : o.store.events.audit = d.events.audit ++ [row])
      (hrow : Tells p.toPrincipal row)

theorem Visit.handled (x : Visit aead) (p : AdminPrincipal) (d : Database) :
    x.Handled p d (x.handle p d) := by
  cases hcommitted : (x.handle p d).committed with
  | false => exact .nothing (transact_rolled_back hcommitted)
  | true =>
    obtain ⟨res, ts', h⟩ : ∃ res ts', x.call.handler x.cfg.toServer (x.request p)
      (x.head.reveal = "true") x.ticks d =
      .ok (res, ts', (x.handle p d).store) := transact_committed hcommitted
    have hanswer : (x.handle p d).answer = res := by
      rw [Visit.handle, transact, h]
    cases hcall : x.call with
    | write request route sent routed =>
      rw [hcall] at h
      obtain ⟨hstatus, ⟨hagain, hsame⟩ | ⟨row, hrow, htells⟩⟩ :=
        Request.tells (sent (x.request p)) rfl h
      · exact .again ⟨_, _, _, _, hcall⟩ (hanswer ▸ hstatus) ⟨_, _, _, _, hcall, hagain⟩ hsame
      · exact .wrote ⟨_, _, _, _, hcall⟩ (hanswer ▸ hstatus) hrow htells
    | read rd =>
      rw [hcall] at h
      by_cases hlist : ∃ id, rd = .listTenantResources id
      · obtain ⟨id, rfl⟩ := hlist
        obtain ⟨hstatus, hdomain, hmasked, hrevealed⟩ := listTenantResources_ok rfl h
        cases hreveal : decide (x.head.reveal = "true") with
        | false => exact .nothing (hmasked hreveal)
        | true =>
          obtain ⟨row, hrow, htells⟩ := hrevealed hreveal
          exact .revealed ⟨⟨id, hcall⟩, of_decide_eq_true hreveal⟩
            (hanswer ▸ hstatus) hdomain hrow htells
      · exact .nothing (AdminRead.handled (not_exists.mp hlist) h).2

theorem insertBestEffort_cases (arg : InsertAdminAuditEventParams) (t : Option Tick)
    (s : EventTables) :
    insertBestEffort arg t s = s ∨ ∃ tick, t = some tick ∧ insertBestEffort arg t s = { s with
      audit := s.audit ++ [auditRow arg tick] } := by
  unfold insertBestEffort
  split
  · exact .inl rfl
  next tick =>
    split
    next row s' hok =>
      obtain ⟨-, -, rfl⟩ := insertAdminAuditEvent_ok hok
      exact .inr ⟨tick, rfl, rfl⟩
    · exact .inl rfl

theorem auditOutcome_grows (capture : Option AdminPrincipal) (route : String) (status : Int)
    (s : EventTables) :
    ∃ rows, (x.auditOutcome capture route status s).audit = s.audit ++ rows := by
  have hbest : ∀ arg, ∃ rows, (insertBestEffort arg x.auditTick s).audit = s.audit ++ rows := by
    intro arg
    obtain hsame | ⟨tick, -, hrow⟩ := insertBestEffort_cases arg x.auditTick s
    · exact ⟨[], by rw [hsame, List.append_nil]⟩
    · exact ⟨[_], by rw [hrow]⟩
  unfold Visit.auditOutcome
  split
  · exact hbest _
  split
  · split
    · exact hbest _
    · exact ⟨[], (List.append_nil _).symm⟩
  · exact ⟨[], (List.append_nil _).symm⟩

/-- No request takes anything out of the audit log. -/
theorem Visit.audit_grows (x : Visit aead) (w : AdminWorld) :
    ∃ rows, (x.after w).database.events.audit = w.database.events.audit ++ rows := by
  unfold Visit.after Visit.serve
  cases hpassage : x.passage w.sessions with
  | refused capture res route => exact auditOutcome_grows capture route res.status w.database.events
  | handled p =>
    obtain ⟨rows, hrows⟩ :=
      auditOutcome_grows (x := x)
        (some p) x.call.route.pattern (x.handle p w.database).answer.status
      (x.handle p w.database).store.events
    obtain ⟨more, hmore⟩ : ∃ more, (x.handle p w.database).store.events.audit =
        w.database.events.audit ++ more := by
      cases x.handled p w.database with
      | nothing h => exact ⟨[], by rw [h, List.append_nil]⟩
      | wrote _ _ h _ => exact ⟨_, h⟩
      | again _ _ _ h => exact ⟨[], by rw [h, List.append_nil]⟩
      | revealed _ _ _ h _ => exact ⟨_, h⟩
    exact ⟨more ++ rows, by rw [hrows, hmore, List.append_assoc]⟩

/-- A request answered without an error adds nothing of its own, but for one of the break-glass
principal. -/
theorem auditOutcome_quiet {route : String} {status : Int} {s : EventTables}
    (hstatus : status < 400) (hp : p.kind ≠ .breakGlass) :
    x.auditOutcome (some p) route status s = s := by
  rw [Visit.auditOutcome, if_neg (not_le.mpr hstatus)]
  exact if_neg hp

/-- A request answered with an error is put down, whoever called. -/
theorem auditOutcome_failed {capture : Option AdminPrincipal} {route : String} {status : Int}
    {s : EventTables} (hstatus : 400 ≤ status) :
    x.auditOutcome capture route status s =
      insertBestEffort (x.failureParams capture route status) x.auditTick s := by
  unfold Visit.auditOutcome
  exact if_pos hstatus

/-- Who changes the domain may do so, and it is told. -/
theorem Visit.change_told (hne : (x.after w).database.domain ≠ w.database.domain) :
    ∃ p, x.May x.call.route.permission w.sessions p ∧ (x.RevokesAgain p w.database ∨
      ∃ row, (x.after w).database.events.audit = w.database.events.audit ++
      [row] ∧ Tells p.toPrincipal row) := by
  unfold Visit.after Visit.serve at hne ⊢
  cases hpassage : x.passage w.sessions with
  | refused capture res route => simp [hpassage] at hne
  | handled p =>
    simp only [hpassage] at hne ⊢
    cases x.handled p w.database with
    | nothing h => exact absurd (by rw [h]) hne
    | wrote hwrite hstatus h hrow =>
      obtain ⟨request, route, sent, routed, hcall⟩ := hwrite
      have hmay := Visit.may_write hcall hpassage
      exact ⟨p, hmay, .inr ⟨_, by rw [auditOutcome_quiet hstatus hmay.not_breakGlass, h], hrow⟩⟩
    | again hwrite hstatus hagain h =>
      obtain ⟨request, route, sent, routed, hcall⟩ := hwrite
      exact ⟨p, Visit.may_write hcall hpassage, .inl hagain⟩
    | revealed _ _ hdomain _ _ => exact absurd hdomain hne

/-- Who is known to call when a request is refused or handled. -/
def Visit.capture (x : Visit aead) (rows : List AdminSession) : Option AdminPrincipal :=
  (x.identify rows).1.toOption

theorem requireAdminIdentity_error {rows : List AdminSession} {res : Response}
    (h : (x.identify rows).1 = .error res) : res.status = 401 ∨ res.status = 403 := by
  unfold Visit.identify at h
  split at h
  · unfold requireAdminIdentity at h
    split at h
    · unfold requireAdminSession at h
      split at h
      · cases h
        exact .inl rfl
      split at h
      · cases h
        exact .inl rfl
      split at h
      · cases h
        exact .inr rfl
      · cases h
    split at h
    · cases h
    · cases h
      exact .inl rfl
  · unfold requireAdminToken at h
    split at h
    · cases h
      exact .inl rfl
    · cases h

theorem requireAdminPermission_error {permission : AdminPermission} {res : Response}
    (h : requireAdminPermission permission p = .error res) : res.status = 403 := by
  unfold requireAdminPermission at h
  split at h
  · cases h
  · cases h
    rfl

theorem refusal_eq_error {route route' : String} {answer : Except Response Unit} {res : Response} :
    refusal route answer = .error (res, route') ↔ answer = .error res ∧ route' = route := by
  cases answer <;> simp [refusal, Except.mapError, eq_comm]

theorem requireAdminCSRF_error {cfg : AdminConfig aead} {head : RequestHead} {res : Response}
    (h : requireAdminCSRF cfg head p = .error res) : res.status = 403 := by
  unfold requireAdminCSRF at h
  split at h
  · cases h
  split at h
  · cases h
  split at h
  · cases h
  · cases h
    rfl

theorem Visit.authorize_error {res : Response} {route : String}
    (h : x.authorize p = .error (res, route)) :
    res.status = 403 ∧ (route = groupPattern ∨ route = x.call.route.pattern) := by
  have hbind : ∀ {m : Except (Response × String) Unit}
    {f : Unit → Except (Response × String) Unit} {e},
      m >>= f = .error e → m = .error e ∨ f () = .error e := by
    intro m f e h
    cases m with
    | error e' => exact .inl h
    | ok u => exact .inr h
  rcases hbind h with hgroup | h₁
  · obtain ⟨hrefused, rfl⟩ := refusal_eq_error.mp hgroup
    refine ⟨?_, .inl rfl⟩
    unfold Visit.passGroup at hrefused
    split at hrefused
    · exact requireAdminCSRF_error hrefused
    · cases hrefused
  rcases hbind h₁ with hroute | hsecrets
  · obtain ⟨hrefused, rfl⟩ := refusal_eq_error.mp hroute
    exact ⟨requireAdminPermission_error hrefused, .inr rfl⟩
  · obtain ⟨hrefused, rfl⟩ := refusal_eq_error.mp hsecrets
    refine ⟨?_, .inr rfl⟩
    unfold Visit.passSecrets requireSecretRevealPermission at hrefused
    split at hrefused
    · split at hrefused
      · cases hrefused
      · exact requireAdminPermission_error hrefused
    · cases hrefused

/-- A request that is refused is one without a known caller or without a right. -/
theorem Visit.passage_refused {rows : List AdminSession} {capture : Option AdminPrincipal}
    {res : Response} {route : String} (h : x.passage rows = .refused capture res route) :
    (res.status = 401 ∨ res.status = 403) ∧ capture = x.capture rows ∧
      (route = groupPattern ∨ route = x.call.route.pattern) := by
  unfold Visit.passage at h
  split at h
  next res' hidentify =>
    cases h
    exact ⟨requireAdminIdentity_error hidentify, by rw [Visit.capture, hidentify]; rfl, .inl rfl⟩
  next q hidentify =>
    split at h
    next res' route' hauthorize =>
      cases h
      obtain ⟨hstatus, hroute⟩ := Visit.authorize_error hauthorize
      exact ⟨.inr hstatus, by rw [Visit.capture, hidentify]; rfl, hroute⟩
    · cases h

theorem Visit.capture_handled {rows : List AdminSession} (h : x.passage rows = .handled p) :
    x.capture rows = some p := by
  rw [Visit.capture, (Visit.passage_handled h).1]
  rfl

/-- A failure is put down in the audit log, and nowhere else. -/
def Visit.recordFailure (x : Visit aead) (capture : Option AdminPrincipal) (route : String)
    (status : Int) (d : Database) : Database :=
  { d with events := insertBestEffort (x.failureParams capture route status) x.auditTick d.events }

/-- A request that is refused or fails leaves all but the audit log as it was. -/
theorem Visit.failure (h : 400 ≤ (x.serve w).1.status) :
    ∃ route, (route = groupPattern ∨ route = x.call.route.pattern) ∧
    (x.after w).database =
      x.recordFailure (x.capture w.sessions) route (x.serve w).1.status w.database := by
  unfold Visit.after
  unfold Visit.serve at h ⊢
  cases hpassage : x.passage w.sessions with
  | refused capture res route =>
    simp only [hpassage] at h ⊢
    obtain ⟨-, rfl, hroute⟩ := Visit.passage_refused hpassage
    exact ⟨route, hroute, by rw [auditOutcome_failed h, Visit.recordFailure]⟩
  | handled p =>
    simp only [hpassage] at h ⊢
    refine ⟨_, .inr rfl, ?_⟩
    rw [Visit.capture_handled hpassage, auditOutcome_failed h, Visit.recordFailure]
    cases x.handled p w.database with
    | nothing hsame => rw [hsame]
    | wrote _ hstatus _ _ => exact absurd h (not_le.mpr hstatus)
    | again _ hstatus _ _ => exact absurd h (not_le.mpr hstatus)
    | revealed _ hstatus _ _ _ => exact absurd h (not_le.mpr hstatus)

/-- The identifier of the request and whoever is named for it fit the indexes of the log. -/
structure Visit.Indexed (x : Visit aead) (w : AdminWorld) (rules : TextRules) : Prop where
  short : rules.TakesShort
  requestId : rules.fits [x.head.requestId] = true
  actor : ∀ actor, actor = x.failureActor (x.capture w.sessions) →
    rules.fits (actor.kind :: (actor.issuer.toList ++ [actor.subject])) = true

/-- The database takes the row of `AuditAdminFailures`. -/
structure Visit.Recorded (x : Visit aead) (w : AdminWorld) (t : Tick) : Prop where
  identified : x.head.requestId ≠ ""
  status : (x.serve w).1.status ≤ 599
  taken : x.auditTick = some t
  fresh : ∀ e ∈ w.database.events.audit, ¬(e.occurredAt = t.clock ∧ e.id = t.ids 0)
  indexed : x.Indexed w t.rules

theorem Visit.capture_issuer {rows : List AdminSession} (h : x.capture rows = some p) :
    p.kind = .oidcUser ↔ p.issuer ≠ "" := by
  unfold Visit.capture at h
  cases hidentify : (x.identify rows).1 with
  | error res => simp [hidentify, Except.toOption] at h
  | ok q =>
    simp only [hidentify, Except.toOption, Option.some.injEq] at h
    subst h
    unfold Visit.identify at hidentify
    split at hidentify
    · exact requireAdminIdentity_issuer hidentify
    · exact requireAdminToken_issuer hidentify

/-- Rows of failures meet the constraints of their table. -/
theorem Visit.failureParams_ok {route : String} {status : Int} {rows : List AdminSession}
    (hid : x.head.requestId ≠ "") (hlo : 400 ≤ status) (hhi : status ≤ 599) :
    AuditOk (x.failureParams (x.capture rows) route status) := by
  have hstatus : (Int16.ofInt status).toInt = status := by
    have hsize : (Int16.size : Int) = 65536 := rfl
    rw [Int16.toInt_ofInt]
    exact Int.bmod_eq_of_le (by omega) (by omega)
  have hactor : (x.failureActor (x.capture rows)).kind ∈ ["shared_admin_token", "break_glass",
    "oidc_user", "unauthenticated"] ∧
      ((x.failureActor (x.capture rows)).kind = "oidc_user" ↔
        (x.failureActor (x.capture rows)).issuer.isSome) := by
    cases hcapture : x.capture rows with
    | none =>
      unfold Visit.failureActor
      dsimp only
      split <;> simp
    | some p =>
      have hissuer := Visit.capture_issuer hcapture
      simp only [Visit.failureActor, Principal.actor, optionalString]
      cases hkind : p.kind <;> simp_all [PrincipalKind.text]
  have hmetadata : octetLength (Json.obj []).text ≤ 8192 := by decide
  have hrow : ∀ action result, action ≠ "" → result ∈ ["success", "denied", "error"] →
      AuditOk (x.outcomeParams (x.failureActor (x.capture rows)) action result route status) := by
    intro action result haction hresult
    refine ⟨hid, hactor.1, haction, show "admin_route" ≠ "" by decide, hresult, ?_,
      ?_, hmetadata, hactor.2⟩
    · simp only [Visit.outcomeParams, hstatus]
      omega
    · simp only [Visit.outcomeParams, hstatus]
      omega
  unfold Visit.failureParams
  split
  · exact hrow _ _ (by decide) (by decide)
  · exact hrow _ _ (by decide) (by decide)

/-- The patterns of the routes are short. -/
theorem AdminCall.pattern_short (c : AdminCall) : octetLength c.route.pattern ≤ 128 := by
  cases c with
  | write request route sent routed =>
    have hrouted := routed ⟨"", none, "", none⟩
    revert hrouted
    generalize request ⟨"", none, "", none⟩ = r
    intro hrouted
    show octetLength route.pattern ≤ 128
    cases r <;> cases hrouted <;> decide
  | read r =>
    cases r <;> simp only [AdminCall.route, AdminRead.route] <;> decide

/-- Rows of failures have their entries in the indexes where the request and whoever is named do. -/
theorem Visit.failureParams_indexed {rules : TextRules} {route : String} {status : Int}
    (hx : x.Indexed w rules) (hroute : route = groupPattern ∨ route = x.call.route.pattern) :
    AuditIndexed rules (x.failureParams (x.capture w.sessions) route status) := by
  have hpattern : octetLength route ≤ 128 := by
    rcases hroute with rfl | rfl
    · decide
    · exact x.call.pattern_short
  have htarget : rules.fits ["admin_route", route] = true := by
    refine hx.short _ ?_
    have hroute : octetLength "admin_route" = 11 := by decide
    simp only [List.map_cons, List.map_nil, List.sum_cons, List.sum_nil, hroute]
    omega
  have hrow : ∀ action result, ([action, result].map octetLength).sum ≤ 2600 →
      AuditIndexed rules (x.outcomeParams (x.failureActor (x.capture w.sessions)) action
        result route status) := by
    intro action result hshort texts htexts
    simp only [auditIndexTexts, Visit.outcomeParams, List.mem_cons,
      List.not_mem_nil, or_false] at htexts
    rcases htexts with rfl | rfl | rfl | rfl
    · exact hx.requestId
    · exact htarget
    · exact hx.actor _ rfl
    · exact hx.short _ hshort
  unfold Visit.failureParams
  split
  · exact hrow _ _ (by decide)
  · exact hrow _ _ (by decide)

/-- A listing that reveals secrets is answered with an error, or commits. -/
theorem Visit.secrets_committed (hasks : x.AsksSecrets) (hok : (x.handle p d).answer.status < 400) :
    (x.handle p d).store.domain = d.domain ∧
      ∃ row, (x.handle p d).store.events.audit = d.events.audit ++
      [row] ∧ Tells p.toPrincipal row := by
  obtain ⟨⟨id, hcall⟩, hreveal⟩ := hasks
  have hhandle : x.handle p d =
      transact (listTenantResources x.cfg.toServer (x.request p) id (x.head.reveal = "true"))
        x.ticks d := by
    rw [Visit.handle, hcall]
    rfl
  rw [hhandle] at hok ⊢
  cases hrun : listTenantResources x.cfg.toServer (x.request p) id (x.head.reveal =
    "true") x.ticks d with
  | error res =>
    have herror : res.IsError := fails_listTenantResources _ _ _ hrun
    rw [transact, hrun] at hok
    exact absurd herror (not_le.mpr hok)
  | ok o =>
    obtain ⟨res, ts', d'⟩ := o
    rw [transact_of_ok hrun]
    obtain ⟨-, hdomain, -, htold⟩ := listTenantResources_ok rfl hrun
    exact ⟨hdomain, htold (decide_eq_true hreveal)⟩

/-- Who is shown secrets may see them, and it is told. -/
theorem Visit.secrets_told (hasks : x.AsksSecrets) (hok : (x.serve w).1.status < 400) :
    ∃ p, x.May .secretReveal w.sessions p ∧
    ∃ row, (x.after w).database.events.audit = w.database.events.audit ++
    [row] ∧ Tells p.toPrincipal row := by
  unfold Visit.after
  unfold Visit.serve at hok ⊢
  cases hpassage : x.passage w.sessions with
  | refused capture res route =>
    simp only [hpassage] at hok
    obtain ⟨hstatus | hstatus, -, -⟩ := Visit.passage_refused hpassage <;> omega
  | handled p =>
    simp only [hpassage] at hok ⊢
    have hmay := Visit.may_reveal hasks hpassage
    obtain ⟨-, row, hrow, htells⟩ := Visit.secrets_committed hasks hok
    exact ⟨p, hmay, row, by rw [auditOutcome_quiet hok hmay.not_breakGlass, hrow], htells⟩

theorem insertBestEffort_recorded {arg : InsertAdminAuditEventParams} {t : Tick} {s : EventTables}
    (harg : AuditOk arg) (hfresh : ∀ e ∈ s.audit, ¬(e.occurredAt = t.clock ∧ e.id = t.ids 0))
    (hindexed : AuditIndexed t.rules arg) :
    insertBestEffort arg (some t) s = { s with audit := s.audit ++ [auditRow arg t] } := by
  have hinsert : insertAdminAuditEvent arg t s = .ok (auditRow arg t, { s with
    audit := s.audit ++ [auditRow arg t] }) := by
    unfold insertAdminAuditEvent
    rw [if_neg (not_not.mpr harg), if_neg (by simpa using hfresh), if_neg (not_not.mpr hindexed)]
    rfl
  rw [insertBestEffort, hinsert]

/-- To find out who calls touches the session of the caller and no other. -/
theorem Visit.sessionsKept (x : Visit aead) (u : AdminWorld) :
    SessionsKept x.cfg.sha256 x.head u.sessions (x.after u).sessions := by
  have hafter : (x.after u).sessions = (x.identify u.sessions).2 := by
    unfold Visit.after Visit.serve
    cases x.passage u.sessions <;> rfl
  rw [hafter, Visit.identify]
  split
  · exact sessionsKept_requireAdminIdentity
  · exact .refl _ _ _

/-- What the log has of a request: it keeps what it had before the request, tells of each change and
each disclosure, and who was entitled to it, and of a request that was refused or failed. Whatever
becomes of the request, the session of the caller may be touched. -/
structure Visit.Accounted (x : Visit aead) (u : AdminWorld) (log : List AdminAuditEvent) :
    Prop where
  kept : u.database.events.audit <+: log
  sessions : SessionsKept x.cfg.sha256 x.head u.sessions (x.after u).sessions
  changed : (x.after u).database.domain ≠ u.database.domain → ∃ p,
    x.May x.call.route.permission u.sessions p ∧
    (x.RevokesAgain p u.database ∨ ∃ row, log[u.database.events.audit.length]? = some row ∧
      Tells p.toPrincipal row)
  revealed : x.AsksSecrets → (x.serve u).1.status < 400 → ∃ p, x.May .secretReveal u.sessions p ∧
    ∃ row, log[u.database.events.audit.length]? = some row ∧ Tells p.toPrincipal row
  failed : 400 ≤ (x.serve u).1.status → ∃ route,
    (route = groupPattern ∨ route = x.call.route.pattern) ∧
    (x.after u).database =
      x.recordFailure (x.capture u.sessions) route (x.serve u).1.status u.database ∧
    ∀ t, x.Recorded u t → log[u.database.events.audit.length]? =
      some (auditRow (x.failureParams (x.capture u.sessions) route (x.serve u).1.status) t)

theorem Visit.accounted {log : List AdminAuditEvent} (x : Visit aead) (u : AdminWorld)
    (hlog : (x.after u).database.events.audit <+: log) : x.Accounted u log where
  kept := by
    obtain ⟨rows, hrows⟩ := x.audit_grows u
    exact (hrows ▸ List.prefix_append _ _).trans hlog
  sessions := x.sessionsKept u
  changed hne := by
    obtain ⟨p, hmay, hagain | ⟨row, hrow, htells⟩⟩ := Visit.change_told hne
    · exact ⟨p, hmay, .inl hagain⟩
    · exact ⟨p, hmay, .inr ⟨row, Table.getElem?_of_prefix (hrow ▸ hlog), htells⟩⟩
  revealed hasks hok := by
    obtain ⟨p, hmay, row, hrow, htells⟩ := Visit.secrets_told hasks hok
    exact ⟨p, hmay, row, Table.getElem?_of_prefix (hrow ▸ hlog), htells⟩
  failed hstatus := by
    obtain ⟨route, hroute, hafter⟩ := Visit.failure hstatus
    refine ⟨route, hroute, hafter, fun t ht => Table.getElem?_of_prefix ?_⟩
    rw [hafter, Visit.recordFailure, ht.taken,
      insertBestEffort_recorded (Visit.failureParams_ok ht.identified hstatus ht.status) ht.fresh
        (Visit.failureParams_indexed ht.indexed hroute)] at hlog
    exact hlog

/-- Where a row of the log comes from: the success of one who was entitled, a failure, or an answer
to the break-glass principal. -/
inductive Visit.Entered (x : Visit aead) (u : AdminWorld) (row : AdminAuditEvent) : Prop
  | success {p : AdminPrincipal} {permission : AdminPermission}
      (hmay : x.May permission u.sessions p)
      (hpermission : permission = x.call.route.permission ∨
        permission = .secretReveal ∧ x.AsksSecrets)
      (hstatus : (x.serve u).1.status < 400) (hrow : Tells p.toPrincipal row)
  | failure {route : String} {t : Tick} (hstatus : 400 ≤ (x.serve u).1.status)
      (hrow : row = auditRow (x.failureParams (x.capture u.sessions) route (x.serve u).1.status) t)
  | breakGlass {p : AdminPrincipal} {route : String} {t : Tick}
      (hcapture : x.capture u.sessions = some p)
      (hkind : p.kind = .breakGlass) (hdomain : (x.after u).database.domain = u.database.domain)
      (hrow : row = auditRow (x.breakGlassParams p route (x.serve u).1.status) t)

/-- What `AuditAdminFailures` adds. -/
theorem auditOutcome_cases (capture : Option AdminPrincipal) (route : String) (status : Int)
    (s : EventTables) : x.auditOutcome capture route status s = s ∨
    (400 ≤ status ∧ ∃ t, (x.auditOutcome capture route status s).audit = s.audit ++
      [auditRow (x.failureParams capture route status) t]) ∨
    ∃ p t, capture = some p ∧ p.kind = .breakGlass ∧
      (x.auditOutcome capture route status s).audit = s.audit ++
      [auditRow (x.breakGlassParams p route status) t] := by
  by_cases hstatus : 400 ≤ status
  · rw [auditOutcome_failed hstatus]
    obtain hsame | ⟨t, -, hrow⟩ :=
      insertBestEffort_cases (x.failureParams capture route status) x.auditTick s
    · exact .inl hsame
    · exact .inr (.inl ⟨hstatus, t, by rw [hrow]⟩)
  · unfold Visit.auditOutcome
    rw [if_neg hstatus]
    cases capture with
    | none => exact .inl rfl
    | some p =>
      by_cases hkind : p.kind = .breakGlass
      · dsimp only
        rw [if_pos hkind]
        obtain hsame | ⟨t, -, hrow⟩ :=
          insertBestEffort_cases (x.breakGlassParams p route status) x.auditTick s
        · exact .inl hsame
        · exact .inr (.inr ⟨p, t, rfl, hkind, by rw [hrow]⟩)
      · exact .inl (if_neg hkind)

/-- A row that a request adds comes from it. -/
theorem Visit.entered {row : AdminAuditEvent} {rows : List AdminAuditEvent}
    (hrows : (x.after w).database.events.audit = w.database.events.audit ++ rows)
    (hrow : row ∈ rows) : x.Entered w row := by
  cases hpassage : x.passage w.sessions with
  | refused capture res route =>
    obtain ⟨hstatus, hcapture, -⟩ := Visit.passage_refused hpassage
    have hserve : x.serve w = (res, ⟨{ w.database with
      events := x.auditOutcome capture route res.status w.database.events },
        (x.identify w.sessions).2⟩) := by
      unfold Visit.serve
      simp only [hpassage]
    have herror : 400 ≤ res.status := by omega
    rw [Visit.after, hserve, auditOutcome_failed herror] at hrows
    obtain hsame | ⟨t, -, hadded⟩ :=
      insertBestEffort_cases (x.failureParams capture route res.status)
        x.auditTick w.database.events
    · rw [hsame] at hrows
      rw [List.self_eq_append_right.mp hrows] at hrow
      cases hrow
    · rw [hadded] at hrows
      obtain rfl := List.append_cancel_left hrows
      have hfailed : 400 ≤ (x.serve w).1.status := by
        rw [hserve]
        exact herror
      have hfrom : row =
          auditRow (x.failureParams (x.capture w.sessions) route (x.serve w).1.status) t := by
        rw [List.mem_singleton.mp hrow, hserve, hcapture]
      exact .failure hfailed hfrom
  | handled p =>
    have hcapture := Visit.capture_handled hpassage
    have hserve : x.serve w = ((x.handle p w.database).answer, ⟨{ (x.handle p w.database).store with
        events := x.auditOutcome (some p) x.call.route.pattern (x.handle p w.database).answer.status
          (x.handle p w.database).store.events }, (x.identify w.sessions).2⟩) := by
      unfold Visit.serve
      simp only [hpassage]
    have hdomain : (x.after w).database.domain = (x.handle p w.database).store.domain := by
      rw [Visit.after, hserve]
    rw [Visit.after, hserve] at hrows
    dsimp only at hrows
    cases x.handled p w.database with
    | nothing hnone =>
      obtain hsame | ⟨herror, t, hadded⟩ | ⟨q, t, hq, hkind, hadded⟩ :=
        auditOutcome_cases (x := x) (some p) x.call.route.pattern
        (x.handle p w.database).answer.status (x.handle p w.database).store.events
      · rw [hsame, hnone] at hrows
        rw [List.self_eq_append_right.mp hrows] at hrow
        cases hrow
      · rw [hadded, hnone] at hrows
        obtain rfl := List.append_cancel_left hrows
        exact .failure (t := t) (by rw [hserve]; exact herror)
          (by rw [List.mem_singleton.mp hrow, hserve, hcapture])
      · rw [hadded, hnone] at hrows
        obtain rfl := List.append_cancel_left hrows
        obtain rfl := Option.some.inj hq
        exact .breakGlass (t := t) hcapture hkind (by rw [hdomain, hnone])
          (by rw [List.mem_singleton.mp hrow, hserve])
    | wrote hwrite hstatus h htells =>
      obtain ⟨request, route, sent, routed, hcall⟩ := hwrite
      have hmay := Visit.may_write hcall hpassage
      rw [auditOutcome_quiet hstatus hmay.not_breakGlass, h] at hrows
      obtain rfl := List.append_cancel_left hrows
      rw [← List.mem_singleton.mp hrow] at htells
      exact .success hmay (.inl rfl) (by rw [hserve]; exact hstatus) htells
    | again hwrite hstatus hagain h =>
      obtain ⟨request, route, sent, routed, hcall⟩ := hwrite
      have hmay := Visit.may_write hcall hpassage
      rw [auditOutcome_quiet hstatus hmay.not_breakGlass, h] at hrows
      rw [List.self_eq_append_right.mp hrows] at hrow
      cases hrow
    | revealed hasks hstatus _ h htells =>
      have hmay := Visit.may_reveal hasks hpassage
      rw [auditOutcome_quiet hstatus hmay.not_breakGlass, h] at hrows
      obtain rfl := List.append_cancel_left hrows
      rw [← List.mem_singleton.mp hrow] at htells
      exact .success hmay (.inr ⟨rfl, hasks⟩) (by rw [hserve]; exact hstatus) htells

end outcomes

section runs

open Runs

variable {w₀ u w : AdminWorld} {xs zs : List (Visit aead)}

theorem audit_grows_run (h : Run Visit.Step u zs w) :
    u.database.events.audit <+: w.database.events.audit := by
  induction h with
  | nil => exact List.prefix_refl _
  | cons hstep _ ih =>
    obtain rfl : _ = _ := hstep
    obtain ⟨rows, hrows⟩ := Visit.audit_grows _ _
    exact (hrows ▸ List.prefix_append _ _).trans ih

/-- Where every row of the log comes from that was not in it before the run. -/
theorem entered_run (h : Run Visit.Step w₀ xs w) :
    ∃ rows, w.database.events.audit = w₀.database.events.audit ++ rows ∧
    ∀ row ∈ rows, ∃ ys x zs u, xs = ys ++ x :: zs ∧ Run Visit.Step w₀ ys u ∧ x.Entered u row := by
  refine h.history (P := fun xs w => ∃ rows, w.database.events.audit =
    w₀.database.events.audit ++ rows ∧
    ∀ row ∈ rows, ∃ ys x zs u, xs = ys ++ x :: zs ∧ Run Visit.Step w₀ ys u ∧ x.Entered u row) ?_ ?_
  · exact ⟨[], (List.append_nil _).symm, fun _ hrow => nomatch hrow⟩
  · intro ls u x t hls ih hx
    obtain rfl : t = x.after u := hx
    obtain ⟨rows, hrows, hfrom⟩ := ih
    obtain ⟨more, hmore⟩ := x.audit_grows u
    refine ⟨rows ++ more, by rw [hmore, hrows, List.append_assoc], fun row hrow => ?_⟩
    rcases List.mem_append.mp hrow with hold | hnew
    · obtain ⟨ys, y, zs, v, rfl, hys, hy⟩ := hfrom row hold
      exact ⟨ys, y, zs ++ [x], v, by simp, hys, hy⟩
    · exact ⟨ls, x, [], u, rfl, hls, Visit.entered hmore hnew⟩

/-- A definition is made with the shared token. -/
def sampleDefine : Visit Aead.tagged where
  cfg := sampleConfig
  oidc := false
  policy := none
  now := 0
  head := ⟨"req-1", "POST", "token", none, "", "", "", ""⟩
  idempotencyKey := none
  call :=
    .write (fun r => .createDefinition r (.ok ⟨"db", "DB", "", ""⟩)) ⟨"POST",
      "/v1/admin/resource-definitions", .resourceWrite⟩
    (fun _ => rfl) (fun _ => rfl)
  dispatched := rfl
  ticks := ticksFrom 0 18
  auditTick := (ticksFrom 20 1).head?

/-- A stranger tries the same. -/
def sampleStranger : Visit Aead.tagged :=
  { sampleDefine with
    head := ⟨"req-2", "POST", "guess", none, "", "", "", ""⟩, ticks := ticksFrom 30 18, auditTick :=
      (ticksFrom 50 1).head? }

end runs

end Tenancit.Httpapi
