import Tenancit.Httpapi.ResolveTag

/-!
What a committed request leaves in the audit log and in the outbox. A published action
leaves one row in each; an action that is not in the table of published actions, a
consumer's write and the revocation of a revoked client leave no event.
-/
namespace Tenancit.Httpapi

open Encoding Crypto Store Service Queries
open Program

/-- The outbox row publishes the audited action. -/
def Publishes (a : AdminAuditEvent) (o : OutboxEvent) : Prop :=
  ∃ draft, Events.fromAudit a.action a.targetType a.targetId =
    some draft ∧ o.eventType = draft.type ∧
    o.eventVersion = draft.version ∧ o.aggregateType = draft.aggregateType ∧
    o.aggregateId = draft.aggregateId ∧
    o.payload = draft.payload ∧ o.requestId = a.requestId

/-- The action a handler audits. -/
def Request.auditAction : Request → Option String
  | .createTenant .. => some "tenant.created"
  | .updateTenant .. => some "tenant.updated"
  | .deleteTenant .. => some "tenant.deleted"
  | .addDomain .. => some "domain.added"
  | .updateDomain .. => some "domain.updated"
  | .deleteDomain .. => some "domain.deleted"
  | .createResource .. => some "resource.provisioned"
  | .updateResourceIdentity .. => some "resource.updated"
  | .duplicateResource .. => some "resource.duplicated"
  | .setResourceStatus .. => some "resource.status_changed"
  | .updateResourceField .. => some "resource.field_updated"
  | .clearResourceFieldOverride .. => some "resource.field_override_cleared"
  | .deleteResource .. => some "resource.deleted"
  | .createDefinition .. => some "definition.created"
  | .updateDefinition .. => some "definition.updated"
  | .setDefinitionStatus .. => some "definition.status_changed"
  | .deleteDefinition .. => some "definition.deleted"
  | .addField .. => some "definition.field_added"
  | .updateField .. => some "definition.field_updated"
  | .deleteField .. => some "definition.field_deleted"
  | .createAPIClient .. => some "api_client.created"
  | .updateAPIClient .. => some "api_client.policy_updated"
  | .rotateAPIClient .. => some "api_client.rotated"
  | .revokeAPIClient .. => some "api_client.revoked"
  | .deleteAPIClient .. => some "api_client.deleted"
  | .consumerWriteValue .. => none

/-- Exactly one audit row, of the request's action, and exactly one outbox row, which
publishes it, were added. -/
def RecordedOnce (x : Request) (d d' : Database) : Prop :=
  ∃ a o, d'.events.audit = d.events.audit ++ [a] ∧ d'.events.outbox = d.events.outbox ++ [o] ∧
    x.auditAction = some a.action ∧ Publishes a o

/-- The request is one of those whose commit is audited and published: not a write of a
value, the clearing of one, a duplication, nor the revocation of a revoked client. -/
def Request.Published (d : Database) : Request → Prop
  | .updateResourceField .. => False
  | .clearResourceFieldOverride .. => False
  | .duplicateResource .. => False
  | .consumerWriteValue .. => False
  | .revokeAPIClient _ (some id) =>
    ∀ c, Table.lookup ApiClient.id id d.domain.clients.clients = some c → c.status ≠ .revoked
  | _ => True

section success

variable {r : AdminRequest} {e : AuditEntry} {ts ts' : List Tick} {s s' : EventTables}

/-- What `insertAdminAuditSuccess` adds. -/
theorem insertAdminAuditSuccess_ok (h : insertAdminAuditSuccess r e ts s = .ok ((), ts', s')) :
    ∃ a, s'.audit = s.audit ++ [a] ∧ a.action = e.action ∧
      (Events.fromAudit e.action e.targetType e.targetId = none → s'.outbox = s.outbox) ∧
      (Events.fromAudit e.action e.targetType e.targetId ≠ none → ∃ o, s'.outbox = s.outbox ++
        [o] ∧ Publishes a o) := by
  unfold insertAdminAuditSuccess at h
  cases hp : r.principal with
  | none => simp [hp] at h
  | some actor =>
    simp only [hp] at h
    obtain ⟨t, ts₁, a, s₁, rfl, haudit, h₁⟩ := Tx.statement_bind_eq_ok.mp h
    obtain ⟨-, rfl, rfl⟩ := insertAdminAuditEvent_ok haudit
    cases hdraft : Events.fromAudit e.action e.targetType e.targetId with
    | none =>
      rw [hdraft] at h₁
      cases Tx.pure_eq_ok.mp h₁
      exact ⟨_, rfl, rfl, fun _ => rfl, fun hne => absurd rfl hne⟩
    | some draft =>
      rw [hdraft] at h₁
      obtain ⟨o, ts₂, s₂, hinsert, h₂⟩ := Tx.bind_eq_ok.mp (Tx.mapErr_eq_ok.mp h₁)
      obtain ⟨t₂, -, hinsert⟩ := Tx.statement_eq_ok.mp hinsert
      simp only [insertOutboxEvent, ite_error_eq_ok, Except.ok.injEq, Prod.mk.injEq] at hinsert
      obtain ⟨-, -, rfl, rfl⟩ := hinsert
      obtain ⟨t₃, -, henqueue⟩ := Tx.statement_eq_ok.mp h₂
      simp only [enqueueOutboxDeliveries, ite_error_eq_ok, Except.ok.injEq,
        Prod.mk.injEq] at henqueue
      obtain ⟨-, -, -, rfl⟩ := henqueue
      exact ⟨_, rfl, rfl, fun hne => by simp at hne, fun _ =>
        ⟨_, rfl, draft, hdraft, rfl, rfl, rfl, rfl, rfl, rfl⟩⟩

end success

variable {Key : Type} {aead : Aead Key} {α : Type} {r : AdminRequest}
  {change : Timestamp → Tx Domain Response α} {audit : α → Option AuditEntry}
  {ticks ts' : List Tick} {d d' : Database} {x : Request}

theorem fromAudit_eq_none {action targetType targetId : String} :
    Events.fromAudit action targetType targetId = none ↔
    Events.publishedActions.lookup action = none := by
  simp [Events.fromAudit]

/-- A committed mutation that audits a published action is recorded once. -/
theorem Commits.recorded (h : Commits r change audit ticks d d') (action : String)
    (haction : x.auditAction = some action)
    (haudit : ∀ a, ∃ e, audit a = some e ∧ e.action = action)
    (hpublished : Events.publishedActions.lookup action ≠ none) : RecordedOnce x d d' := by
  obtain ⟨begun, pre, a, ts, ts₁, ts₂, -, -, -, hevents⟩ := h
  obtain ⟨e, he, rfl⟩ := haudit a
  rw [he] at hevents
  obtain ⟨row, hrow, hact, -, hout⟩ := insertAdminAuditSuccess_ok hevents
  obtain ⟨o, ho, hpub⟩ := hout (fun hne => hpublished (fromAudit_eq_none.mp hne))
  exact ⟨row, o, hrow, ho, hact ▸ haction, hpub⟩

/-- A committed mutation whose action is not published adds no event. -/
theorem Commits.unpublished (h : Commits r change audit ticks d d') (action : String)
    (haudit : ∀ a e, audit a = some e → e.action = action)
    (hnone : Events.publishedActions.lookup action = none) :
    d'.events.outbox = d.events.outbox := by
  obtain ⟨begun, pre, a, ts, ts₁, ts₂, -, -, -, hevents⟩ := h
  cases he : audit a with
  | none =>
    rw [he] at hevents
    have hsame := Tx.pure_eq_ok.mp hevents
    simp only [Prod.mk.injEq] at hsame
    rw [hsame.2.2]
  | some e =>
    rw [he] at hevents
    obtain ⟨row, -, -, hout, -⟩ := insertAdminAuditSuccess_ok hevents
    exact hout (fromAudit_eq_none.mpr (haudit a e he ▸ hnone))

theorem not_recordedOnce (h : d'.events.outbox = d.events.outbox) : ¬RecordedOnce x d d' := by
  rintro ⟨a, o, -, ho, -⟩
  simp [h] at ho

/-- The revocation of a client is audited unless the client is revoked. -/
theorem Commits.revoke {id : UUID} {act : ApiClient × ApiClient → Option AuditEntry}
    (h : Commits r (fun _ => onClients (Change.revokeAPIClient id)) act ticks d d') :
    ∃ a ts ts', Table.lookup ApiClient.id id d.domain.clients.clients = some a.1 ∧
      auditChange insertAdminAuditSuccess r (act a) ts d.events = .ok ((), ts', d'.events) := by
  obtain ⟨begun, pre, a, ts, ts₁, ts₂, -, -, hchange, hevents⟩ := h
  obtain ⟨cl, hrevoke, -⟩ := Tx.onPart_eq_ok.mp hchange
  obtain ⟨t, ts₃, current, rfl, hcurrent, h₁⟩ := Tx.query_bind_eq_ok.mp hrevoke
  obtain ⟨t₁, ts₄, revoked, cl₁, rfl, -, h₂⟩ := Tx.statement_bind_eq_ok.mp h₁
  have heq := Tx.pure_eq_ok.mp h₂
  simp only [Prod.mk.injEq] at heq
  exact ⟨a, ts₁, ts₂, by rw [heq.1]; exact one_eq_ok.mp hcurrent, hevents⟩

/-- A committed revocation is recorded once if the client was not revoked, and else adds nothing. -/
theorem recorded_revokeAPIClient {id : Option UUID} {res : Response}
    (h : Httpapi.revokeAPIClient insertAdminAuditSuccess r id ticks d = .ok (res, ts', d')) :
    RecordedOnce (.revokeAPIClient r id) d d' ↔ (Request.revokeAPIClient r id).Published d := by
  obtain ⟨id', hid, h₁⟩ := Tx.ofExcept_bind_eq_ok.mp h
  obtain rfl := parse_eq_ok.mp hid
  obtain ⟨a, ts, ts₁, hrow, hevents⟩ := (auditedMutation_ok (fun _ => reads_scopes) h₁).revoke
  cases hs : a.1.status with
  | active =>
    rw [if_neg (by simp [hs])] at hevents
    obtain ⟨row, hrow', hact, -, hout⟩ := insertAdminAuditSuccess_ok hevents
    have hpublished : Events.publishedActions.lookup "api_client.revoked" ≠ none := by decide
    obtain ⟨o, ho, hpub⟩ := hout fun hne => hpublished (fromAudit_eq_none.mp hne)
    refine iff_of_true ⟨row, o, hrow', ho, by rw [hact]; rfl, hpub⟩ fun c hc => ?_
    rw [hrow] at hc
    cases hc
    simp [hs]
  | revoked =>
    rw [if_pos hs] at hevents
    have hsame := Tx.pure_eq_ok.mp hevents
    simp only [Prod.mk.injEq] at hsame
    exact iff_of_false (not_recordedOnce (by rw [hsame.2.2])) fun hpub => hpub a.1 hrow hs

/-- A committed request is recorded once exactly if it is one of those that are published. -/
theorem Request.recorded {s : Server aead} {res : Response}
    (h : x.handler s ticks d = .ok (res, ts', d')) : RecordedOnce x d d' ↔ x.Published d := by
  cases x with
  | createTenant r body =>
    obtain ⟨b, -, h₁⟩ := Tx.ofExcept_bind_eq_ok.mp h
    obtain ⟨request, -, h₂⟩ := Tx.ofExcept_bind_eq_ok.mp h₁
    exact iff_of_true ((idempotentMutation_ok (fun _ => Reads.pure _) h₂).recorded _
      rfl (fun a => ⟨_, rfl, rfl⟩)
      (by decide)) trivial
  | updateTenant r id body =>
    obtain ⟨id, -, h₁⟩ := Tx.ofExcept_bind_eq_ok.mp h
    obtain ⟨b, -, h₂⟩ := Tx.ofExcept_bind_eq_ok.mp h₁
    exact iff_of_true ((auditedMutation_ok (fun _ => Reads.pure _) h₂).recorded _
      rfl (fun a => ⟨_, rfl, rfl⟩)
      (by decide)) trivial
  | deleteTenant r id =>
    obtain ⟨id, -, h₁⟩ := Tx.ofExcept_bind_eq_ok.mp h
    exact iff_of_true ((auditedMutation_ok (fun _ => Reads.pure _) h₁).recorded _
      rfl (fun a => ⟨_, rfl, rfl⟩)
      (by decide)) trivial
  | addDomain r id body =>
    obtain ⟨id, -, h₁⟩ := Tx.ofExcept_bind_eq_ok.mp h
    obtain ⟨hostname, -, h₂⟩ := Tx.ofExcept_bind_eq_ok.mp h₁
    exact iff_of_true ((auditedMutation_ok (fun _ => Reads.pure _) h₂).recorded _
      rfl (fun a => ⟨_, rfl, rfl⟩)
      (by decide)) trivial
  | updateDomain r id domainId body =>
    obtain ⟨id, -, h₁⟩ := Tx.ofExcept_bind_eq_ok.mp h
    obtain ⟨domainId, -, h₂⟩ := Tx.ofExcept_bind_eq_ok.mp h₁
    obtain ⟨hostname, -, h₃⟩ := Tx.ofExcept_bind_eq_ok.mp h₂
    exact iff_of_true ((auditedMutation_ok (fun _ => Reads.pure _) h₃).recorded _
      rfl (fun a => ⟨_, rfl, rfl⟩)
      (by decide)) trivial
  | deleteDomain r id domainId =>
    obtain ⟨id, -, h₁⟩ := Tx.ofExcept_bind_eq_ok.mp h
    obtain ⟨domainId, -, h₂⟩ := Tx.ofExcept_bind_eq_ok.mp h₁
    exact iff_of_true ((auditedMutation_ok (fun _ => Reads.pure _) h₂).recorded _
      rfl (fun a => ⟨_, rfl, rfl⟩)
      (by decide)) trivial
  | createResource r id body =>
    obtain ⟨id, -, h₁⟩ := Tx.ofExcept_bind_eq_ok.mp h
    obtain ⟨b, -, h₂⟩ := Tx.ofExcept_bind_eq_ok.mp h₁
    obtain ⟨request, -, h₃⟩ := Tx.ofExcept_bind_eq_ok.mp h₂
    exact iff_of_true ((idempotentMutation_ok (fun _ => Reads.pure _) h₃).recorded _
      rfl (fun a => ⟨_, rfl, rfl⟩)
      (by decide)) trivial
  | updateResourceIdentity r id resourceId body =>
    obtain ⟨id, -, h₁⟩ := Tx.ofExcept_bind_eq_ok.mp h
    obtain ⟨resourceId, -, h₂⟩ := Tx.ofExcept_bind_eq_ok.mp h₁
    obtain ⟨b, -, h₃⟩ := Tx.ofExcept_bind_eq_ok.mp h₂
    exact iff_of_true ((auditedMutation_ok (fun _ => Reads.pure _) h₃).recorded _
      rfl (fun a => ⟨_, rfl, rfl⟩)
      (by decide)) trivial
  | duplicateResource r id resourceId body =>
    obtain ⟨id, -, h₁⟩ := Tx.ofExcept_bind_eq_ok.mp h
    obtain ⟨resourceId, -, h₂⟩ := Tx.ofExcept_bind_eq_ok.mp h₁
    obtain ⟨resourceAlias, -, h₃⟩ := Tx.ofExcept_bind_eq_ok.mp h₂
    obtain ⟨request, -, h₄⟩ := Tx.ofExcept_bind_eq_ok.mp h₃
    refine iff_of_false
      (not_recordedOnce ((idempotentMutation_ok (fun _ => Reads.pure _) h₄).unpublished
      "resource.duplicated" ?_ (by decide))) fun hpub => hpub
    rintro a e ⟨⟩
    rfl
  | setResourceStatus r id resourceId body =>
    obtain ⟨id, -, h₁⟩ := Tx.ofExcept_bind_eq_ok.mp h
    obtain ⟨resourceId, -, h₂⟩ := Tx.ofExcept_bind_eq_ok.mp h₁
    obtain ⟨status, -, h₃⟩ := Tx.ofExcept_bind_eq_ok.mp h₂
    exact iff_of_true ((auditedMutation_ok (fun _ => Reads.pure _) h₃).recorded _
      rfl (fun a => ⟨_, rfl, rfl⟩)
      (by decide)) trivial
  | updateResourceField r id resourceId fieldKey body =>
    obtain ⟨id, -, h₁⟩ := Tx.ofExcept_bind_eq_ok.mp h
    obtain ⟨resourceId, -, h₂⟩ := Tx.ofExcept_bind_eq_ok.mp h₁
    obtain ⟨fieldKey, -, h₃⟩ := Tx.ofExcept_bind_eq_ok.mp h₂
    obtain ⟨value, -, h₄⟩ := Tx.ofExcept_bind_eq_ok.mp h₃
    refine iff_of_false
      (not_recordedOnce ((auditedMutation_ok (fun _ => Reads.pure _) h₄).unpublished
      "resource.field_updated" ?_ (by decide))) fun hpub => hpub
    rintro a e ⟨⟩
    rfl
  | clearResourceFieldOverride r id resourceId fieldKey =>
    obtain ⟨id, -, h₁⟩ := Tx.ofExcept_bind_eq_ok.mp h
    obtain ⟨resourceId, -, h₂⟩ := Tx.ofExcept_bind_eq_ok.mp h₁
    refine iff_of_false
      (not_recordedOnce ((auditedMutation_ok (fun _ => Reads.pure _) h₂).unpublished
      "resource.field_override_cleared" ?_ (by decide))) fun hpub => hpub
    rintro a e ⟨⟩
    rfl
  | deleteResource r id resourceId =>
    obtain ⟨id, -, h₁⟩ := Tx.ofExcept_bind_eq_ok.mp h
    obtain ⟨resourceId, -, h₂⟩ := Tx.ofExcept_bind_eq_ok.mp h₁
    exact iff_of_true ((auditedMutation_ok (fun _ => Reads.pure _) h₂).recorded _
      rfl (fun a => ⟨_, rfl, rfl⟩)
      (by decide)) trivial
  | createDefinition r body =>
    obtain ⟨b, -, h₁⟩ := Tx.ofExcept_bind_eq_ok.mp h
    exact iff_of_true ((auditedMutation_ok (fun _ => Reads.pure _) h₁).recorded _
      rfl (fun a => ⟨_, rfl, rfl⟩)
      (by decide)) trivial
  | updateDefinition r id body =>
    obtain ⟨id, -, h₁⟩ := Tx.ofExcept_bind_eq_ok.mp h
    obtain ⟨b, -, h₂⟩ := Tx.ofExcept_bind_eq_ok.mp h₁
    exact iff_of_true ((auditedMutation_ok (fun _ => Reads.pure _) h₂).recorded _
      rfl (fun a => ⟨_, rfl, rfl⟩)
      (by decide)) trivial
  | setDefinitionStatus r id body =>
    obtain ⟨id, -, h₁⟩ := Tx.ofExcept_bind_eq_ok.mp h
    obtain ⟨status, -, h₂⟩ := Tx.ofExcept_bind_eq_ok.mp h₁
    exact iff_of_true ((auditedMutation_ok (fun _ => Reads.pure _) h₂).recorded _
      rfl (fun a => ⟨_, rfl, rfl⟩)
      (by decide)) trivial
  | deleteDefinition r id =>
    obtain ⟨id, -, h₁⟩ := Tx.ofExcept_bind_eq_ok.mp h
    exact iff_of_true ((auditedMutation_ok (fun _ => Reads.pure _) h₁).recorded _
      rfl (fun a => ⟨_, rfl, rfl⟩)
      (by decide)) trivial
  | addField r id body =>
    obtain ⟨id, -, h₁⟩ := Tx.ofExcept_bind_eq_ok.mp h
    obtain ⟨arg, -, h₂⟩ := Tx.ofExcept_bind_eq_ok.mp h₁
    exact iff_of_true ((auditedMutation_ok (fun _ => Reads.pure _) h₂).recorded _
      rfl (fun a => ⟨_, rfl, rfl⟩)
      (by decide)) trivial
  | updateField r id fieldId body =>
    obtain ⟨id, -, h₁⟩ := Tx.ofExcept_bind_eq_ok.mp h
    obtain ⟨fieldId, -, h₂⟩ := Tx.ofExcept_bind_eq_ok.mp h₁
    obtain ⟨b, -, h₃⟩ := Tx.ofExcept_bind_eq_ok.mp h₂
    exact iff_of_true ((auditedMutation_ok (fun _ => Reads.pure _) h₃).recorded _
      rfl (fun a => ⟨_, rfl, rfl⟩)
      (by decide)) trivial
  | deleteField r id fieldId =>
    obtain ⟨id, -, h₁⟩ := Tx.ofExcept_bind_eq_ok.mp h
    obtain ⟨fieldId, -, h₂⟩ := Tx.ofExcept_bind_eq_ok.mp h₁
    exact iff_of_true ((auditedMutation_ok (fun _ => Reads.pure _) h₂).recorded _
      rfl (fun a => ⟨_, rfl, rfl⟩)
      (by decide)) trivial
  | createAPIClient r body =>
    obtain ⟨in_, -, h₁⟩ := Tx.ofExcept_bind_eq_ok.mp h
    obtain ⟨t, rest, rfl, h₂⟩ := Tx.draw_bind_eq_ok.mp h₁
    obtain ⟨in_, -, h₃⟩ := Tx.ofExcept_bind_eq_ok.mp h₂
    obtain ⟨request, -, h₄⟩ := Tx.ofExcept_bind_eq_ok.mp h₃
    exact iff_of_true ((idempotentMutation_ok (fun _ => reads_newClient) h₄).recorded _
      rfl (fun a => ⟨_, rfl, rfl⟩)
      (by decide)) trivial
  | updateAPIClient r id body =>
    obtain ⟨id, -, h₁⟩ := Tx.ofExcept_bind_eq_ok.mp h
    obtain ⟨in_, -, h₂⟩ := Tx.ofExcept_bind_eq_ok.mp h₁
    obtain ⟨t, rest, rfl, h₃⟩ := Tx.draw_bind_eq_ok.mp h₂
    obtain ⟨in_, -, h₄⟩ := Tx.ofExcept_bind_eq_ok.mp h₃
    exact iff_of_true ((auditedMutation_ok (fun _ => Reads.pure _) h₄).recorded _
      rfl (fun a => ⟨_, rfl, rfl⟩)
      (by decide)) trivial
  | rotateAPIClient r id body =>
    obtain ⟨id, -, h₁⟩ := Tx.ofExcept_bind_eq_ok.mp h
    obtain ⟨graceSeconds, -, h₂⟩ := Tx.ofExcept_bind_eq_ok.mp h₁
    obtain ⟨request, -, h₃⟩ := Tx.ofExcept_bind_eq_ok.mp h₂
    exact iff_of_true ((idempotentMutation_ok (fun _ => reads_rotatedClient) h₃).recorded _ rfl
      (fun a => ⟨_, rfl, rfl⟩) (by decide)) trivial
  | revokeAPIClient r id => exact recorded_revokeAPIClient h
  | deleteAPIClient r id =>
    obtain ⟨id, -, h₁⟩ := Tx.ofExcept_bind_eq_ok.mp h
    exact iff_of_true ((auditedMutation_ok (fun _ => Reads.pure _) h₁).recorded _
      rfl (fun a => ⟨_, rfl, rfl⟩)
      (by decide)) trivial
  | consumerWriteValue slug resourceAlias fieldKey body =>
    obtain ⟨begun, in_, pre, ts, ts₁, f, c, -, -, -, rfl⟩ := handleConsumerWriteValue_ok h
    exact iff_of_false (not_recordedOnce rfl) fun hpub => hpub

/-- A request that fails leaves the database as it was. A request that commits adds exactly
one audit row of its action and one outbox row that publishes it if and only if it is one of
those that are published. -/
theorem mutation_recorded (s : Server aead) (x : Request) (ticks : List Tick) (d : Database) :
    ((serve s x ticks d).committed = false → (serve s x ticks d).store = d) ∧
      ((serve s x ticks d).committed = true →
        (RecordedOnce x d (serve s x ticks d).store ↔ x.Published d)) := by
  refine ⟨transact_rolled_back, fun h => ?_⟩
  obtain ⟨res, ts', hok⟩ := transact_committed h
  exact Request.recorded hok

/-- The clearing of an override commits and leaves no event. -/
theorem cleared_override_unpublished : ∃ d, Runs.Run Served.Step {} sampleSetup d ∧
    (serve sampleServer sampleClear.request sampleClear.ticks d).committed = true ∧
    (sampleClear.after d).domain ≠ d.domain ∧
    (sampleClear.after d).events.outbox = d.events.outbox ∧
    ¬RecordedOnce sampleClear.request d (sampleClear.after d) := by
  obtain ⟨hbefore, hafter, hcommitted⟩ := sampleAnswer_changes
  have hout : ∀ d, (serve sampleServer sampleClear.request sampleClear.ticks d).committed = true →
      (sampleClear.after d).events.outbox = d.events.outbox := by
    intro d hd
    obtain ⟨res, ts', hok⟩ := Served.committed (x := sampleClear) hd
    obtain ⟨id, -, h₁⟩ := Tx.ofExcept_bind_eq_ok.mp hok
    obtain ⟨resourceId, -, h₂⟩ := Tx.ofExcept_bind_eq_ok.mp h₁
    refine (auditedMutation_ok (fun _ => Reads.pure _) h₂).unpublished
      "resource.field_override_cleared" ?_ (by decide)
    rintro a e ⟨⟩
    rfl
  refine ⟨_, run_afterAll _ _, hcommitted, fun hsame => ?_, hout _ hcommitted,
    not_recordedOnce (hout _ hcommitted)⟩
  rw [hsame, hbefore] at hafter
  exact absurd hafter (by decide)

end Tenancit.Httpapi
