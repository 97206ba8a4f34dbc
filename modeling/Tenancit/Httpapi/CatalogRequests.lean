import Tenancit.Httpapi.ClientChanges
import Tenancit.Httpapi.Recording

/-!
Who sends a request to the administrative interface, and the one form that the requests on
the catalogue have: a change of the catalogue and an audit entry, in one transaction.
-/
namespace Tenancit.Httpapi

open Encoding Crypto Store Service
open Program

/-- The sender of a request to the administrative interface. -/
def Request.sender : Request → Option AdminRequest
  | .createTenant r _ => some r
  | .updateTenant r _ _ => some r
  | .deleteTenant r _ => some r
  | .addDomain r _ _ => some r
  | .updateDomain r _ _ _ => some r
  | .deleteDomain r _ _ => some r
  | .createResource r _ _ => some r
  | .updateResourceIdentity r _ _ _ => some r
  | .duplicateResource r _ _ _ => some r
  | .setResourceStatus r _ _ _ => some r
  | .updateResourceField r _ _ _ _ => some r
  | .clearResourceFieldOverride r _ _ _ => some r
  | .deleteResource r _ _ => some r
  | .createDefinition r _ => some r
  | .updateDefinition r _ _ => some r
  | .setDefinitionStatus r _ _ => some r
  | .deleteDefinition r _ => some r
  | .addField r _ _ => some r
  | .updateField r _ _ _ => some r
  | .deleteField r _ _ => some r
  | .createAPIClient r _ => some r
  | .updateAPIClient r _ _ => some r
  | .rotateAPIClient r _ _ => some r
  | .revokeAPIClient r _ => some r
  | .deleteAPIClient r _ => some r
  | .consumerWriteValue _ _ _ _ => none

/-- The request is one to the administrative interface that is not about API clients. -/
def Request.OnCatalog : Request → Prop
  | .createAPIClient _ _ | .updateAPIClient _ _ _ | .rotateAPIClient _ _ _ | .revokeAPIClient _
    _ | .deleteAPIClient _ _
  | .consumerWriteValue _ _ _ _ => False
  | _ => True

variable {Key : Type} {aead : Aead Key} {s : Server aead} {ticks ts' : List Tick} {d d' : Database}
  {res : Response}

section answers

variable {α β : Type} {r : AdminRequest} {change : Timestamp → Tx Domain Response α}

theorem auditedMutation_status {audit : α → Option AuditEntry} {view : α → Tx Domain Response β}
    {answer : α → β → Timestamp → Response} (hanswer : ∀ a b now, (answer a b now).status < 400)
    (h : auditedMutation insertAdminAuditSuccess r change audit view answer ticks d =
      .ok (res, ts', d')) : res.status < 400 := by
  obtain ⟨begun, ts₀, -, h₁⟩ := Tx.draw_bind_eq_ok.mp h
  obtain ⟨a, ts₁, dom, -, h₂⟩ := Tx.onPart_bind_eq_ok.mp h₁
  obtain ⟨u, ts₂, ev, -, h₃⟩ := Tx.onPart_bind_eq_ok.mp h₂
  obtain ⟨b, ts₃, dom', -, h₄⟩ := Tx.onPart_bind_eq_ok.mp h₃
  obtain ⟨committed, rest, -, h₅⟩ := Tx.draw_bind_eq_ok.mp h₄
  cases Tx.pure_eq_ok.mp h₅
  exact hanswer a b committed.clock

theorem idempotentMutation_status {cryptor : Cryptor aead}
    {request : Idempotency.Request} {secret : Bool}
    {audit : α → AuditEntry} {body : α → Tx Domain Response Json} (hbody : ∀ a, Reads (body a))
    (h : idempotentMutation insertAdminAuditSuccess cryptor r request secret change audit body ticks
      d = .ok (res, ts', d')) : res.status < 400 := by
  obtain ⟨now, pre, ts, a, ts₁, ts₂, ts₃, b, -, -, -, rfl⟩ := idempotentMutation_answer hbody h
  exact show (201 : Int) < 400 by decide

end answers

/-- A committed request on the catalogue has changed it and audited an entry for its sender, and it
is answered without an error. -/
theorem Request.catalog_commits {x : Request} (h : x.handler s ticks d = .ok (res, ts', d'))
    (hx : x.OnCatalog) :
    ∃ (α : Type) (r : AdminRequest) (change : Timestamp → Tx Catalog Response α)
    (audit : α → AuditEntry),
      x.sender = some r ∧ Commits r (fun now => onCatalog (change now))
      (fun a => some (audit a)) ticks d d' ∧ res.status < 400 := by
  cases x with
  | createTenant r body =>
    obtain ⟨b, -, h₁⟩ := Tx.ofExcept_bind_eq_ok.mp h
    obtain ⟨request, -, h₂⟩ := Tx.ofExcept_bind_eq_ok.mp h₁
    exact ⟨_, _, _, _, rfl, idempotentMutation_ok (fun _ => Reads.pure _) h₂,
      idempotentMutation_status (fun _ => Reads.pure _) h₂⟩
  | updateTenant r id body =>
    obtain ⟨id, -, h₁⟩ := Tx.ofExcept_bind_eq_ok.mp h
    obtain ⟨b, -, h₂⟩ := Tx.ofExcept_bind_eq_ok.mp h₁
    exact ⟨_, _, _, _, rfl, auditedMutation_ok (fun _ => Reads.pure _) h₂,
      auditedMutation_status (fun _ _ _ => by simp [writeJSON]) h₂⟩
  | deleteTenant r id =>
    obtain ⟨id, -, h₁⟩ := Tx.ofExcept_bind_eq_ok.mp h
    exact ⟨_, _, _, _, rfl, auditedMutation_ok (fun _ => Reads.pure _) h₁,
      auditedMutation_status (fun _ _ _ => by simp [noContent]) h₁⟩
  | addDomain r id body =>
    obtain ⟨id, -, h₁⟩ := Tx.ofExcept_bind_eq_ok.mp h
    obtain ⟨hostname, -, h₂⟩ := Tx.ofExcept_bind_eq_ok.mp h₁
    exact ⟨_, _, _, _, rfl, auditedMutation_ok (fun _ => Reads.pure _) h₂,
      auditedMutation_status (fun _ _ _ => by simp [writeJSON]) h₂⟩
  | updateDomain r id domainId body =>
    obtain ⟨id, -, h₁⟩ := Tx.ofExcept_bind_eq_ok.mp h
    obtain ⟨domainId, -, h₂⟩ := Tx.ofExcept_bind_eq_ok.mp h₁
    obtain ⟨hostname, -, h₃⟩ := Tx.ofExcept_bind_eq_ok.mp h₂
    exact ⟨_, _, _, _, rfl, auditedMutation_ok (fun _ => Reads.pure _) h₃,
      auditedMutation_status (fun _ _ _ => by simp [writeJSON]) h₃⟩
  | deleteDomain r id domainId =>
    obtain ⟨id, -, h₁⟩ := Tx.ofExcept_bind_eq_ok.mp h
    obtain ⟨domainId, -, h₂⟩ := Tx.ofExcept_bind_eq_ok.mp h₁
    exact ⟨_, _, _, _, rfl, auditedMutation_ok (fun _ => Reads.pure _) h₂,
      auditedMutation_status (fun _ _ _ => by simp [noContent]) h₂⟩
  | createResource r id body =>
    obtain ⟨id, -, h₁⟩ := Tx.ofExcept_bind_eq_ok.mp h
    obtain ⟨b, -, h₂⟩ := Tx.ofExcept_bind_eq_ok.mp h₁
    obtain ⟨request, -, h₃⟩ := Tx.ofExcept_bind_eq_ok.mp h₂
    exact ⟨_, _, _, _, rfl, idempotentMutation_ok (fun _ => Reads.pure _) h₃,
      idempotentMutation_status (fun _ => Reads.pure _) h₃⟩
  | updateResourceIdentity r id resourceId body =>
    obtain ⟨id, -, h₁⟩ := Tx.ofExcept_bind_eq_ok.mp h
    obtain ⟨resourceId, -, h₂⟩ := Tx.ofExcept_bind_eq_ok.mp h₁
    obtain ⟨b, -, h₃⟩ := Tx.ofExcept_bind_eq_ok.mp h₂
    exact ⟨_, _, _, _, rfl, auditedMutation_ok (fun _ => Reads.pure _) h₃,
      auditedMutation_status (fun _ _ _ => by simp [writeJSON]) h₃⟩
  | duplicateResource r id resourceId body =>
    obtain ⟨id, -, h₁⟩ := Tx.ofExcept_bind_eq_ok.mp h
    obtain ⟨resourceId, -, h₂⟩ := Tx.ofExcept_bind_eq_ok.mp h₁
    obtain ⟨resourceAlias, -, h₃⟩ := Tx.ofExcept_bind_eq_ok.mp h₂
    obtain ⟨request, -, h₄⟩ := Tx.ofExcept_bind_eq_ok.mp h₃
    exact ⟨_, _, _, _, rfl, idempotentMutation_ok (fun _ => Reads.pure _) h₄,
      idempotentMutation_status (fun _ => Reads.pure _) h₄⟩
  | setResourceStatus r id resourceId body =>
    obtain ⟨id, -, h₁⟩ := Tx.ofExcept_bind_eq_ok.mp h
    obtain ⟨resourceId, -, h₂⟩ := Tx.ofExcept_bind_eq_ok.mp h₁
    obtain ⟨status, -, h₃⟩ := Tx.ofExcept_bind_eq_ok.mp h₂
    exact ⟨_, _, _, _, rfl, auditedMutation_ok (fun _ => Reads.pure _) h₃,
      auditedMutation_status (fun _ _ _ => by simp [writeJSON]) h₃⟩
  | updateResourceField r id resourceId fieldKey body =>
    obtain ⟨id, -, h₁⟩ := Tx.ofExcept_bind_eq_ok.mp h
    obtain ⟨resourceId, -, h₂⟩ := Tx.ofExcept_bind_eq_ok.mp h₁
    obtain ⟨fieldKey, -, h₃⟩ := Tx.ofExcept_bind_eq_ok.mp h₂
    obtain ⟨value, -, h₄⟩ := Tx.ofExcept_bind_eq_ok.mp h₃
    exact ⟨_, _, _, _, rfl, auditedMutation_ok (fun _ => Reads.pure _) h₄,
      auditedMutation_status (fun _ _ _ => by simp [noContent]) h₄⟩
  | clearResourceFieldOverride r id resourceId fieldKey =>
    obtain ⟨id, -, h₁⟩ := Tx.ofExcept_bind_eq_ok.mp h
    obtain ⟨resourceId, -, h₂⟩ := Tx.ofExcept_bind_eq_ok.mp h₁
    exact ⟨_, _, _, _, rfl, auditedMutation_ok (fun _ => Reads.pure _) h₂,
      auditedMutation_status (fun _ _ _ => by simp [noContent]) h₂⟩
  | deleteResource r id resourceId =>
    obtain ⟨id, -, h₁⟩ := Tx.ofExcept_bind_eq_ok.mp h
    obtain ⟨resourceId, -, h₂⟩ := Tx.ofExcept_bind_eq_ok.mp h₁
    exact ⟨_, _, _, _, rfl, auditedMutation_ok (fun _ => Reads.pure _) h₂,
      auditedMutation_status (fun _ _ _ => by simp [noContent]) h₂⟩
  | createDefinition r body =>
    obtain ⟨b, -, h₁⟩ := Tx.ofExcept_bind_eq_ok.mp h
    exact ⟨_, _, _, _, rfl, auditedMutation_ok (fun _ => Reads.pure _) h₁,
      auditedMutation_status (fun _ _ _ => by simp [writeJSON]) h₁⟩
  | updateDefinition r id body =>
    obtain ⟨id, -, h₁⟩ := Tx.ofExcept_bind_eq_ok.mp h
    obtain ⟨b, -, h₂⟩ := Tx.ofExcept_bind_eq_ok.mp h₁
    exact ⟨_, _, _, _, rfl, auditedMutation_ok (fun _ => Reads.pure _) h₂,
      auditedMutation_status (fun _ _ _ => by simp [writeJSON]) h₂⟩
  | setDefinitionStatus r id body =>
    obtain ⟨id, -, h₁⟩ := Tx.ofExcept_bind_eq_ok.mp h
    obtain ⟨b, -, h₂⟩ := Tx.ofExcept_bind_eq_ok.mp h₁
    exact ⟨_, _, _, _, rfl, auditedMutation_ok (fun _ => Reads.pure _) h₂,
      auditedMutation_status (fun _ _ _ => by simp [writeJSON]) h₂⟩
  | deleteDefinition r id =>
    obtain ⟨id, -, h₁⟩ := Tx.ofExcept_bind_eq_ok.mp h
    exact ⟨_, _, _, _, rfl, auditedMutation_ok (fun _ => Reads.pure _) h₁,
      auditedMutation_status (fun _ _ _ => by simp [noContent]) h₁⟩
  | addField r id body =>
    obtain ⟨id, -, h₁⟩ := Tx.ofExcept_bind_eq_ok.mp h
    obtain ⟨arg, -, h₂⟩ := Tx.ofExcept_bind_eq_ok.mp h₁
    exact ⟨_, _, _, _, rfl, auditedMutation_ok (fun _ => Reads.pure _) h₂,
      auditedMutation_status (fun _ _ _ => by simp [writeJSON]) h₂⟩
  | updateField r id fieldId body =>
    obtain ⟨id, -, h₁⟩ := Tx.ofExcept_bind_eq_ok.mp h
    obtain ⟨fieldId, -, h₂⟩ := Tx.ofExcept_bind_eq_ok.mp h₁
    obtain ⟨b, -, h₃⟩ := Tx.ofExcept_bind_eq_ok.mp h₂
    exact ⟨_, _, _, _, rfl, auditedMutation_ok (fun _ => Reads.pure _) h₃,
      auditedMutation_status (fun _ _ _ => by simp [writeJSON]) h₃⟩
  | deleteField r id fieldId =>
    obtain ⟨id, -, h₁⟩ := Tx.ofExcept_bind_eq_ok.mp h
    obtain ⟨fieldId, -, h₂⟩ := Tx.ofExcept_bind_eq_ok.mp h₁
    exact ⟨_, _, _, _, rfl, auditedMutation_ok (fun _ => Reads.pure _) h₂,
      auditedMutation_status (fun _ _ _ => by simp [noContent]) h₂⟩
  | createAPIClient r body => cases hx
  | updateAPIClient r id body => cases hx
  | rotateAPIClient r id body => cases hx
  | revokeAPIClient r id => cases hx
  | deleteAPIClient r id => cases hx
  | consumerWriteValue slug resourceAlias fieldKey body => cases hx

end Tenancit.Httpapi
