import Tenancit.Httpapi.Consumer
import Tenancit.Lib.Overlay
import Tenancit.Lib.Runs
import Tenancit.Service.ProvisionSpec

/-!
The operations that write values, each in a transaction of its own, and what each of them
means for a plain map from resources and fields to texts.
-/
namespace Tenancit.Values

open Encoding Crypto Store Service Queries Table
open Program.Tx (draw)

variable {Key : Type} {aead : Aead Key}

/-- The operations of the services on resources and values. -/
inductive Operation where
  | provision (in_ : ProvisionResourceInput)
  | duplicate (tenantId resourceId : UUID) (resourceAlias : String)
  | updateField (in_ : UpdateResourceFieldInput)
  | clearOverride (in_ : UpdateResourceFieldInput)
  | consumerWrite (slug resourceAlias fieldKey value : String)

/-- Why an operation did not take place: the service refused, or the consumer's handler did. -/
inductive Refusal where
  | service (err : ServiceError)
  | answer (res : Httpapi.Response)

/-- What an operation did: it created a resource, or wrote or cleared a field of one. -/
inductive Effect where
  | created (res : TenantResource)
  | wrote (resourceId : UUID) (field : ResourceField)
  | cleared (resourceId : UUID) (field : ResourceField)

/-- The reading of the clock that `now()` has in a transaction. -/
def beginTx : Tx Catalog Refusal Timestamp := do
  let t ← draw (.service (.store .unavailable))
  pure t.clock

/-- An operation in its transaction. -/
def Operation.body (cryptor : Cryptor aead) : Operation → Tx Catalog Refusal Effect
  | .provision in_ => do
    let now ← beginTx
    let res ← (provisionResourceInTx now cryptor in_).mapErr .service
    pure (.created res)
  | .duplicate tenantId resourceId resourceAlias => do
    let now ← beginTx
    let res ← (duplicateResourceInTx now cryptor tenantId resourceId resourceAlias).mapErr .service
    pure (.created res)
  | .updateField in_ => do
    let f ← (updateResourceFieldInTx cryptor in_).mapErr .service
    pure (.wrote in_.resourceId f)
  | .clearOverride in_ => do
    let f ← (clearResourceFieldOverrideInTx in_).mapErr .service
    pure (.cleared in_.resourceId f)
  | .consumerWrite slug resourceAlias fieldKey value => do
    let target ← (Httpapi.consumerTarget slug resourceAlias fieldKey).mapErr .answer
    let f ← (Httpapi.Change.consumerWriteValue cryptor ⟨fieldKey, target.2.id, target.1.id,
      value⟩).mapErr .answer
    pure (.wrote target.2.id f)

/-- The texts of an operation, where it carries one. -/
def Operation.text : Operation → String
  | .updateField in_ => in_.value
  | .consumerWrite _ _ _ value => value
  | _ => ""

/-- The plain map from resources and fields to the texts written. -/
abbrev PlainValues := Overlay UUID UUID String

/-- The effective text of a field, empty where there is none. -/
def plainText (o : PlainValues) (resourceId fieldId : UUID) : String :=
  (o.effective resourceId fieldId).getD ""

/-- The effective texts that a duplicate takes over: those that are not empty. -/
def copied (o : PlainValues) (resourceId : UUID) (fields : List ResourceField) :
    List (UUID × String) :=
  fields.filterMap fun f =>
    if plainText o resourceId f.id ≠ "" then some (f.id, plainText o resourceId f.id) else none

/-- What an operation that took place means for the plain map. -/
def Operation.record (c : Catalog) (o : PlainValues) : Operation → Effect → PlainValues
  | .provision in_, .created res => (o.link res.id in_.sourceResourceId).writeAll res.id
      (given in_.values (fieldsOf c res.resourceDefinitionId))
  | .duplicate _ resourceId _, .created res =>
    (o.link res.id none).writeAll res.id (copied o resourceId (fieldsOf c res.resourceDefinitionId))
  | op, .wrote resourceId f => o.write resourceId f.id op.text
  | _, .cleared resourceId f => o.clear resourceId f.id
  | _, _ => o

theorem beginTx_ok {ts ts' : List Tick} {c c' : Catalog} {now : Timestamp}
    (h : beginTx ts c = .ok (now, ts', c')) : c' = c := by
  obtain ⟨t, ts₁, -, hpure⟩ := Program.Tx.draw_bind_eq_ok.mp h
  cases Program.Tx.pure_eq_ok.mp hpure
  rfl

/-- A consumer's target is read, and nothing changes. -/
theorem consumerTarget_ok {slug resourceAlias fieldKey : String} {ts ts' : List Tick}
    {c c' : Catalog} {target : Tenant × TenantResource}
    (h : Httpapi.consumerTarget slug resourceAlias fieldKey ts c = .ok (target, ts', c')) :
    c' = c := by
  obtain ⟨_, _, tenant, -, -, h₁⟩ := Program.Tx.query_bind_eq_ok.mp h
  obtain ⟨_, _, resource, -, -, h₂⟩ := Program.Tx.query_bind_eq_ok.mp h₁
  obtain ⟨_, _, fields, -, -, h₃⟩ := Program.Tx.query_bind_eq_ok.mp h₂
  cases hf : lookup ResourceField.key fieldKey fields with
  | none => simp [hf] at h₃
  | some field =>
    simp only [hf] at h₃
    obtain ⟨-, h₄⟩ := Program.Tx.require_bind_eq_ok.mp h₃
    cases Program.Tx.pure_eq_ok.mp h₄
    rfl

end Tenancit.Values
