import Tenancit.Httpapi.AdminRead
import Tenancit.Httpapi.Transactions
import Tenancit.Lib.JsonOctets

/-!
The audit log of a table that refuses nothing. A request that commits over that table has
passed everything but the checks and the indexes of `admin_audit_events`.
-/
namespace Tenancit.Httpapi

open Encoding Crypto Store Service Queries
open Program.Tx (draw ofExcept)

/-- The statement of `InsertAdminAuditEvent` on a table without its check constraints and with
indexes that take any text. -/
def insertAdminAuditEventUnchecked (arg : InsertAdminAuditEventParams)
    (t : Tick) (s : EventTables) : Except PgError (AdminAuditEvent × EventTables) :=
  if ∃ e ∈ s.audit, e.occurredAt = t.clock ∧ e.id = t.ids 0 then .error .uniqueViolation
  else .ok (auditRow arg t, { s with audit := s.audit ++ [auditRow arg t] })

/-- `insertAdminAuditSuccess` on such a table. -/
def insertAdminAuditUnchecked (r : AdminRequest) (e : AuditEntry) : Tx EventTables Response Unit :=
  match r.principal with
  | none => Program.Tx.fail writeInternalError
  | some actor => do
    let _ ← (run (insertAdminAuditEventUnchecked (auditParams r actor e))).mapErr
      fun _ => writeInternalError
    match Events.fromAudit e.action e.targetType e.targetId with
    | none => pure ()
    | some draft => (publish r draft).mapErr fun _ => writeInternalError

section checks

variable {rules : TextRules} {r : AdminRequest} {e : AuditEntry} {ts : List Tick} {s : EventTables}

/-- A request as the middlewares hand it on: it has an identifier, and its principal has an
issuer exactly if it is an OIDC user. -/
structure AdminRequest.Accepted (r : AdminRequest) : Prop where
  requestId : r.requestId ≠ ""
  issuer : ∀ p, r.principal = some p → (p.kind = .oidcUser ↔ p.issuer ≠ "")

/-- The identifier of the request and whoever makes it fit the indexes of the log. -/
structure AdminRequest.Indexed (rules : TextRules) (r : AdminRequest) : Prop where
  requestId : rules.fits [r.requestId] = true
  actor : ∀ p, r.principal =
    some p → rules.fits (p.kind.text :: ((optionalString p.issuer).toList ++ [p.subject])) = true

/-- The texts and the status that a handler writes out meet their checks, and are short. -/
def AuditEntry.Fixed (e : AuditEntry) : Prop :=
  e.action ≠ "" ∧ e.targetType ≠ "" ∧ 100 ≤ e.status ∧ e.status ≤ 599 ∧
  Text.octetLength e.action ≤ 64 ∧
    Text.octetLength e.targetType ≤ 64

/-- What is left of the checks is the size of the metadata. -/
theorem auditOk_iff (hr : r.Accepted) {actor : Principal} (hactor : r.principal = some actor)
    (he : e.Fixed) :
    AuditOk (auditParams r actor e) ↔ e.metadata.octets ≤ 8192 := by
  obtain ⟨haction, htype, hlow, hhigh, -⟩ := he
  have hkind : actor.kind.text ∈
    ["shared_admin_token", "break_glass", "oidc_user", "unauthenticated"] ∧
      (actor.kind.text = "oidc_user" ↔ actor.kind = .oidcUser) := by
    cases actor.kind <;> decide
  have hissuer : (optionalString actor.issuer).isSome ↔ actor.issuer ≠ "" := by
    unfold optionalString
    split <;> simp [*]
  constructor
  · rintro ⟨-, -, -, -, -, -, -, hsize, -⟩
    exact hsize
  · intro hsize
    refine ⟨hr.requestId, hkind.1, haction, htype, .head _, hlow, hhigh, hsize, ?_⟩
    exact hkind.2.trans ((hr.issuer actor hactor).trans hissuer.symm)

/-- What is left of the indexes are the texts of the request and the target. -/
theorem auditIndexed_iff (hrules : rules.TakesShort) {actor : Principal}
    (hactor : r.principal = some actor) (he : e.Fixed) :
    AuditIndexed rules (auditParams r actor e) ↔
      r.Indexed rules ∧ rules.fits [e.targetType, e.targetId] = true := by
  obtain ⟨-, -, -, -, haction, -⟩ := he
  have hresult : rules.fits [e.action, "success"] = true := by
    refine hrules _ ?_
    have hsuccess : Text.octetLength "success" = 7 := by decide
    simp only [List.map_cons, List.map_nil, List.sum_cons, List.sum_nil, hsuccess]
    omega
  constructor
  · intro h
    refine ⟨⟨h _ (by simp [auditIndexTexts, auditParams]), fun p hp => ?_⟩,
      h _ (by simp [auditIndexTexts, auditParams])⟩
    cases hactor.symm.trans hp
    exact h _ (by simp [auditIndexTexts, auditParams])
  · rintro ⟨hr, htarget⟩ texts htexts
    simp only [auditIndexTexts, auditParams, List.mem_cons, List.not_mem_nil, or_false] at htexts
    rcases htexts with rfl | rfl | rfl | rfl
    · exact hr.requestId
    · exact htarget
    · exact hr.actor actor hactor
    · exact hresult

/-- The statements differ in the checks and the indexes only. -/
theorem insertAdminAuditEvent_eq_ok {arg : InsertAdminAuditEventParams} {t : Tick}
    {x : AdminAuditEvent × EventTables} : insertAdminAuditEvent arg t s = .ok x ↔
      insertAdminAuditEventUnchecked arg t s = .ok x ∧ AuditOk arg ∧ AuditIndexed t.rules arg := by
  simp only [insertAdminAuditEvent, insertAdminAuditEventUnchecked, ite_error_eq_ok, not_not]
  exact ⟨fun h => ⟨⟨h.2.1, h.2.2.2⟩, h.1, h.2.2.1⟩, fun h => ⟨h.2.1, h.1.1, h.2.2, h.1.2⟩⟩

/-- The ticks have these rules for texts. -/
def Ruled (rules : TextRules) (ts : List Tick) : Prop := ∀ t ∈ ts, t.rules = rules

theorem Ruled.rest {δ ε α : Type} {m : Program.Tx Tick δ ε α} (h : Ruled rules ts) (hm : Draws m)
    {x x' : δ} {a : α} {ts' : List Tick} (hok : m ts x = .ok (a, ts', x')) : Ruled rules ts' := by
  obtain ⟨used, rfl, -⟩ := hm.ok hok
  exact fun t ht => h t (List.mem_append_right _ ht)

/-- An entry is appended exactly if its metadata is within the limit and the indexes take it. -/
theorem narrowed_audit (hr : r.Accepted) (he : e.Fixed) (hrules : rules.TakesShort)
    (hts : Ruled rules ts) :
    Program.Narrowed (e.metadata.octets ≤ 8192 ∧ r.Indexed rules ∧
      rules.fits [e.targetType, e.targetId] = true)
      (insertAdminAuditSuccess r e) (insertAdminAuditUnchecked r e) ts s := by
  unfold insertAdminAuditSuccess insertAdminAuditUnchecked
  cases hp : r.principal with
  | none => exact fun x => by simp
  | some actor =>
    refine Program.Narrowed.bind_left (Program.Narrowed.mapErr ?_ _) _
    rintro ⟨a, ts', s'⟩
    rw [run, run, Program.Tx.statement_eq_ok, Program.Tx.statement_eq_ok, ← auditOk_iff hr hp he,
      ← auditIndexed_iff hrules hp he]
    constructor
    · rintro ⟨t, rfl, hinsert⟩
      obtain ⟨hunchecked, hok, hindexed⟩ := insertAdminAuditEvent_eq_ok.mp hinsert
      exact ⟨⟨t, rfl, hunchecked⟩, hok, hts t (.head _) ▸ hindexed⟩
    · rintro ⟨⟨t, rfl, hunchecked⟩, hok, hindexed⟩
      exact ⟨t, rfl, insertAdminAuditEvent_eq_ok.mpr ⟨hunchecked, hok,
        (hts t (.head _)).symm ▸ hindexed⟩⟩

/-- The entry of a handler takes so many octets and its target fits the index; or there is
none, which is so in the case given. -/
def Sized (rules : TextRules) (n : Nat) (none_ : Prop) : Option AuditEntry → Prop
  | none => n ≤ 8192 ∧ none_
  | some e =>
    ¬none_ ∧ e.Fixed ∧ rules.fits [e.targetType, e.targetId] = true ∧ e.metadata.octets = n

variable {α β : Type} {n : Nat} {none_ : Prop} {change : Timestamp → Tx Domain Response α}
  {ticks : List Tick} {d : Database}

/-- The entry that a change leads to, behind the ticks that the change draws. -/
theorem narrowed_auditChange {entry : Option AuditEntry} (hr : r.Accepted)
    (hrules : rules.TakesShort) (hts : Ruled rules ts) (h : Sized rules n none_ entry) :
    Program.Narrowed (n ≤ 8192 ∧ (none_ ∨ r.Indexed rules))
    (auditChange insertAdminAuditSuccess r entry)
      (auditChange insertAdminAuditUnchecked r entry) ts s := by
  cases entry with
  | none => exact Program.Narrowed.of_pos ⟨h.1, .inl h.2⟩ _
  | some e =>
    obtain ⟨hsome, hfixed, htarget, rfl⟩ := h
    have hiff : (e.metadata.octets ≤ 8192 ∧ (none_ ∨ r.Indexed rules)) ↔
        (e.metadata.octets ≤ 8192 ∧ r.Indexed rules ∧
          rules.fits [e.targetType, e.targetId] = true) := by
      simp [hsome, htarget]
    rw [hiff]
    exact narrowed_audit hr hfixed hrules hts

theorem narrowed_auditedMutation {entry : α → Option AuditEntry} {view : α → Tx Domain Response β}
    {answer : α → β → Timestamp → Response} (hr : r.Accepted) (hrules : rules.TakesShort)
    (hticks : Ruled rules ticks) (hdraws : ∀ now, Draws (change now))
    (h : ∀ now ts a ts' dom, change now ts d.domain = .ok (a, ts', dom) →
      Sized rules n none_ (entry a)) :
    Program.Narrowed (n ≤ 8192 ∧ (none_ ∨ r.Indexed rules))
    (auditedMutation insertAdminAuditSuccess r change entry view answer)
      (auditedMutation insertAdminAuditUnchecked r change entry view answer) ticks d := by
  refine Program.Narrowed.bind fun begun ts₁ d₁ hbegun =>
    Program.Narrowed.bind fun a ts₂ d₂ ha => ?_
  obtain ⟨rfl, rfl⟩ := Program.Tx.draw_eq_ok.mp hbegun
  obtain ⟨dom, hchange, -⟩ := Program.Tx.onPart_eq_ok.mp ha
  have hts : Ruled rules ts₂ := Ruled.rest (fun t ht => hticks t (.tail _ ht)) (hdraws _) hchange
  refine Program.Narrowed.bind_left (Program.Narrowed.onPart ?_) _
  exact narrowed_auditChange hr hrules hts (h _ _ _ _ _ hchange)

theorem narrowed_idempotentMutation {Key : Type} {aead : Aead Key} {cryptor : Cryptor aead}
    {request : Idempotency.Request} {secret : Bool} {entry : α → AuditEntry}
    {body : α → Tx Domain Response Json}
    (hr : r.Accepted) (hrules : rules.TakesShort) (hticks : Ruled rules ticks)
    (hdraws : ∀ now, Draws (change now))
    (h : ∀ now ts a ts' dom, change now ts d.domain = .ok (a, ts', dom) →
      Sized rules n none_ (some (entry a))) :
    Program.Narrowed (n ≤ 8192 ∧ (none_ ∨ r.Indexed rules))
      (idempotentMutation insertAdminAuditSuccess cryptor r request secret change entry body)
      (idempotentMutation insertAdminAuditUnchecked cryptor r request secret change entry body)
        ticks d := by
  refine Program.Narrowed.bind fun begun ts₁ d₁ hbegun =>
    Program.Narrowed.bind fun claimed ts₂ d₂ hclaimed => ?_
  refine Program.Narrowed.bind fun a ts₃ d₃ ha => ?_
  obtain ⟨rfl, rfl⟩ := Program.Tx.draw_eq_ok.mp hbegun
  obtain ⟨records, hbegin, rfl⟩ := Program.Tx.onPart_eq_ok.mp hclaimed
  obtain ⟨dom, hchange, -⟩ := Program.Tx.onPart_eq_ok.mp ha
  have hts₂ : Ruled rules ts₂ :=
    Ruled.rest (fun t ht => hticks t (.tail _ ht)) draws_beginAdminIdempotency hbegin
  have hts : Ruled rules ts₃ := hts₂.rest (hdraws _) hchange
  refine Program.Narrowed.bind_left (Program.Narrowed.onPart ?_) _
  exact narrowed_auditChange hr hrules hts (h _ _ _ _ _ hchange)

end checks

end Tenancit.Httpapi
