import Tenancit.Httpapi.Requests

/-!
What a transaction of a handler did when it committed: the change it made to the domain,
what it audited, and that nothing else of the domain moved. Both combinators have the same
specification, so that a result about every handler is one case for each.
-/
namespace Tenancit.Httpapi

open Encoding Crypto Store
open Program

section programs

variable {θ δ ε α : Type}

/-- The program draws its ticks from the front, whatever it does to the store. -/
def Draws (m : Program.Tx θ δ ε α) : Prop := Along (fun _ _ _ => True) m

/-- The program reads only. -/
def Reads (m : Program.Tx θ δ ε α) : Prop := Along (fun s _ s' => s' = s) m

theorem composes_true : Composes (fun (_ : δ) (_ : List θ) (_ : δ) => True) :=
  ⟨fun _ => trivial, fun _ _ => trivial⟩

theorem composes_eq : Composes (fun (s : δ) (_ : List θ) (s' : δ) => s' = s) :=
  ⟨fun _ => rfl, fun h h' => h'.trans h⟩

theorem Reads.pure (a : α) : Reads (Pure.pure a : Program.Tx θ δ ε α) := Along.pure composes_eq a

end programs

section events

variable {r : AdminRequest} {e : AuditEntry} {ts ts' : List Tick} {s s' : EventTables}

theorem draws_run {δ α : Type} {f : Tick → δ → Except PgError (α × δ)} : Draws (run f) :=
  Along.statement fun _ _ _ _ _ => trivial

end events

section idempotency

variable {Key : Type} {aead : Aead Key} {cryptor : Cryptor aead} {request : Idempotency.Request}

theorem draws_beginAdminIdempotency : Draws (beginAdminIdempotency cryptor request) := by
  refine Along.bind composes_true (Along.mapErr ?_ _) fun replay => ?_
  · refine Along.bind composes_true (Along.require composes_true _ _) fun _ => ?_
    refine Along.bind composes_true (Along.draw fun _ _ => trivial) fun now => ?_
    refine Along.bind composes_true (Along.mapErr draws_run _) fun affected => ?_
    split
    · exact Along.pure composes_true _
    refine Along.bind composes_true (Along.mapErr (Along.query fun _ _ => trivial) _) fun row => ?_
    exact Along.bind composes_true (Along.ofExcept composes_true _) fun _ =>
      Along.pure composes_true _
  · cases replay with
    | none => exact Along.pure composes_true _
    | some replay => exact Along.fail _

end idempotency

/-- What a committed mutation did: having begun at the reading of one of its ticks it made
the change to the domain, and it audited the entry that goes with it. -/
def Commits {α : Type} (r : AdminRequest) (change : Timestamp → Tx Domain Response α)
    (audit : α → Option AuditEntry) (ticks : List Tick) (d d' : Database) : Prop :=
  ∃ begun pre a ts ts' ts'', begun ∈ ticks ∧ ticks = pre ++ ts ∧
    change begun.clock ts d.domain = .ok (a, ts', d'.domain) ∧
    auditChange insertAdminAuditSuccess r (audit a) ts' d.events = .ok ((), ts'', d'.events)

variable {α β : Type} {r : AdminRequest} {change : Timestamp → Tx Domain Response α}
  {ticks ts' : List Tick} {d d' : Database} {res : Response}

theorem auditedMutation_ok {audit : α → Option AuditEntry} {view : α → Tx Domain Response β}
    {answer : α → β → Timestamp → Response} (hview : ∀ a, Reads (view a))
    (h : auditedMutation insertAdminAuditSuccess r change audit view answer ticks d =
      .ok (res, ts', d')) :
    Commits r change audit ticks d d' := by
  obtain ⟨begun, ts₀, rfl, h₁⟩ := Tx.draw_bind_eq_ok.mp h
  obtain ⟨a, ts₁, dom, hchange, h₂⟩ := Tx.onPart_bind_eq_ok.mp h₁
  obtain ⟨u, ts₂, ev, haudit, h₃⟩ := Tx.onPart_bind_eq_ok.mp h₂
  obtain ⟨b, ts₃, dom', hb, h₄⟩ := Tx.onPart_bind_eq_ok.mp h₃
  obtain ⟨-, -, rfl⟩ := (hview a).ok hb
  obtain ⟨committed, rest, -, h₅⟩ := Tx.draw_bind_eq_ok.mp h₄
  cases Tx.pure_eq_ok.mp h₅
  exact ⟨begun, [begun], a, ts₀, ts₁, ts₂, .head _, rfl, hchange, haudit⟩

theorem idempotentMutation_ok {Key : Type} {aead : Aead Key} {cryptor : Cryptor aead}
    {request : Idempotency.Request} {secret : Bool} {audit : α → AuditEntry}
    {body : α → Tx Domain Response Json} (hbody : ∀ a, Reads (body a))
    (h : idempotentMutation insertAdminAuditSuccess cryptor r request secret change audit body ticks
      d = .ok (res, ts', d')) :
    Commits r change (fun a => some (audit a)) ticks d d' := by
  obtain ⟨begun, ts₀, rfl, h₁⟩ := Tx.draw_bind_eq_ok.mp h
  obtain ⟨replayed, ts₁, records, hbegin, h₂⟩ := Tx.onPart_bind_eq_ok.mp h₁
  obtain ⟨pre, rfl, -⟩ := draws_beginAdminIdempotency.ok hbegin
  obtain ⟨a, ts₂, dom, hchange, h₃⟩ := Tx.onPart_bind_eq_ok.mp h₂
  obtain ⟨u, ts₃, ev, haudit, h₄⟩ := Tx.onPart_bind_eq_ok.mp h₃
  obtain ⟨b, ts₄, dom', hb, h₅⟩ := Tx.onPart_bind_eq_ok.mp h₄
  obtain ⟨-, -, rfl⟩ := (hbody a).ok hb
  obtain ⟨done, ts₅, records', -, h₆⟩ := Tx.onPart_bind_eq_ok.mp h₅
  obtain ⟨committed, rest, -, h₇⟩ := Tx.draw_bind_eq_ok.mp h₆
  cases Tx.pure_eq_ok.mp h₇
  exact ⟨begun, begun :: pre, a, ts₁, ts₂, ts₃, .head _, rfl, hchange, haudit⟩

/-- More ticks in front make no difference to what was committed. -/
theorem Commits.cons {audit : α → Option AuditEntry} {t : Tick}
    (h : Commits r change audit ticks d d') : Commits r change audit (t :: ticks) d d' := by
  obtain ⟨begun, pre, a, ts, ts₁, ts₂, hbegun, rfl, hchange, haudit⟩ := h
  exact ⟨begun, t :: pre, a, ts, ts₁, ts₂, .tail _ hbegun, rfl, hchange, haudit⟩

/-- What the change is known to do to the domain, the mutation did. -/
theorem Commits.domain {audit : α → Option AuditEntry}
    {R : Timestamp → Domain → List Tick → Domain → Prop} (hR : ∀ now, Along (R now) (change now))
    (h : Commits r change audit ticks d d') :
    ∃ begun ∈ ticks, ∃ used, (∀ t ∈ used, t ∈ ticks) ∧ R begun.clock d.domain used d'.domain := by
  obtain ⟨begun, pre, a, ts, ts₁, ts₂, hbegun, rfl, hchange, -⟩ := h
  obtain ⟨used, rfl, hused⟩ := (hR begun.clock).ok hchange
  exact ⟨begun, hbegun, used, fun t ht => by simp [ht], hused⟩

section consumer

variable {Key : Type} {aead : Aead Key} {s : Server aead} {slug resourceAlias fieldKey : String}
  {body : Except Response String}

theorem reads_consumerTarget : Reads (consumerTarget slug resourceAlias fieldKey) := by
  refine Along.bind composes_eq (Along.mapErr (Along.query fun _ _ => rfl) _) fun tenant => ?_
  refine Along.bind composes_eq (Along.mapErr (Along.query fun _ _ => rfl) _) fun resource => ?_
  refine Along.bind composes_eq (Along.mapErr (Along.query fun _ _ => rfl) _) fun fields => ?_
  split
  · exact Along.fail _
  · exact Along.bind composes_eq (Along.require composes_eq _ _) fun _ => Reads.pure _

/-- A consumer's write that commits changed the catalogue and nothing else. -/
theorem handleConsumerWriteValue_ok
    (h : handleConsumerWriteValue s slug resourceAlias fieldKey body ticks d = .ok (res, ts', d')) :
    ∃ begun in_ pre ts ts'' f c, begun ∈ ticks ∧ ticks = pre ++ ts ∧
      Change.consumerWriteValue s.cryptor in_ ts d.domain.catalog = .ok (f, ts'', c) ∧
      d' = { d with domain := { d.domain with catalog := c } } := by
  obtain ⟨-, -, h₁⟩ := Tx.ofExcept_bind_eq_ok.mp h
  obtain ⟨value, -, h₂⟩ := Tx.ofExcept_bind_eq_ok.mp h₁
  obtain ⟨target, ts₁, dom, htarget, h₃⟩ := Tx.onPart_bind_eq_ok.mp h₂
  obtain ⟨c₁, hread, rfl⟩ := Tx.onPart_eq_ok.mp htarget
  obtain ⟨used, rfl, rfl⟩ := reads_consumerTarget.ok hread
  obtain ⟨begun, ts₂, rfl, h₄⟩ := Tx.draw_bind_eq_ok.mp h₃
  obtain ⟨f, ts₃, dom', hwrite, h₅⟩ := Tx.onPart_bind_eq_ok.mp h₄
  obtain ⟨c₂, hupdate, rfl⟩ := Tx.onPart_eq_ok.mp hwrite
  obtain ⟨committed, rest, -, h₆⟩ := Tx.draw_bind_eq_ok.mp h₅
  cases Tx.pure_eq_ok.mp h₆
  exact ⟨begun, _, used ++ [begun], ts₂, ts₃, f, c₂, by simp, by simp, hupdate, rfl⟩

end consumer

end Tenancit.Httpapi
