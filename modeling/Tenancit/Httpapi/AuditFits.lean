import Tenancit.Httpapi.AdminSession
import Tenancit.Httpapi.AuditOctets
import Tenancit.Httpapi.Governance
import Tenancit.Httpapi.Names

/-!
Whether the audit log stands in the way of what it records. An operation that passes all other
checks commits exactly if the metadata of its entry is within the limit of the log and the texts
that come from the request fit the indexes, and nothing else of the entry is refused.
-/
namespace Tenancit.Httpapi

open Encoding Encoding.Json Crypto Store Adminauth
open Program
open Program.Tx (draw)

variable {Key : Type} {aead : Aead Key}

/-- A request that is let in: `middleware.RequestID` has given it an identifier, and
`RequireAdminIdentity` or `RequireAdminToken` a principal. -/
structure AdminRequest.Admitted (cfg : AdminConfig aead) (r : AdminRequest) : Prop where
  requestId : r.requestId ≠ ""
  principal : ∃ p : AdminPrincipal, r.principal = some p.toPrincipal ∧ ∃ head,
    requireAdminToken cfg head = .ok p ∨
    ∃ policy now rows, (requireAdminIdentity cfg policy now head rows).1 = .ok p

theorem AdminRequest.Admitted.accepted {cfg : AdminConfig aead} {r : AdminRequest}
    (h : r.Admitted cfg) : r.Accepted where
  requestId := h.requestId
  issuer p hp := by
    obtain ⟨value, hvalue, head, htoken | ⟨policy, now, rows, hidentity⟩⟩ := h.principal
    · cases hp.symm.trans hvalue
      exact requireAdminToken_issuer htoken
    · cases hp.symm.trans hvalue
      exact requireAdminIdentity_issuer hidentity

/-- The operations that are audited: a mutation of the catalogue or the clients, a listing
that reveals secrets, and what is accepted on the other tables. -/
inductive Operation where
  | mutation (x : Request)
  | reveal (r : AdminRequest) (id : Option UUID)
  | govern (r : AdminRequest) (g : Governed)

/-- The rest of the transaction of a handler of the other tables: the entry and the commit. -/
def governBy (audit : Auditor) (r : AdminRequest) (g : Governed) :
    Tx Database Response Response := do
  onEvents (audit r g.entry)
  let _ ← draw writeInternalError
  pure ⟨g.entry.status, [], []⟩

def Operation.handler (s : Server aead) : Operation → Tx Database Response Response
  | mutation x => x.handler s
  | reveal r id => listTenantResources s r id true
  | govern r g => governBy insertAdminAuditSuccess r g

/-- The handler over an audit log that refuses nothing. -/
def Operation.handlerUnchecked (s : Server aead) : Operation → Tx Database Response Response
  | mutation x => x.handlerBy insertAdminAuditUnchecked s
  | reveal r id => listTenantResourcesBy insertAdminAuditUnchecked s r id true
  | govern r g => governBy insertAdminAuditUnchecked r g

/-- The requests of an operation: none for a consumer's. -/
def Operation.admin : Operation → Option AdminRequest
  | mutation x => x.admin
  | reveal r _ => some r
  | govern r _ => some r

/-- The octets of the metadata of the entry, from the request and the rows before it. -/
def Operation.auditOctets (d : Domain) : Operation → Nat
  | mutation x => x.auditOctets d
  | reveal _ id => ofSome id (revealOctets d.catalog)
  | govern _ g => g.entry.metadata.octets

/-- The texts of the entry that come from the request fit the indexes of the log, if there is
an entry. -/
def Operation.Indexed (rules : TextRules) (d : Domain) : Operation → Prop
  | mutation x => x.Indexed rules d
  | reveal r _ => r.Indexed rules
  | govern r g => r.Indexed rules ∧ g.Targeted rules

/-- An operation with the server that takes it and the ticks it draws. -/
structure Operated {Key : Type} (aead : Aead Key) where
  config : AdminConfig aead
  operation : Operation
  ticks : List Tick

namespace Operated

def Admitted (x : Operated aead) : Prop := ∀ r, x.operation.admin = some r → r.Admitted x.config

/-- The operation as the server carries it out. -/
def outcome (x : Operated aead) (d : Database) : Outcome Response Database :=
  transact (x.operation.handler x.config.toServer) x.ticks d

/-- The operation passes all checks but those of the audit log, and meets no fault. -/
def Passes (x : Operated aead) (d : Database) : Prop :=
  (transact (x.operation.handlerUnchecked x.config.toServer) x.ticks d).committed = true

instance (x : Operated aead) (d : Database) : Decidable (x.Passes d) :=
  inferInstanceAs (Decidable (_ = true))

/-- A step of a run: an operation, or what any other transaction leaves in the keys of the
schema. -/
inductive Step (d : Database) : Option (Operated aead) → Database → Prop
  | operated (x : Operated aead) : Step d (some x) (x.outcome d).store
  | others (d' : Database) (kept : d.domain.catalog.Named → d'.domain.catalog.Named) :
      Step d none d'

end Operated

section runs

variable {x : Operated aead} {xs : List (Option (Operated aead))} {d d' : Database}
  {rules : TextRules}

theorem governBy_domain {audit : Auditor} {r : AdminRequest} {g : Governed} {ts ts' : List Tick}
    {res : Response} (h : governBy audit r g ts d = .ok (res, ts', d')) : d'.domain = d.domain := by
  obtain ⟨a, ts₁, d₁, hevents, h₁⟩ := Tx.bind_eq_ok.mp h
  obtain ⟨events, -, rfl⟩ := Tx.onPart_eq_ok.mp hevents
  obtain ⟨t, ts₂, -, h₂⟩ := Tx.draw_bind_eq_ok.mp h₁
  cases Tx.pure_eq_ok.mp h₂
  rfl

theorem auditReveal_domain {r : AdminRequest} {id : UUID} {built : List Service.BuiltResourceFields}
    {ts ts' : List Tick}
    (h : auditReveal insertAdminAuditSuccess r id built ts d = .ok ((), ts', d')) :
    d'.domain = d.domain := by
  obtain ⟨t, ts₁, -, h₁⟩ := Tx.draw_bind_eq_ok.mp h
  obtain ⟨a, ts₂, d₁, hevents, h₂⟩ := Tx.bind_eq_ok.mp h₁
  obtain ⟨events, -, rfl⟩ := Tx.onPart_eq_ok.mp hevents
  obtain ⟨t', ts₃, -, h₃⟩ := Tx.draw_bind_eq_ok.mp h₂
  cases Tx.pure_eq_ok.mp h₃
  rfl

theorem listTenantResources_domain {s : Server aead} {r : AdminRequest} {id : Option UUID}
    {ts ts' : List Tick} {res : Response} (hd : d.domain.catalog.WellFormed)
    (h : listTenantResources s r id true ts d = .ok (res, ts', d')) : d'.domain = d.domain := by
  obtain ⟨id', -, h₁⟩ := Tx.ofExcept_bind_eq_ok.mp h
  obtain ⟨built, ts₁, d₁, hbuilt, h₂⟩ := Tx.bind_eq_ok.mp (Tx.mapErr_eq_ok.mp h₁)
  obtain ⟨rfl, -⟩ := loadResources_octets hd hbuilt
  obtain ⟨a, ts₂, d₂, haudit, h₃⟩ := Tx.bind_eq_ok.mp h₂
  cases Tx.pure_eq_ok.mp h₃
  exact auditReveal_domain haudit

/-- A listing and an entry leave the catalogue alone, and a mutation keeps its keys. -/
theorem Operated.named (hd : d.domain.catalog.Named) :
    (x.outcome d).store.domain.catalog.Named := by
  obtain ⟨cfg, operation, ticks⟩ := x
  cases hc : (Operated.outcome ⟨cfg, operation, ticks⟩ d).committed with
  | false => exact (transact_rolled_back hc).symm ▸ hd
  | true =>
    obtain ⟨res, ts', hok⟩ := transact_committed hc
    cases operation with
    | mutation request => exact Served.named (x := ⟨cfg.toServer, request, ticks⟩) hd
    | reveal r id => exact (listTenantResources_domain hd.toWellFormed hok).symm ▸ hd
    | govern r g => exact (governBy_domain hok).symm ▸ hd

theorem operated_run_named (h : Runs.Run Operated.Step {} xs d) : d.domain.catalog.Named := by
  refine h.invariant (P := fun d : Database => d.domain.catalog.Named)
    (fun d x d' hd hstep => ?_) .empty
  cases hstep with
  | operated x => exact Operated.named hd
  | others d' kept => exact kept hd

/-- An operation commits exactly if it does over an audit log that refuses nothing, its metadata
is within the limit and its texts fit the indexes. -/
theorem Operated.narrowed (hx : x.Admitted) (hd : d.domain.catalog.WellFormed)
    (hrules : rules.TakesShort) (hticks : Ruled rules x.ticks) :
    Narrowed (x.operation.auditOctets d.domain ≤ 8192 ∧ x.operation.Indexed rules d.domain)
      (x.operation.handler x.config.toServer)
      (x.operation.handlerUnchecked x.config.toServer) x.ticks d := by
  obtain ⟨cfg, operation, ticks⟩ := x
  cases operation with
  | mutation request => exact Request.narrowed (fun r hr => (hx r hr).accepted) hrules hticks
  | reveal r id => exact narrowed_reveal (hx r rfl).accepted hd hrules hticks
  | govern r g =>
    have hentry := narrowed_audit (s := d.events) (hx r rfl).accepted g.fixed hrules hticks
    rw [← g.targeted_iff hrules] at hentry
    exact Narrowed.bind_left (Narrowed.onPart hentry) _

/-- The metadata of what is accepted on the other tables is never too long. -/
theorem govern_fits (r : AdminRequest) (g : Governed) (d : Domain) :
    (Operation.govern r g).auditOctets d ≤ 8192 :=
  g.octets_le

end runs

section sample

def sampleConfig : AdminConfig Aead.tagged where
  toServer := sampleServer
  adminOrigin := ""
  breakGlassTokenHash := ""
  breakGlassVersion := ""
  adminTokenHash := Service.hashAPIKey sampleHash "token"
  parseURL _ := none

def samplePrimary : AdminRequest := ⟨"req", some sharedAdminPrincipal.toPrincipal, "PATCH", none⟩

theorem samplePrimary_admitted : samplePrimary.Admitted sampleConfig where
  requestId := by decide
  principal := by
    refine ⟨sharedAdminPrincipal, rfl, ⟨"req", "PATCH", "token", none, "", "", "", ""⟩,
      .inl (if_neg ?_)⟩
    rintro (hbearer | hhash)
    · exact absurd hbearer (by decide)
    · exact hhash rfl

/-- The tenant and the definition of the sample. -/
def sampleOperations : List (Option (Operated Aead.tagged)) :=
  (sampleSetup.take 2).map fun x => some ⟨sampleConfig, .mutation x.request, x.ticks⟩

def sampleDefined : Database := afterAll (sampleSetup.take 2) {}

theorem sampleOperations_run : Runs.Run Operated.Step {} sampleOperations sampleDefined :=
  .cons (.operated _) (.cons (.operated _) (.nil _))

/-- A new description for the definition. -/
def sampleDescribe (description : String) : Operated Aead.tagged :=
  ⟨sampleConfig, .mutation (.updateDefinition samplePrimary (some 19001) (.ok ⟨"DB", description⟩)),
   ticksFrom 36 18⟩

theorem sampleDescribe_admitted (description : String) : (sampleDescribe description).Admitted := by
  intro r hr
  cases hr
  exact samplePrimary_admitted

theorem sampleDescribe_ruled (description : String) :
    Ruled .plain (sampleDescribe description).ticks := by
  intro t ht
  obtain ⟨i, -, rfl⟩ := List.mem_map.mp ht
  rfl

/-- A text of so many letters. -/
def letters (n : Nat) : String := String.ofList (List.replicate n 'a')

theorem mem_letters {n : Nat} {c : Char} (h : c ∈ (letters n).toList) : c = 'a' := by
  rw [letters, String.toList_ofList] at h
  exact List.eq_of_mem_replicate h

theorem letters_octets (n : Nat) : quotedOctets (letters n) = n + 2 := by
  have hplain : ∀ c ∈ (letters n).toList, Plain c := by
    intro c hc
    rw [mem_letters hc]
    exact ⟨by decide, by decide, by decide, by decide⟩
  rw [quotedOctets_plain hplain, letters, String.toList_ofList, List.length_replicate]

theorem letters_checked (n : Nat) :
    checkUpdateDefinition ⟨"DB", letters n⟩ = .ok ⟨"DB", letters n⟩ := by
  have htrim : Text.trimSpace (letters n) = letters n := by
    rw [Text.trimSpace, Text.trim_eq_self, String.ofList_toList]
    intro c hc
    rw [mem_letters hc]
    decide
  have hname : Text.trimSpace "DB" = "DB" := by decide
  rw [checkUpdateDefinition, htrim, hname]
  exact if_neg (show ¬"DB" = "" by decide)

theorem letters_refused {n : Nat} (hn : 8192 ≤ n) :
    ((sampleDescribe (letters n)).outcome sampleDefined).committed = false := by
  cases hc : ((sampleDescribe (letters n)).outcome sampleDefined).committed with
  | false => rfl
  | true =>
    exfalso
    obtain ⟨res, ts, hok⟩ := transact_committed hc
    have hnarrowed := Operated.narrowed (sampleDescribe_admitted (letters n))
      (operated_run_named sampleOperations_run).toWellFormed TextRules.takesShort_plain
        (sampleDescribe_ruled _)
    have hfits := ((hnarrowed _).mp hok).2.1
    have hsome : (Table.lookup ResourceDefinition.id 19001
        sampleDefined.domain.catalog.definitions).isSome = true := by
      decide +kernel
    obtain ⟨row, hrow⟩ := Option.isSome_iff_exists.mp hsome
    have hbody : ((.ok ⟨"DB", letters n⟩ : Except Response UpdateDefinitionBody) >>=
      checkUpdateDefinition) =
      .ok ⟨"DB", letters n⟩ := by
      simp only [bind, Except.bind, letters_checked]
    simp only [sampleDescribe, Operation.auditOctets, Request.auditOctets, Option.bind_some,
      hrow, ofSome_some, hbody,
      ofOk_ok, definitionOctets, objOctets, letters_octets, List.map_cons, List.map_nil,
      List.sum_cons, List.sum_nil,
      reduceCtorEq, if_false] at hfits
    omega

end sample

end Tenancit.Httpapi
