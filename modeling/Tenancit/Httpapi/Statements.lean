import Tenancit.Httpapi.Transactions
import Tenancit.Service.ProvisionSpec

/-!
The statements on the catalogue that the handlers run. A relation that reads and these
statements keep holds from before every request that commits to after it. Only the clearing
of an override stands apart: what it deletes is known from the state it finds.
-/
namespace Tenancit.Httpapi

open Encoding Crypto Store Service Queries
open Program

/-- A statement of a handler, with the checks its arguments have passed. `now` is the start
of the transaction. -/
inductive Statement (now : Timestamp) (t : Tick) (c : Catalog) : Catalog → Prop
  | createTenant {raw b : CreateTenantBody} {a c'} (hb : checkCreateTenant raw = .ok b)
      (h : Queries.createTenant now b.slug b.name t c = .ok (a, c')) : Statement now t c c'
  | updateTenant {raw : UpdateTenantBody} {b id a c'} (hb : checkUpdateTenant raw = .ok b)
      (h : Queries.updateTenant now id b.1 b.2.1 b.2.2 t c = .ok (a, c')) : Statement now t c c'
  | deleteTenant {id n c'} (h : Queries.deleteTenant id t c = .ok (n, c')) : Statement now t c c'
  | addTenantDomain {tenantId hostname a c'}
      (h : Queries.addTenantDomain now tenantId hostname t c = .ok (a, c')) :
      Statement now t c c'
  | updateTenantDomain {id tenantId hostname a c'}
      (h : Queries.updateTenantDomain id tenantId hostname t c = .ok (a, c')) : Statement now t c c'
  | removeTenantDomain {id tenantId n c'}
      (h : Queries.removeTenantDomain id tenantId t c = .ok (n, c')) :
      Statement now t c c'
  | createDefinition {raw b : CreateDefinitionBody} {a c'} (hb : checkCreateDefinition raw = .ok b)
      (h : Queries.createDefinition now b.key b.name b.description b.icon t c = .ok (a, c')) :
      Statement now t c c'
  | updateDefinition {id name description a c'}
      (h : Queries.updateDefinition now id name description t c = .ok (a, c')) :
      Statement now t c c'
  | setDefinitionStatus {id status a c'}
      (h : Queries.setDefinitionStatus now id status t c = .ok (a, c')) :
      Statement now t c c'
  | deleteDefinition {id n c'} (h : Queries.deleteDefinition id t c = .ok (n, c')) :
      Statement now t c c'
  | addField {arg a c'} (h : Queries.addField arg t c = .ok (a, c')) : Statement now t c c'
  | updateField {fieldId definitionId label required a c'}
      (h : Queries.updateField fieldId definitionId label required t c = .ok (a, c')) :
      Statement now t c c'
  | removeField {fieldId definitionId n c'}
      (h : Queries.removeField fieldId definitionId t c = .ok (n, c')) :
      Statement now t c c'
  | createTenantResource {arg a c'} (h : Queries.createTenantResource now arg t c = .ok (a, c')) :
      Statement now t c c'
  | updateTenantResourceIdentity {id tenantId resourceAlias displayName a c'}
      (h : Queries.updateTenantResourceIdentity now id tenantId resourceAlias displayName t c =
        .ok (a, c')) :
      Statement now t c c'
  | setTenantResourceStatus {id tenantId status a c'}
      (h : Queries.setTenantResourceStatus now id tenantId status t c = .ok (a, c')) :
      Statement now t c c'
  | deleteTenantResource {id tenantId n c'}
      (h : Queries.deleteTenantResource id tenantId t c = .ok (n, c')) :
      Statement now t c c'
  | upsertResourceValue {arg a c'} (h : Queries.upsertResourceValue arg t c = .ok (a, c')) :
      Statement now t c c'

/-- The relation is kept by programs that read and by the statements. -/
structure KeptByStatements (R : Timestamp → Catalog → List Tick → Catalog → Prop) : Prop where
  composes : ∀ now, Composes (R now)
  reads : ∀ now t c, R now c [t] c
  statements : ∀ {now t c c'}, Statement now t c c' → R now c [t] c'

/-- The relation holds between the catalogues, with ticks of the given ones as those used. -/
def Kept (R : Timestamp → Catalog → List Tick → Catalog → Prop) (ticks : List Tick)
    (c c' : Catalog) : Prop :=
  ∃ begun ∈ ticks, ∃ used, (∀ t ∈ used, t ∈ ticks) ∧ R begun.clock c used c'

variable {R : Timestamp → Catalog → List Tick → Catalog → Prop} {now : Timestamp}

namespace KeptByStatements

theorem upserts (hR : KeptByStatements R) (now : Timestamp) : KeptByUpserts (R now) where
  composes := hR.composes now
  reads := hR.reads now
  upserts h := hR.statements (.upsertResourceValue h)

/-- One statement, and nothing else. -/
theorem statement (hR : KeptByStatements R) {α : Type}
    {f : Tick → Catalog → Except PgError (α × Catalog)} {onError : PgError → Response}
    (hf : ∀ t c a c', f t c = .ok (a, c') → Statement now t c c') :
    Along (R now) ((run f).mapErr onError) :=
  Along.mapErr (Along.statement fun _ _ _ _ h => hR.statements (hf _ _ _ _ h)) _

/-- A read, a statement, and the answer made of the two. -/
theorem change (hR : KeptByStatements R) {α β γ : Type} {q : Catalog → Except PgError α}
    {f : Tick → Catalog → Except PgError (β × Catalog)} {onError : PgError → Response}
    {g : α → β → γ} (hf : ∀ t c b c', f t c = .ok (b, c') → Statement now t c c') :
    Along (R now) (do
      let a ← readOr404 q
      let b ← (run f).mapErr onError
      pure (g a b)) :=
  Along.bind (hR.composes now) (hR.upserts now).read fun _ =>
    Along.bind (hR.composes now) (hR.statement hf) fun _ => Along.pure (hR.composes now) _

theorem deleteOr404 (hR : KeptByStatements R) {q : Tick → Catalog → Except PgError (Nat × Catalog)}
    {onForeignKey : Response} (hq : ∀ t c n c', q t c = .ok (n, c') → Statement now t c c') :
    Along (R now) (Httpapi.deleteOr404 q onForeignKey) :=
  Along.bind (hR.composes now) (hR.statement hq) fun _ => Along.require (hR.composes now) _ _

/-- A read, a delete, and what was read. -/
theorem delete (hR : KeptByStatements R) {α : Type} {q : Catalog → Except PgError α}
    {f : Tick → Catalog → Except PgError (Nat × Catalog)} {onForeignKey : Response}
    (hf : ∀ t c n c', f t c = .ok (n, c') → Statement now t c c') :
    Along (R now) (do
      let a ← readOr404 q
      Httpapi.deleteOr404 f onForeignKey
      pure a) :=
  Along.bind (hR.composes now) (hR.upserts now).read fun _ =>
    Along.bind (hR.composes now) (hR.deleteOr404 hf) fun _ => Along.pure (hR.composes now) _

theorem deleteTenant (hR : KeptByStatements R) {id : UUID} :
    Along (R now) (Change.deleteTenant id) :=
  Along.bind (hR.composes now) (hR.upserts now).read fun _ =>
    Along.bind (hR.composes now) (hR.upserts now).read fun _ =>
      Along.bind (hR.composes now) (hR.deleteOr404 fun _ _ _ _ h => .deleteTenant h) fun _ =>
        Along.pure (hR.composes now) _

variable {Key : Type} {aead : Aead Key} {cryptor : Cryptor aead} {tenantId : UUID}

theorem createResource (hR : KeptByStatements R) {b : CreateResourceBody} :
    Along (R now) (Change.createResource cryptor tenantId b now) :=
  Along.mapErr ((hR.upserts now).provisionResource (fun h =>
    hR.statements (.createTenantResource h)) _) _

theorem duplicateResource (hR : KeptByStatements R) {resourceId : UUID} {resourceAlias : String} :
    Along (R now) (Change.duplicateResource cryptor tenantId resourceId resourceAlias now) :=
  Along.mapErr ((hR.upserts now).duplicateResourceInTx (fun h =>
    hR.statements (.createTenantResource h)) _ _ _) _

theorem updateResourceField (hR : KeptByStatements R) {in_ : UpdateResourceFieldInput} :
    Along (R now) (Change.updateResourceField cryptor in_) :=
  Along.mapErr ((hR.upserts now).updateResourceFieldInTx _) _

end KeptByStatements

section handlers

variable {α : Type} {r : AdminRequest} {audit : α → Option AuditEntry} {ticks ts' : List Tick}
  {d d' : Database}

/-- A mutation whose change to the catalogue keeps the relation. -/
theorem Commits.kept {change : Timestamp → Tx Catalog Response α}
    (hchange : ∀ now, Along (R now) (change now))
    (h : Commits r (fun now => onCatalog (change now)) audit ticks d d') :
    Kept R ticks d.domain.catalog d'.domain.catalog := by
  obtain ⟨begun, hbegun, used, hused, hR⟩ := h.domain
    (R := fun now d used d' => R now d.catalog used d'.catalog)
    fun now => Along.onPart (hchange now) fun _ _ _ h => h
  exact ⟨begun, hbegun, used, hused, hR⟩

/-- A mutation of the clients leaves the catalogue alone. -/
theorem Commits.kept_clients {change : Timestamp → Tx ClientTables Response α}
    (hR : KeptByStatements R) (hchange : ∀ now, Draws (change now))
    (h : Commits r (fun now => onClients (change now)) audit ticks d d') :
    Kept R ticks d.domain.catalog d'.domain.catalog := by
  have hsame : ∀ now, Along (fun (s : Domain) (_ : List Tick) s' => s'.catalog = s.catalog)
      (onClients (change now)) :=
    fun now => Along.onPart (hchange now) fun _ _ _ _ => rfl
  obtain ⟨begun, hbegun, -, -, heq⟩ := h.domain (R := fun _ s _ s' => s'.catalog = s.catalog) hsame
  exact ⟨begun, hbegun, [], by simp, heq ▸ (hR.composes begun.clock).nil _⟩

theorem draws_read {δ ε β : Type} {q : δ → Except PgError β} {f : PgError → ε} :
    Draws ((read q).mapErr f) :=
  Along.mapErr (Along.query fun _ _ => trivial) f

theorem draws_createAPIClient {sha256 : Bytes → Bytes} {in_ : ApiClientPolicyInput}
    {now : Timestamp} :
    Draws (Change.createAPIClient sha256 in_ now) :=
  Along.bind composes_true (Along.draw fun _ _ => trivial) fun _ =>
    Along.bind composes_true (Along.mapErr draws_run _) fun _ =>
      Along.bind composes_true (Along.mapErr draws_run _) fun _ => Along.pure composes_true _

theorem draws_updateAPIClient {id : UUID} {in_ : ApiClientPolicyInput} :
    Draws (Change.updateAPIClient id in_) :=
  Along.bind composes_true draws_read fun _ =>
    Along.bind composes_true (Along.draw fun _ _ => trivial) fun _ =>
    Along.bind composes_true (Along.require composes_true _ _) fun _ =>
      Along.bind composes_true (Along.mapErr draws_run _) fun _ =>
        Along.bind composes_true (Along.mapErr draws_run _) fun _ => Along.pure composes_true _

theorem draws_rotateAPIClient {sha256 : Bytes → Bytes} {id : UUID} {graceSeconds : Int32}
    {now : Timestamp} :
    Draws (Change.rotateAPIClient sha256 id graceSeconds now) := by
  refine Along.bind composes_true (Along.draw fun _ _ => trivial) fun _ => ?_
  refine Along.bind composes_true draws_read fun _ => ?_
  refine Along.bind composes_true (Along.require composes_true _ _) fun _ => ?_
  refine Along.bind composes_true ?_ fun _ => ?_
  · unfold Change.savePrevious
    split
    · exact Along.bind composes_true (Along.draw fun _ _ => trivial) fun _ =>
        Along.mapErr draws_run _
    · exact Along.pure composes_true _
  · exact Along.bind composes_true (Along.mapErr draws_run _) fun _ => Along.pure composes_true _

theorem draws_revokeAPIClient {id : UUID} : Draws (Change.revokeAPIClient id) :=
  Along.bind composes_true draws_read fun _ =>
    Along.bind composes_true (Along.mapErr draws_run _) fun _ => Along.pure composes_true _

theorem draws_deleteAPIClient {id : UUID} : Draws (Change.deleteAPIClient id) :=
  Along.bind composes_true draws_read fun _ =>
  Along.bind composes_true (Along.require composes_true _ _) fun _ =>
    Along.bind composes_true (Along.mapErr draws_run _) fun _ =>
      Along.bind composes_true (Along.require composes_true _ _) fun _ => Along.pure composes_true _

theorem reads_scopes {id : UUID} :
    Reads (onClients ((read (Queries.listAPIClientScopes id)).mapErr fun _ =>
      writeInternalError)) :=
  Along.onPart (R := fun s _ s' => s' = s) (Along.mapErr (Along.query fun _ _ => rfl) _)
    fun d _ x h => by
    subst h
    rfl

theorem reads_newClient {scopes : List String} {c : ApiClient × String} :
    Reads (do
      let now ← Tx.draw writeInternalError
      pure (createAPIClientResponse c.1 scopes now.clock c.2) : Store.Tx Domain Response Json) :=
  Along.bind composes_eq (Along.draw fun _ _ => rfl) fun _ => Reads.pure _

theorem reads_rotatedClient {id : UUID} {c : ApiClient × String} :
    Reads (do
      let scopes ← onClients ((read (Queries.listAPIClientScopes id)).mapErr
        fun _ => writeInternalError)
      let now ← Tx.draw writeInternalError
      pure (createAPIClientResponse c.1 scopes now.clock c.2) : Store.Tx Domain Response Json) :=
  Along.bind composes_eq reads_scopes fun _ =>
    Along.bind composes_eq (Along.draw fun _ _ => rfl) fun _ => Reads.pure _

variable {Key : Type} {aead : Aead Key} {s : Server aead} {res : Response}

/-- A consumer's write changes the catalogue as a field update does. -/
theorem KeptByStatements.consumerWriteValue (hR : KeptByStatements R)
    {slug resourceAlias fieldKey : String} {body : Except Response String}
    (h : handleConsumerWriteValue s slug resourceAlias fieldKey body ticks d = .ok (res, ts', d')) :
    Kept R ticks d.domain.catalog d'.domain.catalog := by
  obtain ⟨begun, in_, pre, ts, ts₁, f, c, hbegun, rfl, hwrite, rfl⟩ := handleConsumerWriteValue_ok h
  have hkeeps : Along (R begun.clock) (Change.consumerWriteValue s.cryptor in_) :=
    Along.mapErr ((hR.upserts _).updateResourceFieldInTx _) _
  obtain ⟨used, rfl, hused⟩ := hkeeps.ok hwrite
  exact ⟨begun, hbegun, used, fun t ht => by simp [ht], hused⟩

def Request.Clears : Request → Prop
  | .clearResourceFieldOverride _ _ _ _ => True
  | _ => False

/-- What the statements keep, every handler that commits keeps, unless it clears an override. -/
theorem Request.kept {x : Request} (hR : KeptByStatements R) (hx : ¬x.Clears)
    (h : x.handler s ticks d = .ok (res, ts', d')) :
    Kept R ticks d.domain.catalog d'.domain.catalog := by
  cases x with
  | createTenant r body =>
    obtain ⟨b, hb, h₁⟩ := Tx.ofExcept_bind_eq_ok.mp h
    obtain ⟨request, -, h₂⟩ := Tx.ofExcept_bind_eq_ok.mp h₁
    obtain ⟨raw, -, hb⟩ := bind_eq_ok.mp hb
    exact (idempotentMutation_ok (fun _ => Reads.pure _) h₂).kept fun now =>
      hR.statement fun _ _ _ _ hq => .createTenant hb hq
  | updateTenant r id body =>
    obtain ⟨id, -, h₁⟩ := Tx.ofExcept_bind_eq_ok.mp h
    obtain ⟨b, hb, h₂⟩ := Tx.ofExcept_bind_eq_ok.mp h₁
    obtain ⟨raw, -, hb⟩ := bind_eq_ok.mp hb
    exact (auditedMutation_ok (fun _ => Reads.pure _) h₂).kept fun now =>
      hR.change fun _ _ _ _ hq => .updateTenant hb hq
  | deleteTenant r id =>
    obtain ⟨id, -, h₁⟩ := Tx.ofExcept_bind_eq_ok.mp h
    exact (auditedMutation_ok (fun _ => Reads.pure _) h₁).kept fun now => hR.deleteTenant
  | addDomain r id body =>
    obtain ⟨id, -, h₁⟩ := Tx.ofExcept_bind_eq_ok.mp h
    obtain ⟨hostname, -, h₂⟩ := Tx.ofExcept_bind_eq_ok.mp h₁
    exact (auditedMutation_ok (fun _ => Reads.pure _) h₂).kept fun now =>
      hR.statement fun _ _ _ _ hq => .addTenantDomain hq
  | updateDomain r id domainId body =>
    obtain ⟨id, -, h₁⟩ := Tx.ofExcept_bind_eq_ok.mp h
    obtain ⟨domainId, -, h₂⟩ := Tx.ofExcept_bind_eq_ok.mp h₁
    obtain ⟨hostname, -, h₃⟩ := Tx.ofExcept_bind_eq_ok.mp h₂
    exact (auditedMutation_ok (fun _ => Reads.pure _) h₃).kept fun now =>
      hR.change fun _ _ _ _ hq => .updateTenantDomain hq
  | deleteDomain r id domainId =>
    obtain ⟨id, -, h₁⟩ := Tx.ofExcept_bind_eq_ok.mp h
    obtain ⟨domainId, -, h₂⟩ := Tx.ofExcept_bind_eq_ok.mp h₁
    exact (auditedMutation_ok (fun _ => Reads.pure _) h₂).kept fun now =>
      hR.delete fun _ _ _ _ hq => .removeTenantDomain hq
  | createResource r id body =>
    obtain ⟨id, -, h₁⟩ := Tx.ofExcept_bind_eq_ok.mp h
    obtain ⟨b, -, h₂⟩ := Tx.ofExcept_bind_eq_ok.mp h₁
    obtain ⟨request, -, h₃⟩ := Tx.ofExcept_bind_eq_ok.mp h₂
    exact (idempotentMutation_ok (fun _ => Reads.pure _) h₃).kept fun now => hR.createResource
  | updateResourceIdentity r id resourceId body =>
    obtain ⟨id, -, h₁⟩ := Tx.ofExcept_bind_eq_ok.mp h
    obtain ⟨resourceId, -, h₂⟩ := Tx.ofExcept_bind_eq_ok.mp h₁
    obtain ⟨b, -, h₃⟩ := Tx.ofExcept_bind_eq_ok.mp h₂
    exact (auditedMutation_ok (fun _ => Reads.pure _) h₃).kept fun now =>
      hR.change fun _ _ _ _ hq => .updateTenantResourceIdentity hq
  | duplicateResource r id resourceId body =>
    obtain ⟨id, -, h₁⟩ := Tx.ofExcept_bind_eq_ok.mp h
    obtain ⟨resourceId, -, h₂⟩ := Tx.ofExcept_bind_eq_ok.mp h₁
    obtain ⟨resourceAlias, -, h₃⟩ := Tx.ofExcept_bind_eq_ok.mp h₂
    obtain ⟨request, -, h₄⟩ := Tx.ofExcept_bind_eq_ok.mp h₃
    exact (idempotentMutation_ok (fun _ => Reads.pure _) h₄).kept fun now => hR.duplicateResource
  | setResourceStatus r id resourceId body =>
    obtain ⟨id, -, h₁⟩ := Tx.ofExcept_bind_eq_ok.mp h
    obtain ⟨resourceId, -, h₂⟩ := Tx.ofExcept_bind_eq_ok.mp h₁
    obtain ⟨status, -, h₃⟩ := Tx.ofExcept_bind_eq_ok.mp h₂
    exact (auditedMutation_ok (fun _ => Reads.pure _) h₃).kept fun now =>
      hR.change fun _ _ _ _ hq => .setTenantResourceStatus hq
  | updateResourceField r id resourceId fieldKey body =>
    obtain ⟨id, -, h₁⟩ := Tx.ofExcept_bind_eq_ok.mp h
    obtain ⟨resourceId, -, h₂⟩ := Tx.ofExcept_bind_eq_ok.mp h₁
    obtain ⟨fieldKey, -, h₃⟩ := Tx.ofExcept_bind_eq_ok.mp h₂
    obtain ⟨value, -, h₄⟩ := Tx.ofExcept_bind_eq_ok.mp h₃
    exact (auditedMutation_ok (fun _ => Reads.pure _) h₄).kept fun now => hR.updateResourceField
  | clearResourceFieldOverride r id resourceId fieldKey => exact absurd trivial hx
  | deleteResource r id resourceId =>
    obtain ⟨id, -, h₁⟩ := Tx.ofExcept_bind_eq_ok.mp h
    obtain ⟨resourceId, -, h₂⟩ := Tx.ofExcept_bind_eq_ok.mp h₁
    exact (auditedMutation_ok (fun _ => Reads.pure _) h₂).kept fun now =>
      hR.delete fun _ _ _ _ hq => .deleteTenantResource hq
  | createDefinition r body =>
    obtain ⟨b, hb, h₁⟩ := Tx.ofExcept_bind_eq_ok.mp h
    obtain ⟨raw, -, hb⟩ := bind_eq_ok.mp hb
    exact (auditedMutation_ok (fun _ => Reads.pure _) h₁).kept fun now =>
      hR.statement fun _ _ _ _ hq => .createDefinition hb hq
  | updateDefinition r id body =>
    obtain ⟨id, -, h₁⟩ := Tx.ofExcept_bind_eq_ok.mp h
    obtain ⟨b, -, h₂⟩ := Tx.ofExcept_bind_eq_ok.mp h₁
    exact (auditedMutation_ok (fun _ => Reads.pure _) h₂).kept fun now =>
      hR.change fun _ _ _ _ hq => .updateDefinition hq
  | setDefinitionStatus r id body =>
    obtain ⟨id, -, h₁⟩ := Tx.ofExcept_bind_eq_ok.mp h
    obtain ⟨b, -, h₂⟩ := Tx.ofExcept_bind_eq_ok.mp h₁
    exact (auditedMutation_ok (fun _ => Reads.pure _) h₂).kept fun now =>
      hR.change fun _ _ _ _ hq => .setDefinitionStatus hq
  | deleteDefinition r id =>
    obtain ⟨id, -, h₁⟩ := Tx.ofExcept_bind_eq_ok.mp h
    exact (auditedMutation_ok (fun _ => Reads.pure _) h₁).kept fun now =>
      hR.delete fun _ _ _ _ hq => .deleteDefinition hq
  | addField r id body =>
    obtain ⟨id, -, h₁⟩ := Tx.ofExcept_bind_eq_ok.mp h
    obtain ⟨arg, -, h₂⟩ := Tx.ofExcept_bind_eq_ok.mp h₁
    exact (auditedMutation_ok (fun _ => Reads.pure _) h₂).kept fun now =>
      hR.statement fun _ _ _ _ hq => .addField hq
  | updateField r id fieldId body =>
    obtain ⟨id, -, h₁⟩ := Tx.ofExcept_bind_eq_ok.mp h
    obtain ⟨fieldId, -, h₂⟩ := Tx.ofExcept_bind_eq_ok.mp h₁
    obtain ⟨b, -, h₃⟩ := Tx.ofExcept_bind_eq_ok.mp h₂
    exact (auditedMutation_ok (fun _ => Reads.pure _) h₃).kept fun now =>
      hR.change fun _ _ _ _ hq => .updateField hq
  | deleteField r id fieldId =>
    obtain ⟨id, -, h₁⟩ := Tx.ofExcept_bind_eq_ok.mp h
    obtain ⟨fieldId, -, h₂⟩ := Tx.ofExcept_bind_eq_ok.mp h₁
    exact (auditedMutation_ok (fun _ => Reads.pure _) h₂).kept fun now =>
      hR.delete fun _ _ _ _ hq => .removeField hq
  | createAPIClient r body =>
    obtain ⟨in_, -, h₁⟩ := Tx.ofExcept_bind_eq_ok.mp h
    obtain ⟨t, rest, rfl, h₂⟩ := Tx.draw_bind_eq_ok.mp h₁
    obtain ⟨in_, -, h₃⟩ := Tx.ofExcept_bind_eq_ok.mp h₂
    obtain ⟨request, -, h₄⟩ := Tx.ofExcept_bind_eq_ok.mp h₃
    exact (idempotentMutation_ok (fun _ => reads_newClient) h₄).cons.kept_clients hR
      fun now => draws_createAPIClient
  | updateAPIClient r id body =>
    obtain ⟨id, -, h₁⟩ := Tx.ofExcept_bind_eq_ok.mp h
    obtain ⟨in_, -, h₂⟩ := Tx.ofExcept_bind_eq_ok.mp h₁
    obtain ⟨t, rest, rfl, h₃⟩ := Tx.draw_bind_eq_ok.mp h₂
    obtain ⟨in_, -, h₄⟩ := Tx.ofExcept_bind_eq_ok.mp h₃
    exact (auditedMutation_ok (fun _ => Reads.pure _) h₄).cons.kept_clients hR
      fun now => draws_updateAPIClient
  | rotateAPIClient r id body =>
    obtain ⟨id, -, h₁⟩ := Tx.ofExcept_bind_eq_ok.mp h
    obtain ⟨graceSeconds, -, h₂⟩ := Tx.ofExcept_bind_eq_ok.mp h₁
    obtain ⟨request, -, h₃⟩ := Tx.ofExcept_bind_eq_ok.mp h₂
    exact (idempotentMutation_ok (fun _ => reads_rotatedClient) h₃).kept_clients hR
      fun now => draws_rotateAPIClient
  | revokeAPIClient r id =>
    obtain ⟨id, -, h₁⟩ := Tx.ofExcept_bind_eq_ok.mp h
    exact (auditedMutation_ok (fun _ => reads_scopes) h₁).kept_clients hR
      fun now => draws_revokeAPIClient
  | deleteAPIClient r id =>
    obtain ⟨id, -, h₁⟩ := Tx.ofExcept_bind_eq_ok.mp h
    exact (auditedMutation_ok (fun _ => Reads.pure _) h₁).kept_clients hR
      fun now => draws_deleteAPIClient
  | consumerWriteValue slug resourceAlias fieldKey body => exact hR.consumerWriteValue h

/-- A committed clear: it has deleted the values of one key. -/
theorem clear_ok {r : AdminRequest} {id resourceId : Option UUID} {fieldKey : String}
    (h : (Request.clearResourceFieldOverride r id resourceId fieldKey).handler s ticks
      d = .ok (res, ts', d')) :
    ∃ key, d'.domain.catalog =
      { d.domain.catalog with
        values := Table.delete (fun v => Queries.valueKey v = key) d.domain.catalog.values } := by
  obtain ⟨tenantId, -, h₁⟩ := Tx.ofExcept_bind_eq_ok.mp h
  obtain ⟨resourceId, -, h₂⟩ := Tx.ofExcept_bind_eq_ok.mp h₁
  obtain ⟨begun, pre, f, ts, ts₁, ts₂, -, -, hchange, -⟩ :=
    auditedMutation_ok (fun _ => Reads.pure _) h₂
  obtain ⟨c, hclear, heq⟩ := Tx.onPart_eq_ok.mp hchange
  obtain ⟨res, -, -, -, -, -, -, rfl⟩ :=
    clearResourceFieldOverrideInTx_ok (Tx.mapErr_eq_ok.mp hclear)
  exact ⟨_, by rw [heq]⟩

end handlers

end Tenancit.Httpapi
