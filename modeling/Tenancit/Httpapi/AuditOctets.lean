import Tenancit.Httpapi.ClientChanges
import Tenancit.Httpapi.ResolveTag
import Tenancit.Httpapi.Statements
import Tenancit.Httpapi.Unchecked
import Tenancit.Service.ProvisionSpec
import Tenancit.Service.ResolveOne

/-!
How many octets the metadata of an audit entry takes, from the texts of the request and of the
rows it names, for every request and for a listing that reveals secrets.
-/
namespace Tenancit.Store.UUID

open Encoding Encoding.Json

theorem plain_text (u : UUID) : ∀ c ∈ u.text.toList, Plain c := by
  intro c hc
  have hdigit : ∀ c ∈ hexDigits 32 u.val, Plain c := by
    intro c hc
    obtain ⟨d, hd, rfl⟩ := List.mem_map.mp hc
    have hall : ∀ d < 16, 32 ≤ d.digitChar.toNat ∧ d.digitChar.toNat < 128 ∧ d.digitChar ≠
        '"' ∧ d.digitChar ≠ '\\' := by
      decide
    exact hall d (fixedDigits_lt (by decide) d hd)
  have hdash : Plain '-' := ⟨by decide, by decide, by decide, by decide⟩
  simp only [text, String.toList_ofList, dashed, List.mem_append, List.mem_cons] at hc
  rcases hc with hc | rfl | hc | rfl | hc | rfl | hc | rfl | hc
  · exact hdigit c (List.mem_of_mem_take hc)
  · exact hdash
  · exact hdigit c (List.mem_of_mem_drop (List.mem_of_mem_take hc))
  · exact hdash
  · exact hdigit c (List.mem_of_mem_drop (List.mem_of_mem_take hc))
  · exact hdash
  · exact hdigit c (List.mem_of_mem_drop (List.mem_of_mem_take hc))
  · exact hdash
  · exact hdigit c (List.mem_of_mem_drop hc)

/-- Thirty-six characters between quotation marks. -/
@[simp] theorem octets_json (u : UUID) : u.json.octets = 38 := by
  rw [json, octets_str, quotedOctets_plain u.plain_text]
  simp [text, dashed]

theorem octetLength_text (u : UUID) : Text.octetLength u.text = 36 := by
  have hascii : ∀ c ∈ u.text.toList, c.toNat < 128 := fun c hc => (u.plain_text c hc).2.1
  have hlength := Text.octetLength_eq_length_iff.mpr hascii
  rw [String.ofList_toList] at hlength
  rw [hlength]
  simp [text, dashed]

end Tenancit.Store.UUID

namespace Tenancit.Httpapi

open Encoding Encoding.Json Crypto Store Service Queries Table
open Program

/-- A number read off what is there. -/
def ofSome {α : Type} (o : Option α) (f : α → Nat) : Nat := o.elim 0 f

/-- A number read off what has gone well. -/
def ofOk {ε α : Type} (x : Except ε α) (f : α → Nat) : Nat := ofSome x.toOption f

@[simp] theorem ofSome_some {α : Type} (a : α) (f : α → Nat) : ofSome (some a) f = f a := rfl

@[simp] theorem ofOk_ok {ε α : Type} (a : α) (f : α → Nat) : ofOk (.ok a : Except ε α) f = f a :=
  rfl

section requests

def tenantOctets (name slug : String) (status : Status) : Nat :=
  objOctets [("name", quotedOctets name), ("slug", quotedOctets slug),
    ("status", quotedOctets status.text)]

def identityOctets (name resourceAlias : String) : Nat :=
  objOctets [("name", quotedOctets name), ("alias", quotedOctets resourceAlias)]

def definitionOctets (name description : String) : Nat :=
  objOctets [("name", quotedOctets name), ("description", quotedOctets description)]

def presentationOctets (label : String) (required : Bool) : Nat :=
  objOctets [("label", quotedOctets label), ("required", boolOctets required)]

def scopesOctets (scopes : List String) : Nat := arrOctets (scopes.map quotedOctets)

/-- The alias that is stored for the one given. -/
def storedAlias (given definitionKey : String) : String :=
  if given ≠ "" then given else definitionKey

/-- The field of a resource that a request names. -/
def namedField (c : Catalog) (tenantId resourceId : Option UUID) (fieldKey : String) :
    Option ResourceField := do
  let resource ← findResource c (← resourceId) (← tenantId)
  lookup ResourceField.key fieldKey (fieldsOf c resource.resourceDefinitionId)

def fieldOctets (c : Catalog) (tenantId resourceId : Option UUID) (fieldKey : String) : Nat :=
  ofSome (namedField c tenantId resourceId fieldKey) fun f =>
    objOctets [("tenant_id", 38), ("field_key", quotedOctets fieldKey),
      ("is_secret", boolOctets f.isSecret)]

/-- The octets of the metadata of the audit entry of a request: an identifier takes 38, a text
its own when quoted, a row what it holds before the request. -/
def Request.auditOctets (d : Domain) : Request → Nat
  | .createTenant _ body => ofOk (body >>= checkCreateTenant) fun b =>
    objOctets [("slug", quotedOctets b.slug), ("name", quotedOctets b.name)]
  | .updateTenant _ id body =>
    ofSome (id.bind fun id => lookup Tenant.id id d.catalog.tenants) fun row =>
    ofOk (body >>= checkUpdateTenant) fun b =>
      objOctets [("before", tenantOctets row.name row.slug row.status),
        ("after", tenantOctets b.1 b.2.1 b.2.2)]
  | .deleteTenant _ id =>
    ofSome (id.bind fun id => lookup Tenant.id id d.catalog.tenants) fun row =>
    objOctets [("slug", quotedOctets row.slug),
      ("domain_count", numOctets (d.catalog.domains.countP fun x => x.tenantId = row.id)),
      ("resource_count", numOctets (d.catalog.resources.countP fun x => x.tenantId = row.id))]
  | .addDomain _ _ body => ofOk (body >>= checkHostname (some "hostname required")) fun hostname =>
    objOctets [("tenant_id", 38), ("hostname", quotedOctets hostname)]
  | .updateDomain _ id domainId body =>
    ofSome (d.catalog.domains.find? fun x => some x.id = domainId &&
      some x.tenantId = id) fun row =>
      ofOk (body >>= checkHostname none) fun hostname =>
        objOctets [("tenant_id", 38), ("previous_hostname", quotedOctets row.hostname),
          ("hostname", quotedOctets hostname)]
  | .deleteDomain _ id domainId =>
    ofSome (d.catalog.domains.find? fun x => some x.id = domainId &&
      some x.tenantId = id) fun row =>
      objOctets [("tenant_id", 38), ("hostname", quotedOctets row.hostname)]
  | .createResource _ _ body => ofOk (body >>= checkCreateResource) fun b =>
    objOctets [("tenant_id", 38), ("definition_key", quotedOctets b.definitionKey),
      ("alias", quotedOctets (storedAlias (Text.trimSpace b.resourceAlias) b.definitionKey)),
      ("field_names", arrOctets (b.values.map fun v => quotedOctets v.1))]
  | .updateResourceIdentity _ id resourceId body =>
    ofSome (do findResource d.catalog (← resourceId) (← id)) fun row =>
      ofOk (body >>= checkResourceIdentity) fun b =>
        objOctets [("tenant_id", 38), ("before", identityOctets row.displayName row.resourceAlias),
          ("after", identityOctets b.name b.resourceAlias)]
  | .duplicateResource _ _ resourceId body =>
    ofSome (resourceId.bind fun id =>
      (lookup TenantResource.id id d.catalog.resources).bind (headerRow d.catalog))
      fun row => ofOk body fun resourceAlias =>
        objOctets [("tenant_id", 38), ("source_resource_id", 38),
          ("alias", quotedOctets (storedAlias (Text.trimSpace resourceAlias) row.definitionKey))]
  | .setResourceStatus _ id resourceId body =>
    ofSome (do findResource d.catalog (← resourceId) (← id)) fun row =>
    ofOk (body >>= parseStatus) fun status =>
      objOctets [("tenant_id", 38), ("from", quotedOctets row.status.text),
        ("to", quotedOctets status.text)]
  | .updateResourceField _ id resourceId fieldKey _ => fieldOctets d.catalog id resourceId fieldKey
  | .clearResourceFieldOverride _ id resourceId fieldKey =>
    fieldOctets d.catalog id resourceId fieldKey
  | .deleteResource _ _ _ => objOctets [("tenant_id", 38), ("definition_id", 38)]
  | .createDefinition _ body => ofOk (body >>= checkCreateDefinition) fun b =>
    objOctets [("key", quotedOctets b.key), ("name", quotedOctets b.name)]
  | .updateDefinition _ id body =>
    ofSome (id.bind fun id => lookup ResourceDefinition.id id d.catalog.definitions) fun row =>
      ofOk (body >>= checkUpdateDefinition) fun b =>
        objOctets [("before", definitionOctets row.name row.description),
          ("after", definitionOctets b.name b.description)]
  | .setDefinitionStatus _ id body =>
    ofSome (id.bind fun id => lookup ResourceDefinition.id id d.catalog.definitions) fun row =>
      ofOk (body >>= parseStatus) fun status =>
        objOctets [("from", quotedOctets row.status.text), ("to", quotedOctets status.text)]
  | .deleteDefinition _ id =>
    ofSome (id.bind fun id => lookup ResourceDefinition.id id d.catalog.definitions) fun row =>
      objOctets [("key", quotedOctets row.key), ("name", quotedOctets row.name)]
  | .addField _ id body => ofSome id fun id => ofOk (body >>= checkAddField id) fun f =>
    objOctets [("definition_id", 38), ("field_key", quotedOctets f.key),
      ("is_secret", boolOctets f.isSecret)]
  | .updateField _ id fieldId body =>
    ofSome (do findField d.catalog (← fieldId) (← id)) fun row => ofOk body fun b =>
    objOctets [("definition_id", 38), ("field_key", quotedOctets row.key),
      ("before", presentationOctets row.label row.required),
      ("after", presentationOctets (Text.trimSpace b.label) b.required)]
  | .deleteField _ id fieldId => ofSome (do findField d.catalog (← fieldId) (← id)) fun row =>
    objOctets [("definition_id", 38), ("field_key", quotedOctets row.key)]
  | .createAPIClient _ body => ofOk body fun in_ =>
    objOctets [("name", quotedOctets (Text.trimSpace in_.name)),
      ("scopes", scopesOctets in_.scopes),
      ("rpm_limit", numOctets in_.rpmLimit.toInt),
      ("expires_at", quotedOctets (rfc3339 false in_.expiresAt))]
  | .updateAPIClient _ id body =>
    ofSome (id.bind fun id => lookup ApiClient.id id d.clients.clients) fun row =>
    ofOk body fun in_ =>
      objOctets [("before",
        objOctets [("name", quotedOctets row.name), ("rpm_limit", numOctets row.rpmLimit.toInt),
          ("expires_at", quotedOctets (rfc3339 true row.expiresAt))]),
        ("after", objOctets [("name", quotedOctets (Text.trimSpace in_.name)),
          ("scopes", scopesOctets in_.scopes),
          ("rpm_limit", numOctets in_.rpmLimit.toInt),
          ("expires_at", quotedOctets (rfc3339 false in_.expiresAt))])]
  | .rotateAPIClient _ _ body =>
    ofOk body fun graceSeconds => objOctets [("grace_seconds", numOctets graceSeconds.toInt)]
  | .revokeAPIClient _ id =>
    ofSome (id.bind fun id => lookup ApiClient.id id d.clients.clients) fun row =>
    if row.status = .revoked then 0
    else objOctets [("from", quotedOctets row.status.text), ("to", quotedOctets "revoked")]
  | .deleteAPIClient _ id =>
    ofSome (id.bind fun id => lookup ApiClient.id id d.clients.clients) fun row =>
    objOctets [("name", quotedOctets row.name)]
  | .consumerWriteValue .. => 0

/-- The request revokes a client that is revoked, of which there is no entry. -/
def Request.RevokesAgain (d : Domain) : Request → Prop
  | .revokeAPIClient _ id =>
    ∃ c, id.bind (fun id => lookup ApiClient.id id d.clients.clients) = some c ∧ c.status = .revoked
  | _ => False

/-- What the handler of a request knows of it; a consumer's write is not audited. -/
def Request.admin : Request → Option AdminRequest
  | .createTenant r _ => some r
  | .updateTenant r _ _ => some r
  | .deleteTenant r _ => some r
  | .addDomain r _ _ => some r
  | .updateDomain r _ _ _ => some r
  | .deleteDomain r _ _ => some r
  | .createResource r _ _ => some r
  | .updateResourceIdentity r _ _ _ => some r
  | .duplicateResource r _ _ _ => some r
  | .setResourceStatus r _ _ _ => some r
  | .updateResourceField r _ _ _ _ => some r
  | .clearResourceFieldOverride r _ _ _ => some r
  | .deleteResource r _ _ => some r
  | .createDefinition r _ => some r
  | .updateDefinition r _ _ => some r
  | .setDefinitionStatus r _ _ => some r
  | .deleteDefinition r _ => some r
  | .addField r _ _ => some r
  | .updateField r _ _ _ => some r
  | .deleteField r _ _ => some r
  | .createAPIClient r _ => some r
  | .updateAPIClient r _ _ => some r
  | .rotateAPIClient r _ _ => some r
  | .revokeAPIClient r _ => some r
  | .deleteAPIClient r _ => some r
  | .consumerWriteValue .. => none

end requests

section changes

variable {δ α β : Type} {ts ts' : List Tick} {s s' : δ} {q : δ → Except PgError α}
  {k : PgError → Response}

/-- A change of one statement. -/
theorem statement_ok {g : Tick → δ → Except PgError (α × δ)} {a : α}
    (h : ((run g).mapErr k : Tx δ Response α) ts s = .ok (a, ts', s')) :
    ∃ t, g t s = .ok (a, s') := by
  obtain ⟨t, -, hg⟩ := Tx.statement_eq_ok.mp (Tx.mapErr_eq_ok.mp h)
  exact ⟨t, hg⟩

/-- A change that reads a row and updates it. -/
theorem change_ok {g : Tick → δ → Except PgError (β × δ)} {x : α × β}
    (h : (do
      let previous ← readOr404 q
      let b ← (run g).mapErr k
      pure (previous, b) : Tx δ Response (α × β)) ts s = .ok (x, ts', s')) :
    q s = .ok x.1 ∧ ∃ t, g t s = .ok (x.2, s') := by
  obtain ⟨t, ts₁, previous, -, hq, h₁⟩ := Tx.query_bind_eq_ok.mp h
  obtain ⟨t', ts₂, b, s₁, -, hg, h₂⟩ := Tx.statement_bind_eq_ok.mp h₁
  cases Tx.pure_eq_ok.mp h₂
  exact ⟨hq, t', hg⟩

/-- A change that reads a row and goes on. -/
theorem readOr404_bind_ok {f : α → Tx δ Response β} {r : β × List Tick × δ}
    (h : (readOr404 q >>= f) ts s = .ok r) : ∃ a ts', q s = .ok a ∧ f a ts' s = .ok r := by
  obtain ⟨t, ts', a, -, hq, h'⟩ := Tx.query_bind_eq_ok.mp h
  exact ⟨a, ts', hq, h'⟩

/-- A change that reads a row and deletes it. -/
theorem delete_ok {q : Catalog → Except PgError α}
    {g : Tick → Catalog → Except PgError (Nat × Catalog)} {e : Response} {c c' : Catalog} {a : α}
    (h : (do
      let row ← readOr404 q
      deleteOr404 g e
      pure row : Tx Catalog Response α) ts c = .ok (a, ts', c')) : q c = .ok a := by
  obtain ⟨row, ts₁, hq, h₁⟩ := readOr404_bind_ok h
  obtain ⟨u, ts₂, c₁, -, h₂⟩ := Tx.bind_eq_ok.mp h₁
  cases Tx.pure_eq_ok.mp h₂
  exact hq

theorem draws_onDomain {m : Tx Domain Response α} (h : Draws m) : Draws (onDomain m) :=
  Along.onPart h fun _ _ _ _ => trivial

theorem draws_onCatalog {m : Tx Catalog Response α} (h : Draws m) : Draws (onCatalog m) :=
  Along.onPart h fun _ _ _ _ => trivial

theorem draws_onClients {m : Tx ClientTables Response α} (h : Draws m) : Draws (onClients m) :=
  Along.onPart h fun _ _ _ _ => trivial

theorem draws_statement {g : Tick → δ → Except PgError (α × δ)} :
    Draws ((run g).mapErr k : Tx δ Response α) :=
  Along.mapErr draws_run _

theorem draws_change {g : Tick → δ → Except PgError (β × δ)} : Draws (do
    let previous ← readOr404 q
    let b ← (run g).mapErr k
    pure (previous, b) : Tx δ Response (α × β)) :=
  Along.bind composes_true draws_read fun _ => Along.bind composes_true draws_statement fun _ =>
    Along.pure composes_true _

theorem draws_delete {q : Catalog → Except PgError α}
    {g : Tick → Catalog → Except PgError (Nat × Catalog)} {e : Response} : Draws (do
      let row ← readOr404 q
      deleteOr404 g e
      pure row : Tx Catalog Response α) := by
  refine Along.bind composes_true draws_read fun _ => Along.bind composes_true ?_ fun _ =>
    Along.pure composes_true _
  exact Along.bind composes_true draws_statement fun _ => Along.require composes_true _ _

/-- What holds of every statement is kept by every statement. -/
theorem kept_true : KeptByStatements fun _ _ _ _ => True where
  composes := fun _ => composes_true
  reads := fun _ _ _ => trivial
  statements := fun _ => trivial

theorem draws_clearResourceFieldOverride {in_ : UpdateResourceFieldInput} :
    Draws (Change.clearResourceFieldOverride in_) := by
  refine Along.mapErr (Along.bind composes_true draws_read fun resource => ?_) _
  split
  · exact Along.fail _
  refine Along.bind composes_true draws_read fun fields => ?_
  split
  · exact Along.fail _
  -- the read of the source, where the field is required, stands before the same rest
  have hrest : ∀ f : ResourceField, Draws (do
      let _ ← (run (deleteResourceValue resource.id f.id)).mapErr ServiceError.store
      pure f : Tx Catalog ServiceError ResourceField) :=
    fun f => Along.bind composes_true (Along.mapErr draws_run _) fun _ => Along.pure composes_true _
  split
  · refine Along.bind composes_true draws_read fun _ => Along.bind composes_true ?_ fun _ => hrest _
    exact Along.require composes_true _ _
  · exact hrest _

end changes

section requests

variable {Key : Type} {aead : Aead Key} {s : Server aead} {d : Database} {ticks : List Tick}

theorem fieldMetadata_octets {c : Catalog} {tenantId resourceId : UUID} {fieldKey : String}
    {resource : TenantResource}
    {f : ResourceField} (hresource : findResource c resourceId tenantId = some resource)
    (hfield : lookup ResourceField.key fieldKey
      (fieldsOf c resource.resourceDefinitionId) = some f) :
    (fieldMetadata tenantId f).octets = fieldOctets c (some tenantId)
    (some resourceId) fieldKey := by
  obtain rfl := key_of_lookup hfield
  simp [fieldMetadata, fieldOctets, namedField, hresource, hfield]

theorem checkPolicy_eq {now : Timestamp} {raw in_ : ApiClientPolicyInput}
    (h : checkPolicy now raw = .ok in_) : in_ = { raw with name := Text.trimSpace raw.name } := by
  simp only [checkPolicy] at h
  split at h
  · cases h
  split at h
  · cases h
  · exact (Except.ok.inj h).symm

theorem createAPIClient_name {sha256 : Bytes → Bytes} {in_ : ApiClientPolicyInput} {now : Timestamp}
    {ts ts' : List Tick} {u u' : ClientTables} {x : ApiClient × String}
    (h : Change.createAPIClient sha256 in_ now ts u = .ok (x, ts', u')) : x.1.name = in_.name := by
  obtain ⟨t, ts₁, -, h₁⟩ := Tx.draw_bind_eq_ok.mp h
  obtain ⟨t', ts₂, c, u₁, -, hq, h₂⟩ := Tx.statement_bind_eq_ok.mp h₁
  obtain ⟨t'', ts₃, v, u₂, -, -, h₃⟩ := Tx.statement_bind_eq_ok.mp h₂
  cases Tx.pure_eq_ok.mp h₃
  simp only [Queries.createAPIClient, ite_error_eq_ok, Except.ok.injEq, Prod.mk.injEq] at hq
  obtain ⟨-, -, rfl, -⟩ := hq
  rfl

theorem updateAPIClient_previous {id : UUID} {in_ : ApiClientPolicyInput} {ts ts' : List Tick}
    {u u' : ClientTables} {x : ApiClient × ApiClient}
    (h : Change.updateAPIClient id in_ ts u = .ok (x, ts', u')) :
    lookup ApiClient.id id u.clients = some x.1 := by
  obtain ⟨previous, ts₁, hrow, h₁⟩ := readOr404_bind_ok h
  obtain ⟨t, ts₂, -, h₂⟩ := Tx.draw_bind_eq_ok.mp h₁
  obtain ⟨-, h₃⟩ := Tx.require_bind_eq_ok.mp h₂
  obtain ⟨t', ts₃, updated, u₁, -, -, h₄⟩ := Tx.statement_bind_eq_ok.mp h₃
  obtain ⟨t'', ts₄, v, u₂, -, -, h₅⟩ := Tx.statement_bind_eq_ok.mp h₄
  cases Tx.pure_eq_ok.mp h₅
  exact one_eq_ok.mp hrow

/-- A target that is a row. -/
theorem fits_row {rules : TextRules} {targetType : String} {id : UUID} (hrules : rules.TakesShort)
    (h : Text.octetLength targetType ≤ 64) : rules.fits [targetType, id.text] = true := by
  refine hrules _ ?_
  simp only [List.map_cons, List.map_nil, List.sum_cons, List.sum_nil, UUID.octetLength_text]
  omega

/-- The entry of a handler whose target is a row. -/
theorem sized_row {rules : TextRules} {n : Nat} {none_ : Prop}
    {action targetType route : String} {id : UUID}
    {status : Nat} {metadata : Json} (hrules : rules.TakesShort) (hsome : ¬none_)
    (hfixed : action ≠ "" ∧ targetType ≠ "" ∧ 100 ≤ status ∧ status ≤ 599 ∧
      Text.octetLength action ≤ 64 ∧
      Text.octetLength targetType ≤ 64) (hsize : metadata.octets = n) :
    Sized rules n none_ (some ⟨action, targetType, id.text, route, status, metadata⟩) :=
  ⟨hsome, hfixed, fits_row hrules hfixed.2.2.2.2.2, hsize⟩

/-- The texts of a request fit the indexes of the log, if it has an entry there. -/
def Request.Indexed (rules : TextRules) (d : Domain) (x : Request) : Prop :=
  x.RevokesAgain d ∨ x.admin.elim True fun r => r.Indexed rules

/-- A request commits exactly if it does where nothing is checked, its metadata is within the
limit and its texts fit the indexes. -/
theorem Request.narrowed {x : Request} {rules : TextRules} (hx : ∀ r, x.admin = some r → r.Accepted)
    (hrules : rules.TakesShort) (hticks : Ruled rules ticks) :
    Narrowed (x.auditOctets d.domain ≤ 8192 ∧ x.Indexed rules d.domain) (x.handler s)
    (x.handlerBy insertAdminAuditUnchecked s) ticks d := by
  cases x with
  | createTenant r body =>
    refine Narrowed.ofExcept_bind fun b hb => Narrowed.ofExcept_bind fun request _ => ?_
    refine narrowed_idempotentMutation (hx r rfl) hrules hticks (fun _ =>
      draws_onCatalog draws_statement) fun now ts t ts' dom h => ?_
    obtain ⟨c, hc, -⟩ := Tx.onPart_eq_ok.mp h
    obtain ⟨tick, hq⟩ := statement_ok hc
    obtain ⟨-, rfl, -⟩ := createTenant_ok hq
    exact sized_row hrules not_false (by decide) (by simp [Request.auditOctets, hb])
  | updateTenant r id body =>
    refine Narrowed.ofExcept_bind fun id' hid => Narrowed.ofExcept_bind fun b hb => ?_
    refine narrowed_auditedMutation (hx r rfl) hrules hticks (fun _ => draws_onCatalog draws_change)
      fun now ts x ts' dom h => ?_
    obtain ⟨c, hc, -⟩ := Tx.onPart_eq_ok.mp h
    obtain ⟨hrow, tick, hq⟩ := change_ok hc
    obtain ⟨row, -, -, hset, -⟩ := updateTenant_ok hq
    obtain rfl := parse_eq_ok.mp hid
    refine sized_row hrules not_false (by decide) ?_
    simp [Request.auditOctets, hb, one_eq_ok.mp hrow, tenantMetadata, tenantOctets, hset, setTenant]
  | deleteTenant r id =>
    refine Narrowed.ofExcept_bind fun id' hid =>
      narrowed_auditedMutation (hx r rfl) hrules hticks (fun now =>
      draws_onCatalog (@KeptByStatements.deleteTenant _ now kept_true _))
      fun now ts x ts' dom h => ?_
    obtain ⟨c, hc, -⟩ := Tx.onPart_eq_ok.mp h
    obtain ⟨row, ts₁, hrow, hc⟩ := readOr404_bind_ok hc
    obtain ⟨t, ts₂, children, -, hchildren, hc⟩ := Tx.query_bind_eq_ok.mp hc
    obtain ⟨u, ts₃, c₁, -, hc⟩ := Tx.bind_eq_ok.mp hc
    cases Tx.pure_eq_ok.mp hc
    cases hchildren
    obtain rfl := parse_eq_ok.mp hid
    obtain rfl := key_of_lookup (one_eq_ok.mp hrow)
    exact sized_row hrules not_false (by decide) (by simp [Request.auditOctets, one_eq_ok.mp hrow])
  | addDomain r id body =>
    refine Narrowed.ofExcept_bind fun id' hid => Narrowed.ofExcept_bind fun hostname hb => ?_
    refine narrowed_auditedMutation (hx r rfl) hrules hticks (fun _ =>
      draws_onCatalog draws_statement) fun now ts x ts' dom h => ?_
    exact sized_row hrules not_false (by decide) (by simp [Request.auditOctets, hb])
  | updateDomain r id domainId body =>
    refine Narrowed.ofExcept_bind fun id' hid => Narrowed.ofExcept_bind fun domainId' hdomain => ?_
    refine Narrowed.ofExcept_bind fun hostname hb =>
      narrowed_auditedMutation (hx r rfl) hrules hticks (fun _ => draws_onCatalog draws_change)
      fun now ts x ts' dom h => ?_
    obtain ⟨c, hc, -⟩ := Tx.onPart_eq_ok.mp h
    obtain ⟨hrow, -⟩ := change_ok hc
    obtain rfl := parse_eq_ok.mp hid
    obtain rfl := parse_eq_ok.mp hdomain
    refine sized_row hrules not_false (by decide) ?_
    simp [Request.auditOctets, hb, one_eq_ok.mp hrow]
  | deleteDomain r id domainId =>
    refine Narrowed.ofExcept_bind fun id' hid => Narrowed.ofExcept_bind fun domainId' hdomain => ?_
    refine narrowed_auditedMutation (hx r rfl) hrules hticks (fun _ => draws_onCatalog draws_delete)
      fun now ts x ts' dom h => ?_
    obtain ⟨c, hc, -⟩ := Tx.onPart_eq_ok.mp h
    have hrow := delete_ok hc
    obtain rfl := parse_eq_ok.mp hid
    obtain rfl := parse_eq_ok.mp hdomain
    exact sized_row hrules not_false (by decide) (by simp [Request.auditOctets, one_eq_ok.mp hrow])
  | createResource r id body =>
    refine Narrowed.ofExcept_bind fun id' hid => Narrowed.ofExcept_bind fun b hb => ?_
    refine Narrowed.ofExcept_bind fun request _ =>
      narrowed_idempotentMutation (hx r rfl) hrules hticks (fun _ =>
      draws_onCatalog kept_true.createResource) fun now ts x ts' dom h => ?_
    obtain ⟨c, hc, -⟩ := Tx.onPart_eq_ok.mp h
    have halias := provisionResource_alias (Tx.mapErr_eq_ok.mp hc)
    change x.resourceAlias = storedAlias (Text.trimSpace b.resourceAlias) b.definitionKey at halias
    exact sized_row hrules not_false (by decide)
      (by simp [Request.auditOctets, hb, halias, Function.comp_def])
  | updateResourceIdentity r id resourceId body =>
    refine Narrowed.ofExcept_bind fun id' hid =>
      Narrowed.ofExcept_bind fun resourceId' hresource => ?_
    refine Narrowed.ofExcept_bind fun b hb =>
      narrowed_auditedMutation (hx r rfl) hrules hticks (fun _ => draws_onCatalog draws_change)
      fun now ts x ts' dom h => ?_
    obtain ⟨c, hc, -⟩ := Tx.onPart_eq_ok.mp h
    obtain ⟨hrow, tick, hq⟩ := change_ok hc
    obtain ⟨row, -, hset, -⟩ := updateTenantResourceIdentity_ok hq
    obtain rfl := parse_eq_ok.mp hid
    obtain rfl := parse_eq_ok.mp hresource
    refine sized_row hrules not_false (by decide) ?_
    simp [Request.auditOctets, hb, one_eq_ok.mp hrow, identityJson,
      identityOctets, hset, setIdentity]
  | duplicateResource r id resourceId body =>
    refine Narrowed.ofExcept_bind fun id' hid =>
      Narrowed.ofExcept_bind fun resourceId' hresource => ?_
    refine Narrowed.ofExcept_bind fun resourceAlias hb => Narrowed.ofExcept_bind fun request _ => ?_
    refine narrowed_idempotentMutation (hx r rfl) hrules hticks (fun _ =>
      draws_onCatalog kept_true.duplicateResource) fun now ts x ts' dom h => ?_
    obtain ⟨c, hc, -⟩ := Tx.onPart_eq_ok.mp h
    obtain ⟨row, fields, ts₁, hrow, -, -, hprovision⟩ :=
      duplicateResourceInTx_ok (Tx.mapErr_eq_ok.mp hc)
    have halias := provisionResource_alias hprovision
    change x.resourceAlias = storedAlias (Text.trimSpace resourceAlias) row.definitionKey at halias
    obtain rfl := parse_eq_ok.mp hresource
    exact sized_row hrules not_false (by decide)
      (by simp [Request.auditOctets, hb, one_eq_ok.mp hrow, halias])
  | setResourceStatus r id resourceId body =>
    refine Narrowed.ofExcept_bind fun id' hid =>
      Narrowed.ofExcept_bind fun resourceId' hresource => ?_
    refine Narrowed.ofExcept_bind fun status hb =>
      narrowed_auditedMutation (hx r rfl) hrules hticks (fun _ => draws_onCatalog draws_change)
      fun now ts x ts' dom h => ?_
    obtain ⟨c, hc, -⟩ := Tx.onPart_eq_ok.mp h
    obtain ⟨hrow, tick, hq⟩ := change_ok hc
    obtain ⟨row, -, hset, -⟩ := setTenantResourceStatus_ok hq
    obtain rfl := parse_eq_ok.mp hid
    obtain rfl := parse_eq_ok.mp hresource
    refine sized_row hrules not_false (by decide) ?_
    simp [Request.auditOctets, hb, one_eq_ok.mp hrow, hset, setStatus]
  | updateResourceField r id resourceId fieldKey body =>
    refine Narrowed.ofExcept_bind fun id' hid =>
      Narrowed.ofExcept_bind fun resourceId' hresource => ?_
    refine Narrowed.ofExcept_bind fun key hkey => Narrowed.ofExcept_bind fun value _ => ?_
    refine narrowed_auditedMutation (hx r rfl) hrules hticks (fun now =>
      draws_onCatalog (@KeptByStatements.updateResourceField _ now _ _ _ kept_true _))
      fun now ts f ts' dom h => ?_
    obtain ⟨c, hc, -⟩ := Tx.onPart_eq_ok.mp h
    obtain ⟨resource, ts₁, hfound, hfield, -⟩ := updateResourceFieldInTx_ok (Tx.mapErr_eq_ok.mp hc)
    obtain rfl := parse_eq_ok.mp hid
    obtain rfl := parse_eq_ok.mp hresource
    obtain rfl := Except.ok.inj (ite_error_eq_ok.mp hkey).2
    exact sized_row hrules not_false (by decide) (fieldMetadata_octets hfound hfield)
  | clearResourceFieldOverride r id resourceId fieldKey =>
    refine Narrowed.ofExcept_bind fun id' hid =>
      Narrowed.ofExcept_bind fun resourceId' hresource => ?_
    refine narrowed_auditedMutation (hx r rfl) hrules hticks (fun _ =>
      draws_onCatalog draws_clearResourceFieldOverride) fun now ts f ts' dom h => ?_
    obtain ⟨c, hc, -⟩ := Tx.onPart_eq_ok.mp h
    obtain ⟨resource, source, hfound, -, hfield, -⟩ :=
      clearResourceFieldOverrideInTx_ok (Tx.mapErr_eq_ok.mp hc)
    obtain rfl := parse_eq_ok.mp hid
    obtain rfl := parse_eq_ok.mp hresource
    exact sized_row hrules not_false (by decide) (fieldMetadata_octets hfound hfield)
  | deleteResource r id resourceId =>
    refine Narrowed.ofExcept_bind fun id' _ => Narrowed.ofExcept_bind fun resourceId' _ => ?_
    refine narrowed_auditedMutation (hx r rfl) hrules hticks (fun _ => draws_onCatalog draws_delete)
      fun now ts x ts' dom _ => ?_
    exact sized_row hrules not_false (by decide) (by simp [Request.auditOctets])
  | createDefinition r body =>
    refine Narrowed.ofExcept_bind fun b hb =>
      narrowed_auditedMutation (hx r rfl) hrules hticks (fun _ => draws_onCatalog draws_statement)
      fun now ts x ts' dom h => ?_
    obtain ⟨c, hc, -⟩ := Tx.onPart_eq_ok.mp h
    obtain ⟨tick, hq⟩ := statement_ok hc
    obtain ⟨-, rfl, -⟩ := createDefinition_ok hq
    exact sized_row hrules not_false (by decide) (by simp [Request.auditOctets, hb])
  | updateDefinition r id body =>
    refine Narrowed.ofExcept_bind fun id' hid => Narrowed.ofExcept_bind fun b hb => ?_
    refine narrowed_auditedMutation (hx r rfl) hrules hticks (fun _ => draws_onCatalog draws_change)
      fun now ts x ts' dom h => ?_
    obtain ⟨c, hc, -⟩ := Tx.onPart_eq_ok.mp h
    obtain ⟨hrow, tick, hq⟩ := change_ok hc
    obtain ⟨row, -, hset, -⟩ := changeDefinition_ok hq
    obtain rfl := parse_eq_ok.mp hid
    refine sized_row hrules not_false (by decide) ?_
    simp [Request.auditOctets, hb, one_eq_ok.mp hrow, definitionMetadata, definitionOctets, hset]
  | setDefinitionStatus r id body =>
    refine Narrowed.ofExcept_bind fun id' hid => Narrowed.ofExcept_bind fun status hb => ?_
    refine narrowed_auditedMutation (hx r rfl) hrules hticks (fun _ => draws_onCatalog draws_change)
      fun now ts x ts' dom h => ?_
    obtain ⟨c, hc, -⟩ := Tx.onPart_eq_ok.mp h
    obtain ⟨hrow, tick, hq⟩ := change_ok hc
    obtain ⟨row, -, hset, -⟩ := changeDefinition_ok hq
    obtain rfl := parse_eq_ok.mp hid
    exact sized_row hrules not_false (by decide)
      (by simp [Request.auditOctets, hb, one_eq_ok.mp hrow, hset])
  | deleteDefinition r id =>
    refine Narrowed.ofExcept_bind fun id' hid =>
      narrowed_auditedMutation (hx r rfl) hrules hticks (fun _ => draws_onCatalog draws_delete)
      fun now ts x ts' dom h => ?_
    obtain ⟨c, hc, -⟩ := Tx.onPart_eq_ok.mp h
    have hrow := delete_ok hc
    obtain rfl := parse_eq_ok.mp hid
    exact sized_row hrules not_false (by decide) (by simp [Request.auditOctets, one_eq_ok.mp hrow])
  | addField r id body =>
    refine Narrowed.ofExcept_bind fun id' hid => Narrowed.ofExcept_bind fun arg hb => ?_
    refine narrowed_auditedMutation (hx r rfl) hrules hticks (fun _ =>
      draws_onCatalog draws_statement) fun now ts f ts' dom h => ?_
    obtain ⟨c, hc, -⟩ := Tx.onPart_eq_ok.mp h
    obtain ⟨tick, hq⟩ := statement_ok hc
    obtain ⟨-, -, rfl, -⟩ := addField_ok hq
    obtain rfl := parse_eq_ok.mp hid
    exact sized_row hrules not_false (by decide) (by simp [Request.auditOctets, hb])
  | updateField r id fieldId body =>
    refine Narrowed.ofExcept_bind fun id' hid => Narrowed.ofExcept_bind fun fieldId' hfield => ?_
    refine Narrowed.ofExcept_bind fun b hb =>
      narrowed_auditedMutation (hx r rfl) hrules hticks (fun _ => draws_onCatalog draws_change)
      fun now ts x ts' dom h => ?_
    obtain ⟨c, hc, -⟩ := Tx.onPart_eq_ok.mp h
    obtain ⟨hrow, tick, hq⟩ := change_ok hc
    obtain ⟨row, -, hset, -⟩ := updateField_ok hq
    obtain rfl := parse_eq_ok.mp hid
    obtain rfl := parse_eq_ok.mp hfield
    refine sized_row hrules not_false (by decide) ?_
    simp [Request.auditOctets, hb, one_eq_ok.mp hrow, presentationJson,
      presentationOctets, hset, setField]
  | deleteField r id fieldId =>
    refine Narrowed.ofExcept_bind fun id' hid => Narrowed.ofExcept_bind fun fieldId' hfield => ?_
    refine narrowed_auditedMutation (hx r rfl) hrules hticks (fun _ => draws_onCatalog draws_delete)
      fun now ts f ts' dom h => ?_
    obtain ⟨c, hc, -⟩ := Tx.onPart_eq_ok.mp h
    have hrow := delete_ok hc
    obtain rfl := parse_eq_ok.mp hid
    obtain rfl := parse_eq_ok.mp hfield
    exact sized_row hrules not_false (by decide) (by simp [Request.auditOctets, one_eq_ok.mp hrow])
  | createAPIClient r body =>
    refine Narrowed.ofExcept_bind fun raw hb => Narrowed.bind fun now₀ ts₀ d₀ hdrawn => ?_
    obtain ⟨rfl, rfl⟩ := Tx.draw_eq_ok.mp hdrawn
    refine Narrowed.ofExcept_bind fun in_ hpolicy => Narrowed.ofExcept_bind fun request _ => ?_
    refine narrowed_idempotentMutation (hx r rfl) hrules (fun t ht => hticks t (.tail _ ht))
      (fun _ => draws_onClients draws_createAPIClient) fun now ts x ts' dom h => ?_
    obtain ⟨s', hc, -⟩ := Tx.onPart_eq_ok.mp h
    obtain rfl := checkPolicy_eq hpolicy
    have hname := createAPIClient_name hc
    refine sized_row hrules not_false (by decide) ?_
    simp [Request.auditOctets, hb, hname, scopesJson, scopesOctets, Function.comp_def]
  | updateAPIClient r id body =>
    refine Narrowed.ofExcept_bind fun id' hid => Narrowed.ofExcept_bind fun raw hb => ?_
    refine Narrowed.bind fun now₀ ts₀ d₀ hdrawn => Narrowed.ofExcept_bind fun in_ hpolicy => ?_
    obtain ⟨rfl, rfl⟩ := Tx.draw_eq_ok.mp hdrawn
    refine narrowed_auditedMutation (hx r rfl) hrules (fun t ht => hticks t (.tail _ ht))
      (fun _ => draws_onClients draws_updateAPIClient) fun now ts x ts' dom h => ?_
    obtain ⟨s', hc, -⟩ := Tx.onPart_eq_ok.mp h
    obtain rfl := checkPolicy_eq hpolicy
    have hrow := updateAPIClient_previous hc
    obtain rfl := parse_eq_ok.mp hid
    refine sized_row hrules not_false (by decide) ?_
    simp [Request.auditOctets, hb, hrow, Timestamp.json, scopesJson,
      scopesOctets, Function.comp_def]
  | rotateAPIClient r id body =>
    refine Narrowed.ofExcept_bind fun id' _ => Narrowed.ofExcept_bind fun graceSeconds hb => ?_
    refine Narrowed.ofExcept_bind fun request _ =>
      narrowed_idempotentMutation (hx r rfl) hrules hticks (fun _ =>
      draws_onClients draws_rotateAPIClient) fun now ts x ts' dom _ => ?_
    obtain ⟨raw, hbody, hgrace⟩ := bind_eq_ok.mp hb
    obtain rfl := Except.ok.inj (ite_error_eq_ok.mp hgrace).2
    exact sized_row hrules not_false (by decide) (by simp [Request.auditOctets, hbody])
  | revokeAPIClient r id =>
    refine Narrowed.ofExcept_bind fun id' hid =>
      narrowed_auditedMutation (hx r rfl) hrules hticks (fun _ =>
      draws_onClients draws_revokeAPIClient) fun now ts x ts' dom h => ?_
    obtain ⟨s', hc, -⟩ := Tx.onPart_eq_ok.mp h
    obtain ⟨hrow, -⟩ := change_ok hc
    obtain rfl := parse_eq_ok.mp hid
    by_cases hrevoked : x.1.status = .revoked
    · rw [if_pos hrevoked]
      exact ⟨by simp [Request.auditOctets, one_eq_ok.mp hrow, hrevoked], x.1,
        one_eq_ok.mp hrow, hrevoked⟩
    · rw [if_neg hrevoked]
      refine sized_row hrules ?_ (by decide) ?_
      · rintro ⟨c, hc, hagain⟩
        cases (one_eq_ok.mp hrow).symm.trans hc
        exact hrevoked hagain
      · simp [Request.auditOctets, one_eq_ok.mp hrow, hrevoked]
  | deleteAPIClient r id =>
    refine Narrowed.ofExcept_bind fun id' hid =>
      narrowed_auditedMutation (hx r rfl) hrules hticks (fun _ =>
      draws_onClients draws_deleteAPIClient) fun now ts x ts' dom h => ?_
    obtain ⟨s', hc, -⟩ := Tx.onPart_eq_ok.mp h
    obtain ⟨row, ts₁, hrow, hc⟩ := readOr404_bind_ok hc
    obtain ⟨-, hc⟩ := Tx.require_bind_eq_ok.mp hc
    obtain ⟨t, ts₂, n, s₁, -, -, hc⟩ := Tx.statement_bind_eq_ok.mp hc
    obtain ⟨-, hc⟩ := Tx.require_bind_eq_ok.mp hc
    cases Tx.pure_eq_ok.mp hc
    obtain rfl := parse_eq_ok.mp hid
    exact sized_row hrules not_false (by decide) (by simp [Request.auditOctets, one_eq_ok.mp hrow])
  | consumerWriteValue slug resourceAlias fieldKey body =>
    exact Narrowed.of_pos ⟨Nat.zero_le _, .inr trivial⟩ _

end requests

section reveal

variable {Key : Type} {aead : Aead Key} {s : Server aead} {r : AdminRequest} {d d' : Database}
  {ts ts' ticks : List Tick}

/-- The keys of the secret fields of a tenant's resources, each once. -/
def revealedKeys (c : Catalog) (id : UUID) : List String :=
  ((resourcesOf c id true).flatMap fun r =>
    ((fieldsOf c r.resourceDefinitionId).filter fun f => f.isSecret).map fun f => f.key).eraseDups

/-- The octets of the metadata of the entry of a listing that reveals secrets: an identifier for
every resource of the tenant, and the keys. -/
def revealOctets (c : Catalog) (id : UUID) : Nat :=
  objOctets [("resource_ids", arrOctets ((resourcesOf c id true).map fun _ => 38)),
    ("secret_field_keys", arrOctets ((revealedKeys c id).map quotedOctets)),
    ("resource_count", numOctets (resourcesOf c id true).length),
    ("secret_field_count", numOctets (revealedKeys c id).length)]

theorem draws_query {α : Type} {f : Catalog → Except PgError α} : Draws (query f) :=
  draws_onDomain (draws_onCatalog draws_read)

theorem draws_loadResources {id : UUID} {reveal : Bool} : Draws (loadResources s id reveal) := by
  refine Along.bind composes_true draws_query fun headers => ?_
  split
  · exact Along.pure composes_true _
  · exact draws_onDomain (draws_onCatalog (Along.mapErr (Along.query fun _ _ => trivial) _))

/-- The entry of a listing names the tenant's resources and the keys of their secret fields. -/
theorem loadResources_octets {id : UUID} {reveal : Bool} {built : List BuiltResourceFields}
    (hd : d.domain.catalog.WellFormed) (h : loadResources s id reveal ts d = .ok (built, ts', d')) :
    d' = d ∧ (revealEntry id built).metadata.octets = revealOctets d.domain.catalog id := by
  obtain ⟨headers, ts₁, d₁, hheaders, h₁⟩ := Tx.bind_eq_ok.mp h
  obtain ⟨t, -, hload, rfl⟩ := onCatalog_query_eq_ok.mp hheaders
  have hresources := loadResourceHeaders_resources hd hload
  have hbuilt : d' = d₁ ∧
      buildResourceFieldsBatch s.cryptor headers reveal d₁.domain.catalog = .ok built := by
    split at h₁
    next hnil =>
      cases Tx.pure_eq_ok.mp h₁
      exact ⟨rfl, by simp [buildResourceFieldsBatch, hnil]⟩
    next hne =>
      obtain ⟨t, -, hbatch, rfl⟩ := onCatalog_query_eq_ok.mp h₁
      exact ⟨rfl, hbatch⟩
  obtain ⟨rfl, hbatch⟩ := hbuilt
  refine ⟨rfl, ?_⟩
  obtain ⟨fv, rfl, hfv⟩ :=
    buildResourceFieldsBatch_fields hd.resourceIds (loadResourceHeaders_ids hd hload)
    (fun header hheader =>
      (mem_resourcesOf.mp (loadResourceHeaders_mem hd hload header hheader)).1) hbatch
  have hlength : headers.length = (resourcesOf d'.domain.catalog id true).length := by
    rw [← hresources, List.length_map]
  have hkeys : secretKeys (headers.map fun h =>
    ⟨h, (rowsOf d'.domain.catalog h.resource).map (fv h)⟩) =
      revealedKeys d'.domain.catalog id := by
    simp only [secretKeys, revealedKeys, ← hresources, List.flatMap_map,
      List.filter_flatMap, List.map_flatMap]
    refine congrArg List.eraseDups (List.flatMap_congr fun header hheader => ?_)
    have hrows : ∀ f ∈ fieldsOf d'.domain.catalog header.resource.resourceDefinitionId,
        (fv header (fieldValueRow d'.domain.catalog header.resource f)).key = f.key ∧
          (fv header (fieldValueRow d'.domain.catalog header.resource f)).isSecret =
            f.isSecret := fun f hf =>
      hfv header hheader _ (List.mem_map_of_mem hf)
    have hsecret : (fieldsOf d'.domain.catalog header.resource.resourceDefinitionId).filter
        ((fun f => f.isSecret) ∘ fv header ∘ fieldValueRow d'.domain.catalog header.resource) =
        (fieldsOf d'.domain.catalog header.resource.resourceDefinitionId).filter
          fun f => f.isSecret :=
      List.filter_congr fun f hf => (hrows f hf).2
    rw [rowsOf, List.map_map, List.filter_map, List.map_map, hsecret]
    exact List.map_congr_left fun f hf => (hrows f (List.mem_filter.mp hf).1).1
  have hids : headers.map (fun _ => 38) =
      (resourcesOf d'.domain.catalog id true).map fun _ => 38 := by
    rw [← hresources, List.map_map]
    rfl
  simp only [revealEntry, octets_ofMap, List.map_cons, List.map_nil, octets_arr,
    octets_num, List.map_map, hkeys,
    List.length_map, hlength, revealOctets, Function.comp_def, octets_str, UUID.octets_json, hids]

/-- The same of a listing that reveals secrets. -/
theorem narrowed_reveal {id : Option UUID} {rules : TextRules} (hr : r.Accepted)
    (hd : d.domain.catalog.WellFormed) (hrules : rules.TakesShort) (hticks : Ruled rules ticks) :
    Narrowed (ofSome id (revealOctets d.domain.catalog) ≤ 8192 ∧ r.Indexed rules)
    (listTenantResources s r id true)
      (listTenantResourcesBy insertAdminAuditUnchecked s r id true) ticks d := by
  refine Narrowed.ofExcept_bind fun id' hid =>
    Narrowed.mapErr (Narrowed.bind fun built ts₁ d₁ hbuilt => ?_) _
  obtain ⟨rfl, hoctets⟩ := loadResources_octets hd hbuilt
  obtain rfl := parse_eq_ok.mp hid
  have hts : Ruled rules ts₁ := hticks.rest draws_loadResources hbuilt
  refine Narrowed.bind_left (Narrowed.bind fun t ts₂ d₂ hdrawn =>
    Narrowed.bind_left (Narrowed.onPart ?_) _) _
  obtain ⟨rfl, rfl⟩ := Tx.draw_eq_ok.mp hdrawn
  have hsized : Sized rules (revealOctets d₂.domain.catalog id') False
      (some (revealEntry id' built)) :=
    sized_row hrules not_false (by decide) hoctets
  rw [ofSome_some, ← false_or (r.Indexed rules)]
  exact narrowed_auditChange hr hrules (fun t ht => hts t (.tail _ ht)) hsized

end reveal

end Tenancit.Httpapi
