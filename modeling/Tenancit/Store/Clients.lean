import Mathlib.Data.List.Sort
import Tenancit.Lib.Table
import Tenancit.Store.Catalog

/-!
The statements of `store/queries/resources.sql` on API clients, their scopes and their
superseded tokens.
-/
namespace Tenancit.Store.Queries

open Encoding Table Text

/-- The scopes of `api_client_scopes_scope_check`. -/
def scopeNames : List String :=
  ["tenant:identify", "resource:resolve", "events:read", "tenant:list", "resource:write"]

/-- What `api_clients_name_normalized_unique` keeps unique. -/
def clientNameKey (rules : TextRules) (name : String) : String := rules.lower (btrim name)

structure CreateAPIClientParams where
  name : String
  keyHash : String
  tokenPreview : String
  rpmLimit : Int32
  expiresAt : Timestamp

def createAPIClient (now : Timestamp) (arg : CreateAPIClientParams) (t : Tick) (s : ClientTables) :
    Except PgError (ApiClient × ClientTables) :=
  let row : ApiClient :=
    ⟨t.ids 0, arg.name, arg.keyHash, .active, now, arg.tokenPreview, arg.rpmLimit,
    arg.expiresAt, none, none, now⟩
  if ¬(0 < row.rpmLimit ∧ row.createdAt < row.expiresAt) then .error .checkViolation
  else if ∃ c ∈ s.clients, c.id = row.id ∨ c.keyHash = row.keyHash ∨
      clientNameKey t.rules c.name = clientNameKey t.rules row.name then
    .error .uniqueViolation
  else .ok (row, { s with clients := s.clients ++ [row] })

def getAPIClient (id : UUID) (s : ClientTables) : Except PgError ApiClient :=
  one (lookup ApiClient.id id s.clients)

/-- A superseded token of the client is still accepted. -/
def GraceToken (s : ClientTables) (clientId : UUID) (keyHash : String) (at_ : Timestamp) : Prop :=
  ∃ p ∈ s.previousTokens, p.apiClientId = clientId ∧ p.keyHash = keyHash ∧ at_ < p.validUntil

instance (s : ClientTables) (clientId : UUID) (keyHash : String) (at_ : Timestamp) :
    Decidable (GraceToken s clientId keyHash at_) :=
  inferInstanceAs (Decidable (∃ p ∈ s.previousTokens, _))

def scopesOf (s : ClientTables) (id : UUID) : List String :=
  ((s.scopes.filter fun x => x.apiClientId = id).map (·.scope)).insertionSort (· ≤ ·)

/-- The client a key hash stands for, with its scopes. -/
def getAPIClientAuthByHash (keyHash : String) (t : Tick) (s : ClientTables) :
    Except PgError (ApiClient × List String) :=
  match s.clients.find? fun c => c.keyHash = keyHash || GraceToken s c.id keyHash t.clock with
  | none => .error .noRows
  | some c => .ok (c, scopesOf s c.id)

def replaceAPIClientScopes (id : UUID) (scopes : List String) (_ : Tick) (s : ClientTables) :
    Except PgError (Unit × ClientTables) :=
  if ∃ x ∈ scopes, x ∉ scopeNames then .error .checkViolation
  else if ¬scopes.Nodup then .error .uniqueViolation
  else if scopes ≠ [] ∧ ¬∃ c ∈ s.clients, c.id = id then .error .foreignKeyViolation
  else .ok ((), { s with
    scopes := delete (fun x => x.apiClientId = id) s.scopes ++ scopes.map fun x => ⟨id, x⟩ })

def listAPIClientScopes (id : UUID) (s : ClientTables) : Except PgError (List String) :=
  .ok (scopesOf s id)

/-- Change a client that satisfies the `WHERE` clause. -/
def changeClient (id : UUID) (p : ApiClient → Bool)
    (set : ApiClient → ApiClient) (s : ClientTables) : Except PgError (ApiClient × ClientTables) :=
  match s.clients.find? fun c => c.id = id && p c with
  | none => .error .noRows
  | some row =>
    .ok (set row, { s with clients := update (fun c => c.id = id && p c) set s.clients })

/-- `SetAPIClientStatus` with the status `revoked`, the only one it is called with; the
trigger `reject_api_client_reactivation` has nothing to reject then. -/
def setAPIClientStatusRevoked (id : UUID) (t : Tick) (s : ClientTables) :
    Except PgError (ApiClient × ClientTables) :=
  changeClient id (fun _ => true)
    (fun c => { c with status := .revoked, revokedAt := some t.clock, updatedAt := t.clock }) s

structure UpdateAPIClientPolicyParams where
  id : UUID
  name : String
  rpmLimit : Int32
  expiresAt : Timestamp

def updateAPIClientPolicy (arg : UpdateAPIClientPolicyParams) (t : Tick) (s : ClientTables) :
    Except PgError (ApiClient × ClientTables) :=
  if ∃ c ∈ s.clients, c.id = arg.id ∧ c.status = .active ∧
      ¬(0 < arg.rpmLimit ∧ c.createdAt < arg.expiresAt) then
    .error .checkViolation
  else if (∃ c ∈ s.clients, c.id = arg.id ∧ c.status = .active) ∧
      ∃ c ∈ s.clients, c.id ≠ arg.id ∧ clientNameKey t.rules c.name =
        clientNameKey t.rules arg.name then
    .error .uniqueViolation
  else changeClient arg.id (fun c => c.status = .active) (fun c => { c with
    name := arg.name, rpmLimit := arg.rpmLimit, expiresAt :=
      arg.expiresAt, updatedAt := t.clock }) s

def savePreviousAPIClientToken (now : Timestamp) (clientId : UUID) (keyHash : String)
    (validUntil : Timestamp) (t : Tick) (s : ClientTables) : Except PgError (Unit × ClientTables) :=
  if ∃ p ∈ s.previousTokens, p.id = t.ids 0 ∨ p.keyHash = keyHash then .error .uniqueViolation
  else if ¬∃ c ∈ s.clients, c.id = clientId then .error .foreignKeyViolation
  else .ok ((), { s with
    previousTokens := s.previousTokens ++ [⟨t.ids 0, clientId, keyHash, validUntil, now⟩] })

def rotateAPIClientToken (id : UUID) (keyHash tokenPreview : String) (t : Tick) (s : ClientTables) :
    Except PgError (ApiClient × ClientTables) :=
  if (∃ c ∈ s.clients, c.id = id ∧ c.status = .active) ∧
      ∃ c ∈ s.clients, c.id ≠ id ∧ c.keyHash = keyHash then
    .error .uniqueViolation
  else changeClient id (fun c => c.status = .active)
    (fun c => { c with keyHash := keyHash, tokenPreview := tokenPreview, updatedAt := t.clock }) s

/-- Scopes and superseded tokens go with their client. -/
def deleteAPIClient (id : UUID) (_ : Tick) (s : ClientTables) :
    Except PgError (Nat × ClientTables) :=
  match s.clients.find? fun c => c.id = id && c.status = .revoked with
  | none => .ok (0, s)
  | some _ => .ok (1, {
      clients := delete (fun c => c.id = id && c.status = .revoked) s.clients
      scopes := delete (fun x => x.apiClientId = id) s.scopes
      previousTokens := delete (fun p => p.apiClientId = id) s.previousTokens })

end Tenancit.Store.Queries
