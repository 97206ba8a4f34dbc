import Tenancit.Store.Clients

/-! `service/api_client_policy.go` and `service/apikey.go`. -/
namespace Tenancit.Service

open Encoding Store

inductive PolicyError where
  | invalidScope
  | invalidRPM
  | invalidExpiration
  deriving DecidableEq

def PolicyError.text : PolicyError → String
  | invalidScope => "invalid_scope"
  | invalidRPM => "invalid_rpm"
  | invalidExpiration => "invalid_expiration"

/-- A year, the longest life of a client. -/
def maxClientLife : Duration := Timestamp.seconds (365 * 24 * 3600)

def validateAPIClientPolicy (now : Timestamp) (scopes : List String) (rpm : Int32)
    (expiresAt : Timestamp) : Except PolicyError Unit :=
  if scopes = [] then .error .invalidScope
  else if (∃ scope ∈ scopes, scope ∉ Queries.scopeNames) ∨ ¬scopes.Nodup then .error .invalidScope
  else if rpm ≤ 0 then .error .invalidRPM
  else if expiresAt ≤ now ∨ now + maxClientLife < expiresAt then .error .invalidExpiration
  else .ok ()

def effectiveAPIClientStatus (status : ApiClientStatus) (expiresAt now : Timestamp) : String :=
  if status = .revoked then "revoked"
  else if expiresAt ≠ Timestamp.zero ∧ expiresAt ≤ now then "expired"
  else "active"

/-- The first twelve characters of a token. -/
def apiTokenPreview (token : String) : String :=
  if Text.octetLength token ≤ 12 then token ++ "…" else String.ofList (token.toList.take 12) ++ "…"

/-- The hex digest of a token, the only form in which it is stored. -/
def hashAPIKey (sha256 : Bytes → Bytes) (token : String) : String := hexEncode (sha256 (utf8 token))

/-- A fresh opaque token, from twenty-four random octets. -/
def generateAPIToken (random : Nat → UInt8) : String :=
  "tnc_" ++ hexEncode ((List.range 24).map random)

theorem hashAPIKey_injective {sha256 : Bytes → Bytes} (h : Function.Injective sha256) :
    Function.Injective (hashAPIKey sha256) := fun _ _ he =>
  utf8_injective (h (hexEncode_injective he))

end Tenancit.Service
