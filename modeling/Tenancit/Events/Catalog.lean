import Tenancit.Lib.Json

/-! `events/catalog.go`: which audited actions are published, and under which names. -/
namespace Tenancit.Events

open Encoding

def schemaVersion : Int := 1

structure Draft where
  type : String
  version : Int
  aggregateType : String
  aggregateId : String
  payload : Json

def publishedActions : List (String × String) :=
  [("tenant.created", "tenant.created"),
   ("tenant.updated", "tenant.updated"),
   ("tenant.deleted", "tenant.deleted"),
   ("domain.added", "tenant_domain.added"),
   ("domain.updated", "tenant_domain.updated"),
   ("domain.deleted", "tenant_domain.deleted"),
   ("definition.created", "resource_definition.created"),
   ("definition.updated", "resource_definition.updated"),
   ("definition.deleted", "resource_definition.deleted"),
   ("definition.status_changed", "resource_definition.status_changed"),
   ("definition.field_added", "resource_field.added"),
   ("definition.field_updated", "resource_field.updated"),
   ("definition.field_deleted", "resource_field.deleted"),
   ("resource.provisioned", "tenant_resource.provisioned"),
   ("resource.updated", "tenant_resource.updated"),
   ("resource.status_changed", "tenant_resource.status_changed"),
   ("resource.deleted", "tenant_resource.deleted"),
   ("api_client.created", "api_client.created"),
   ("api_client.policy_updated", "api_client.policy_updated"),
   ("api_client.rotated", "api_client.rotated"),
   ("api_client.revoked", "api_client.revoked"),
   ("api_client.deleted", "api_client.deleted")]

/-- The event of an audited action, if the action is published. -/
def fromAudit (action aggregateType aggregateId : String) : Option Draft :=
  (publishedActions.lookup action).map fun eventName =>
    { type := "tenancit." ++ eventName
      version := schemaVersion
      aggregateType := aggregateType
      aggregateId := aggregateId
      payload := .ofMap [("schema_version", .num schemaVersion),
        ("resource", .ofMap [("type", .str aggregateType), ("id", .str aggregateId)])] }

end Tenancit.Events
