import Tenancit.Httpapi.Audit
import Tenancit.Httpapi.Cursors
import Tenancit.Lib.Keyset

/-!
The change feed and the audit listing (`httpapi/{change_feed,audit_events}.go`), page by page.
A page is what its statement selects after the cursor, in the order of time and identifier,
which the audit listing turns round; a full page ends with the cursor of its last row. A read
of the audit log adds a row to it.
-/
namespace Tenancit.Httpapi

open Encoding Store Text
open Adminauth (Nanoseconds timestamp)
open Program.Tx (draw ofExcept)

/-- The `limit` of a query: a default, or a number up to a maximum. -/
def pageLimit (default_ max_ : Nat) (raw : String) : Option Nat :=
  if raw = "" then some default_
  else match atoi raw with
    | some n => if n < 1 ∨ (max_ : Int) < n then none else some n.toNat
    | none => none

/-- A limit is the default, or in the range of those that may be asked for. -/
theorem pageLimit_cases {default_ max_ limit : Nat} {raw : String}
    (h : pageLimit default_ max_ raw = some limit) :
    limit = default_ ∨ 1 ≤ limit ∧ limit ≤ max_ := by
  unfold pageLimit at h
  split at h
  · exact .inl (Option.some.inj h).symm
  · split at h
    next n _ =>
      split at h
      · cases h
      · obtain rfl := Option.some.inj h
        omega
    · cases h

theorem pageLimit_pos {default_ max_ limit : Nat} {raw : String} (hdefault : 0 < default_)
    (h : pageLimit default_ max_ raw = some limit) : 0 < limit := by
  rcases pageLimit_cases h with rfl | ⟨hpos, -⟩
  · exact hdefault
  · exact hpos

theorem pageLimit_le {default_ max_ limit : Nat} {raw : String} (hdefault : default_ ≤ max_)
    (h : pageLimit default_ max_ raw = some limit) : limit ≤ max_ := by
  rcases pageLimit_cases h with rfl | ⟨-, hle⟩
  · exact hdefault
  · exact hle

def orBadRequest {α : Type} (message : String) : Option α → Except Response α
  | some a => .ok a
  | none => .error (badRequest message)

section feed

structure ChangeFeedEvent where
  id : String
  type : String
  version : Int
  aggregateType : String
  aggregateId : String
  occurredAt : Timestamp
  data : Json

/-- The columns that are selected. -/
def changeFeedEvent (e : OutboxEvent) : ChangeFeedEvent :=
  ⟨e.id.text, e.eventType, e.eventVersion, e.aggregateType, e.aggregateId, e.occurredAt, e.payload⟩

structure ChangeFeedResponse where
  events : List ChangeFeedEvent
  /-- `""` where there is none, and then it is left out. -/
  nextCursor : String

/-- `(occurred_at,id)` -/
def feedKey (e : OutboxEvent) : Timestamp ×ₗ UUID := toLex (e.occurredAt, e.id)

/-- `WHERE ($1::boolean=false OR (occurred_at,id)>($2,$3)) ORDER BY occurred_at,id LIMIT $4` -/
def changeFeedRows (hasCursor : Bool) (cursorTime : Timestamp) (cursorID : UUID) (limit : Nat)
    (s : EventTables) : List OutboxEvent :=
  (Keyset.ordered feedKey (s.outbox.filter fun e =>
    hasCursor = false ∨ toLex (cursorTime, cursorID) < feedKey e)).take limit

def feedLimit (raw : String) : Option Nat := pageLimit 100 200 raw

/-- The cursor after a page of events: that of the last one, if the page is full. -/
def feedNextCursor (limit : Nat) (events : List ChangeFeedEvent) : String :=
  match events.getLast? with
  | some last => if events.length = limit then encodeFeedCursor last.occurredAt last.id else ""
  | none => ""

def listChangeFeed (uuids : UUIDReader) (limit cursor : String) :
    Tx EventTables Response ChangeFeedResponse := do
  let limit ← ofExcept (orBadRequest "invalid_limit" (feedLimit limit))
  let (cursorTime, cursorID) ← ofExcept
    (orBadRequest "invalid_cursor" (decodeFeedCursor uuids cursor))
  let rows ← (read fun s =>
    .ok (changeFeedRows (cursorTime ≠ zeroTime) (timestamp cursorTime) cursorID limit s)).mapErr
    fun _ => writeInternalError
  let events := rows.map changeFeedEvent
  pure ⟨events, feedNextCursor limit events⟩

end feed

section audit

def defaultAuditPageLimit : Nat := 50

def maxAuditPageLimit : Nat := 200

/-- Thirty-one days. -/
def maxAuditWindow : Nanoseconds := 31 * 24 * 3600 * 1000000000

/-- The query of the listing, less the cursor. -/
structure AuditQuery where
  from_ : String
  to_ : String
  limit : String
  actorKind : String
  actorSubject : String
  action : String
  targetType : String
  targetId : String
  requestId : String
  result : String

def auditTimeParam (raw : String) (fallback : ZonedTime) : Option ZonedTime :=
  if raw = "" then some fallback else ZonedTime.parse raw.toList

def auditLimit (raw : String) : Option Nat := pageLimit defaultAuditPageLimit maxAuditPageLimit raw

/-- The window of a query, the last day where none is given. -/
def auditWindow (q : AuditQuery) (now : Nanoseconds) : Except Response (ZonedTime × ZonedTime) := do
  let from_ ← orBadRequest "invalid from"
    (auditTimeParam q.from_ (utcTime (now - 24 * 3600 * 1000000000)))
  let to_ ← orBadRequest "invalid audit window" (auditTimeParam q.to_ (utcTime now))
  if to_.unixNano ≤ from_.unixNano ∨ maxAuditWindow < to_.unixNano - from_.unixNano then
    .error (badRequest "invalid audit window")
  else .ok (from_, to_)

/-- The conditions of `ListAdminAuditEvents` besides that on the cursor. -/
def AuditQuery.Selects (q : AuditQuery) (from_ to_ : ZonedTime) (e : AdminAuditEvent) : Prop :=
  from_.micros ≤ e.occurredAt ∧ e.occurredAt < to_.micros ∧
    (q.actorKind = "" ∨ e.actorKind = q.actorKind) ∧
    (q.actorSubject = "" ∨ e.actorSubject = q.actorSubject) ∧
    (q.action = "" ∨ e.action = q.action) ∧ (q.targetType = "" ∨ e.targetType = q.targetType) ∧
    (q.targetId = "" ∨ e.targetId = q.targetId) ∧ (q.requestId = "" ∨ e.requestId = q.requestId) ∧
    (q.result = "" ∨ e.result = q.result)

instance (q : AuditQuery) (from_ to_ : ZonedTime) (e : AdminAuditEvent) :
    Decidable (q.Selects from_ to_ e) := by
  unfold AuditQuery.Selects
  infer_instance

/-- `(occurred_at, id)` -/
def auditKey (e : AdminAuditEvent) : Timestamp ×ₗ UUID := toLex (e.occurredAt, e.id)

/-- `ListAdminAuditEvents`: the latest rows come first. -/
def listAdminAuditEvents (q : AuditQuery) (from_ to_ : ZonedTime)
    (cursor : Option (Timestamp × UUID)) (limit : Nat) (s : EventTables) : List AdminAuditEvent :=
  (Keyset.ordered (OrderDual.toDual ∘ auditKey) (s.audit.filter fun e =>
    q.Selects from_ to_ e ∧ ∀ k ∈ cursor, auditKey e < toLex k)).take limit

structure AuditEventPage where
  events : List AdminAuditEvent
  /-- `""` where there is none, and then it is left out. -/
  nextCursor : String

/-- `auditReadMetadata`; a time whose offset is a day or more has no JSON. -/
def auditReadMetadata (from_ to_ : ZonedTime) (rows : Nat) (hasCursor : Bool) :
    Except Response Json :=
  if from_.offset.natAbs < 1440 ∧ to_.offset.natAbs < 1440 then
    .ok (.obj [("from", .str from_.text), ("to", .str to_.text), ("rows", .num rows),
      ("has_cursor", .bool hasCursor)])
  else .error writeInternalError

def auditReadEntry (metadata : Json) : AuditEntry :=
  ⟨"audit.events_read", "audit_query", "activity", "/v1/admin/audit-events", 200, metadata⟩

/-- The cursor after a page of events, in the zone of the server. -/
def auditNextCursor (offset : Timestamp → Int) (limit : Nat) (events : List AdminAuditEvent) :
    String :=
  match events.getLast? with
  | some last =>
    if events.length =
      limit then encodeAuditCursor (offset last.occurredAt) last.occurredAt last.id else ""
  | none => ""

/-- `listAuditEvents` of a server in a zone, whose offset from UTC at each time is given in
minutes. The transaction lists the events and then adds the one of the read. -/
def listAuditEvents (uuids : UUIDReader) (offset : Timestamp → Int) (r : AdminRequest)
    (now : Nanoseconds) (q : AuditQuery) (cursor : String) :
    Tx EventTables Response AuditEventPage := do
  let (from_, to_) ← ofExcept (auditWindow q now)
  let limit ← ofExcept (orBadRequest "invalid limit" (auditLimit q.limit))
  let cursor ← ofExcept (orBadRequest "invalid cursor" (decodeAuditCursor uuids cursor))
  let _ ← draw writeInternalError
  let events ← (read fun s =>
    .ok (listAdminAuditEvents q from_ to_ (cursor.map fun c =>
    (timestamp c.1, c.2)) limit s)).mapErr
    fun _ => writeInternalError
  let metadata ← ofExcept (auditReadMetadata from_ to_ events.length cursor.isSome)
  insertAdminAuditSuccess r (auditReadEntry metadata)
  let _ ← draw writeInternalError
  pure ⟨events, auditNextCursor offset limit events⟩

end audit

end Tenancit.Httpapi
