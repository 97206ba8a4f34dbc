import Tenancit.Httpapi.Pages
import Tenancit.Httpapi.ResolveTag
import Tenancit.Httpapi.Unchecked
import Tenancit.Store.CatalogSpec

/-!
Whoever follows the cursors of the change feed, or of the audit listing, from the first page to
the last gets each row that matches once, in order. This holds of rows whose time has a year of
four digits and is not the zero time, which both handlers take for a missing cursor.
-/
namespace Tenancit.Httpapi

open Encoding Store Text
open Adminauth (Nanoseconds timestamp)
open Program

/-- A cursor to follow, where the answer has one. -/
def cursorToFollow (nextCursor : String) : Option String :=
  if nextCursor = "" then none else some nextCursor

theorem timestamp_nanoseconds (t : Timestamp) : timestamp (t * 1000) = t :=
  Int.mul_ediv_cancel _ (by decide)

section feed

/-- The pages of the change feed: each request is answered with a page. -/
def feedRead (uuids : UUIDReader) (limit : String) (ticks : List Tick) (cursor : String)
    (s : EventTables) :
    Option ((List ChangeFeedEvent × Option String) × EventTables) :=
  match listChangeFeed uuids limit cursor ticks s with
  | .ok (page, _, s') => some ((page.events, cursorToFollow page.nextCursor), s')
  | .error _ => none

/-- The rows of the feed: their identifiers are distinct, and their times can be written in UTC, as
the cursor has them. The page is taken as the handler gives it to the JSON writer, which asks for
four-digit years in the zone of the server as well. -/
structure FeedRows (s : EventTables) : Prop where
  ids : (s.outbox.map OutboxEvent.id).Nodup
  years : ∀ e ∈ s.outbox, FourDigitYear (ZonedTime.dayAt 0 e.occurredAt)
  times : ∀ e ∈ s.outbox, e.occurredAt ≠ Timestamp.zero

/-- What the cursor of the feed stands for. -/
def feedCursorKey (uuids : UUIDReader) (cursor : String) : Option (Timestamp ×ₗ UUID) :=
  (decodeFeedCursor uuids cursor).bind fun x => if x.1 = zeroTime then none
    else some (toLex (timestamp x.1, x.2))

variable {uuids : UUIDReader} {limit cursor : String} {n : Nat} {ticks : List Tick}
  {s : EventTables}

theorem listChangeFeed_ok {x : Nanoseconds × UUID} (hticks : ticks ≠ [])
    (hlimit : feedLimit limit = some n) (hcursor : decodeFeedCursor uuids cursor = some x) :
    ∃ ts, listChangeFeed uuids limit cursor ticks s =
      .ok (⟨(changeFeedRows (x.1 ≠ zeroTime) (timestamp x.1) x.2 n s).map changeFeedEvent,
        feedNextCursor n ((changeFeedRows (x.1 ≠ zeroTime) (timestamp x.1) x.2 n s).map
          changeFeedEvent)⟩, ts, s) := by
  obtain ⟨t, ts, rfl⟩ := List.exists_cons_of_ne_nil hticks
  refine ⟨ts, Tx.ofExcept_bind_eq_ok.mpr ⟨n, by rw [hlimit]; rfl, ?_⟩⟩
  refine Tx.ofExcept_bind_eq_ok.mpr ⟨x, by rw [hcursor]; rfl, ?_⟩
  exact Tx.query_bind_eq_ok.mpr ⟨t, ts, _, rfl, rfl, rfl⟩

theorem encodeFeedCursor_ne_empty (t : Timestamp) (id : UUID) :
    encodeFeedCursor t id.text ≠ "" := by
  refine ofList_rawURLEncode_ne fun hnil => ?_
  simp only [utf8_append, List.append_eq_nil_iff] at hnil
  exact absurd hnil.1.2 (by decide)

theorem feedNextCursor_eq (n : Nat) (rows : List OutboxEvent) :
    cursorToFollow (feedNextCursor n (rows.map changeFeedEvent)) =
      Keyset.nextCursor (fun e => encodeFeedCursor e.occurredAt e.id.text) n rows := by
  unfold feedNextCursor Keyset.nextCursor
  rw [List.getLast?_map, List.length_map]
  cases rows.getLast? with
  | none =>
    simp only [Option.map_none, ite_self]
    rfl
  | some last =>
    simp only [Option.map_some]
    split
    · exact if_neg (encodeFeedCursor_ne_empty last.occurredAt last.id)
    · rfl

theorem reader_feed (hs : FeedRows s) (hticks : ticks ≠ []) (hlimit : feedLimit limit = some n) :
    Keyset.Reader (feedRead uuids limit ticks) feedKey s.outbox changeFeedEvent ""
      (fun e => encodeFeedCursor e.occurredAt e.id.text) (feedCursorKey uuids) n
      fun c s' => s' = s ∧ ∃ x, decodeFeedCursor uuids c = some x where
  first := rfl
  distinct := by
    refine List.Nodup.of_map (fun k => (ofLex k).2) ?_
    rw [List.map_map]
    exact hs.ids
  cursor e he := by
    rw [feedCursorKey, decodeFeedCursor_encode (hs.years e he), Option.bind_some,
      if_neg (ne_zeroTime (hs.times e he)),
      timestamp_nanoseconds]
    rfl
  page := by
    rintro c s' ⟨rfl, x, hx⟩
    have hrows : changeFeedRows (x.1 ≠ zeroTime) (timestamp x.1) x.2 n s' =
        Keyset.pageAfter feedKey s'.outbox n (feedCursorKey uuids c) := by
      rw [changeFeedRows, Keyset.pageAfter, Keyset.after, feedCursorKey, hx, Option.bind_some]
      congr 3
      by_cases hzero : x.1 = zeroTime <;> simp [hzero]
    obtain ⟨ts, hok⟩ := listChangeFeed_ok (s := s') hticks hlimit hx
    refine ⟨s', ?_, fun e he => ⟨rfl, _, decodeFeedCursor_encode (hs.years e he)⟩⟩
    rw [feedRead, hok, ← hrows]
    simp only [feedNextCursor_eq]

end feed

section audit

/-- One request for a page: what the handler knows of it, the clock of the application, and
the statements of its transaction. -/
structure AuditRead where
  request : AdminRequest
  now : Nanoseconds
  ticks : List Tick

/-- The pages of the audit listing, of which each is asked for by the next request. -/
def auditRead (uuids : UUIDReader) (offset : Timestamp → Int) (q : AuditQuery)
    (reads : Nat → AuditRead) (cursor : String) (s : EventTables × Nat) :
    Option ((List AdminAuditEvent × Option String) × EventTables × Nat) :=
  let x := reads s.2
  match listAuditEvents uuids offset x.request x.now q cursor x.ticks s.1 with
  | .ok (page, _, s') => some ((page.events, cursorToFollow page.nextCursor), s', s.2 + 1)
  | .error _ => none

/-- The rows of the audit log: their keys are distinct, and their times can be written. -/
structure AuditRows (offset : Timestamp → Int) (s : EventTables) : Prop where
  keys : (s.audit.map fun e => (e.occurredAt, e.id)).Nodup
  years : ∀ e ∈ s.audit, Marshalable (offset e.occurredAt) e.occurredAt
  times : ∀ e ∈ s.audit, e.occurredAt ≠ Timestamp.zero
  ids : ∀ e ∈ s.audit, e.id ≠ UUID.nil

/-- The requests reach the database and may read, no index refuses them, and their own rows are
newer than the rows that are there. -/
structure AuditReads (reads : Nat → AuditRead) (s : EventTables) : Prop where
  accepted : ∀ i, (reads i).request.Accepted ∧ (reads i).request.principal.isSome
  answered : ∀ i, 4 ≤ (reads i).ticks.length
  indexed : ∀ i, ∀ t ∈ (reads i).ticks, t.rules.TakesShort ∧ (reads i).request.Indexed t.rules
  newer : ∀ i, ∀ t ∈ (reads i).ticks, ∀ e ∈ s.audit, e.occurredAt < t.clock
  later : ∀ i j, i < j → ∀ t ∈ (reads i).ticks, ∀ u ∈ (reads j).ticks, t.clock < u.clock

/-- What a query asks for: an explicit window, whose ends have JSON, and a limit. -/
structure AuditQuery.Explicit (q : AuditQuery) (from_ to_ : ZonedTime) (n : Nat) : Prop where
  window : q.from_ ≠ "" ∧ q.to_ ≠ ""
  accepted : ∀ now, auditWindow q now = .ok (from_, to_)
  offsets : from_.offset.natAbs < 1440 ∧ to_.offset.natAbs < 1440
  limit : auditLimit q.limit = some n

variable {uuids : UUIDReader} {offset : Timestamp → Int} {q : AuditQuery} {cursor : String}
  {n : Nat} {from_ to_ : ZonedTime} {s : EventTables} {reads : Nat → AuditRead}

/-- What the cursor of the audit listing stands for. -/
def auditCursorKey (uuids : UUIDReader) (cursor : String) : Option (Timestamp ×ₗ UUID)ᵒᵈ :=
  (decodeAuditCursor uuids cursor).join.map fun x => OrderDual.toDual (toLex (timestamp x.1, x.2))

theorem AuditQuery.Explicit.valid (h : q.Explicit from_ to_ n) : from_.Valid ∧ to_.Valid := by
  have hwindow := h.accepted 0
  simp only [auditWindow, auditTimeParam, if_neg h.window.1, if_neg h.window.2] at hwindow
  obtain ⟨f, hf, hwindow⟩ := Queries.bind_eq_ok.mp hwindow
  obtain ⟨t, ht, hwindow⟩ := Queries.bind_eq_ok.mp hwindow
  split at hwindow
  · cases hwindow
  obtain ⟨rfl, rfl⟩ := Prod.mk.inj (Except.ok.inj hwindow)
  have hread : ∀ {message raw z}, orBadRequest message (ZonedTime.parse raw) =
      .ok z → ZonedTime.parse raw = some z := by
    intro message raw z hz
    cases hp : ZonedTime.parse raw with
    | none =>
      rw [hp] at hz
      cases hz
    | some z' =>
      rw [hp] at hz
      exact congrArg some (Except.ok.inj hz)
  exact ⟨ZonedTime.valid_of_parse (hread hf) h.offsets.1,
    ZonedTime.valid_of_parse (hread ht) h.offsets.2⟩

/-- The metadata of a read is far below the limit of the column. -/
theorem auditReadMetadata_octets (hf : from_.Readable) (ht : to_.Readable) {rows : Nat}
    (hrows : rows < 1000) (hasCursor : Bool) :
    (Json.obj [("from", .str from_.text), ("to", .str to_.text), ("rows", .num rows),
      ("has_cursor", .bool hasCursor)]).octets ≤ 8192 := by
  have hnames : Json.quotedOctets "from" = 6 ∧ Json.quotedOctets "to" = 4 ∧
    Json.quotedOctets "rows" = 6 ∧
      Json.quotedOctets "has_cursor" = 12 := by decide +kernel
  have hfrom :=
    (Json.quotedOctets_le from_.text).trans
      (Nat.add_le_add_right (Nat.mul_le_mul_left 6 hf.length_text_le) 2)
  have hto :=
    (Json.quotedOctets_le to_.text).trans
      (Nat.add_le_add_right (Nat.mul_le_mul_left 6 ht.length_text_le) 2)
  have hnum : Json.numOctets (rows : Int) ≤ 4 :=
    Json.numOctets_le (by decide) (by simpa using hrows)
  have hbool : Json.boolOctets hasCursor ≤ 5 := by cases hasCursor <;> decide
  simp only [Json.octets_obj, List.map_cons, List.map_nil, Json.octets_str,
    Json.octets_num, Json.octets_bool,
    Json.objOctets, List.sum_cons, List.sum_nil, hnames, reduceCtorEq, if_false]
  omega

/-- A read that may read adds its row. -/
theorem insertAdminAuditSuccess_read {r : AdminRequest} (hr : r.Accepted) (hp : r.principal.isSome)
    {metadata : Json} (hmetadata : metadata.octets ≤ 8192) {t : Tick}
    (hindexed : t.rules.TakesShort ∧ r.Indexed t.rules)
    (hnew : ∀ e ∈ s.audit, e.occurredAt < t.clock) (ts : List Tick) :
    ∃ row, row.occurredAt = t.clock ∧ insertAdminAuditSuccess r (auditReadEntry metadata)
    (t :: ts) s =
      .ok ((), ts, { s with audit := s.audit ++ [row] }) := by
  obtain ⟨p, hp⟩ := Option.isSome_iff_exists.mp hp
  have hfixed : (auditReadEntry metadata).Fixed := by
    simp only [auditReadEntry, AuditEntry.Fixed]
    decide
  have hok : Queries.AuditOk (auditParams r p (auditReadEntry metadata)) :=
    (auditOk_iff hr hp hfixed).mpr hmetadata
  have htaken : Queries.AuditIndexed t.rules (auditParams r p (auditReadEntry metadata)) :=
    (auditIndexed_iff hindexed.1 hp hfixed).mpr ⟨hindexed.2,
      hindexed.1 ["audit_query", "activity"] (by decide)⟩
  have hfree : ¬∃ e ∈ s.audit, e.occurredAt = t.clock ∧ e.id = t.ids 0 := by
    rintro ⟨e, he, heq, -⟩
    exact (hnew e he).ne heq
  have hunpublished : Events.fromAudit "audit.events_read" "audit_query" "activity" = none := by
    decide
  refine ⟨Queries.auditRow (auditParams r p (auditReadEntry metadata)) t, rfl, ?_⟩
  have hinsert : Queries.insertAdminAuditEvent (auditParams r p (auditReadEntry metadata)) t s =
      .ok (Queries.auditRow (auditParams r p (auditReadEntry metadata)) t,
        { s with
          audit :=
            s.audit ++ [Queries.auditRow (auditParams r p (auditReadEntry metadata)) t] }) := by
    simp only [Queries.insertAdminAuditEvent, if_neg (not_not.mpr hok), if_neg (not_not.mpr htaken)]
    exact if_neg hfree
  unfold insertAdminAuditSuccess
  simp only [hp]
  refine Tx.statement_bind_eq_ok.mpr ⟨t, ts, _, _, rfl, hinsert, ?_⟩
  simp only [auditReadEntry, hunpublished]
  rfl

/-- A request for a page is answered with the page and adds its row. -/
theorem listAuditEvents_ok (offset : Timestamp → Int) {cursor : String}
    {c : Option (Nanoseconds × UUID)} {x : AuditRead} (hq : q.Explicit from_ to_ n) (hn : n ≤ 200)
    (hr : x.request.Accepted) (hp : x.request.principal.isSome) (hticks : 4 ≤ x.ticks.length)
    (hindexed : ∀ t ∈ x.ticks, t.rules.TakesShort ∧ x.request.Indexed t.rules)
    (hnew : ∀ t ∈ x.ticks, ∀ e ∈ s.audit, e.occurredAt < t.clock)
    (hcursor : decodeAuditCursor uuids cursor = some c) :
    ∃ row ts, (∃ t ∈ x.ticks, row.occurredAt = t.clock) ∧
      listAuditEvents uuids offset x.request x.now q cursor x.ticks s =
        .ok (⟨listAdminAuditEvents q from_ to_ (c.map fun c => (timestamp c.1, c.2)) n s,
          auditNextCursor offset n (listAdminAuditEvents q from_ to_ (c.map fun c =>
            (timestamp c.1, c.2)) n s)⟩, ts,
          { s with audit := s.audit ++ [row] }) := by
  obtain ⟨t₁, t₂, t₃, t₄, ts, hx⟩ : ∃ t₁ t₂ t₃ t₄ ts, x.ticks = t₁ :: t₂ :: t₃ :: t₄ :: ts := by
    match h : x.ticks with
    | [] | [_] | [_, _] | [_, _, _] =>
      rw [h] at hticks
      simp at hticks
    | t₁ :: t₂ :: t₃ :: t₄ :: ts => exact ⟨t₁, t₂, t₃, t₄, ts, rfl⟩
  rw [hx] at hnew hindexed ⊢
  have hlength : (listAdminAuditEvents q from_ to_ (c.map fun c =>
      (timestamp c.1, c.2)) n s).length < 1000 := by
    rw [listAdminAuditEvents, List.length_take]
    omega
  obtain ⟨hfrom, hto⟩ := hq.valid
  have hmetadata := auditReadMetadata_octets hfrom.toReadable hto.toReadable hlength c.isSome
  obtain ⟨row, hrow, hinsert⟩ :=
    insertAdminAuditSuccess_read hr hp hmetadata (hindexed t₃ (by simp))
      (hnew t₃ (by simp)) (t₄ :: ts)
  refine ⟨row, ts, ⟨t₃, by simp, hrow⟩, ?_⟩
  refine Tx.ofExcept_bind_eq_ok.mpr ⟨(from_, to_), hq.accepted _, ?_⟩
  refine Tx.ofExcept_bind_eq_ok.mpr ⟨n, by rw [hq.limit]; rfl, ?_⟩
  refine Tx.ofExcept_bind_eq_ok.mpr ⟨c, by rw [hcursor]; rfl, ?_⟩
  refine Tx.draw_bind_eq_ok.mpr ⟨t₁, _, rfl, ?_⟩
  refine Tx.query_bind_eq_ok.mpr ⟨t₂, _, _, rfl, rfl, ?_⟩
  refine Tx.ofExcept_bind_eq_ok.mpr ⟨_, if_pos hq.offsets, ?_⟩
  refine Tx.bind_eq_ok.mpr ⟨(), _, _, hinsert, ?_⟩
  exact Tx.draw_bind_eq_ok.mpr ⟨t₄, ts, rfl, rfl⟩

theorem auditNextCursor_eq (hs : ∀ e ∈ s.audit, Marshalable (offset e.occurredAt) e.occurredAt)
    (n : Nat) {rows : List AdminAuditEvent} (hrows : ∀ e ∈ rows, e ∈ s.audit) :
    cursorToFollow (auditNextCursor offset n rows) =
      Keyset.nextCursor (fun e =>
        encodeAuditCursor (offset e.occurredAt) e.occurredAt e.id) n rows := by
  unfold auditNextCursor Keyset.nextCursor
  cases hlast : rows.getLast? with
  | none =>
    simp only [Option.map_none, ite_self]
    rfl
  | some last =>
    simp only [Option.map_some]
    split
    · exact if_neg (encodeAuditCursor_ne (hs last (hrows last (List.mem_of_getLast? hlast))))
    · rfl

/-- The states in which a cursor may be read: the rows that the reads added are newer than all
rows that were there, and the first page is asked for before any. -/
def Reading (offset : Timestamp → Int) (reads : Nat → AuditRead) (s : EventTables) (cursor : String)
    (x : EventTables × Nat) : Prop :=
  ∃ added, x.1.audit = s.audit ++
    added ∧ (∀ e ∈ added, ∀ a ∈ s.audit, a.occurredAt < e.occurredAt) ∧
    (∀ e ∈ added, ∀ j, x.2 ≤ j → ∀ t ∈ (reads j).ticks, e.occurredAt < t.clock) ∧
    (cursor = "" ∧ added = [] ∨ ∃ a ∈ s.audit,
      cursor = encodeAuditCursor (offset a.occurredAt) a.occurredAt a.id)

/-- The added rows show on no page. -/
theorem listAdminAuditEvents_eq (hs : AuditRows offset s) {x : EventTables × Nat}
    (hx : Reading offset reads s cursor x) {c : Option (Nanoseconds × UUID)}
    (hcursor : decodeAuditCursor uuids cursor = some c) :
    listAdminAuditEvents q from_ to_ (c.map fun c => (timestamp c.1, c.2)) n x.1 =
      Keyset.pageAfter (OrderDual.toDual ∘ auditKey)
      (s.audit.filter fun e => q.Selects from_ to_ e) n
        (auditCursorKey uuids cursor) := by
  obtain ⟨added, haudit, hnewer, -, hc⟩ := hx
  have hkey : auditCursorKey uuids cursor = c.map fun x =>
      OrderDual.toDual (toLex (timestamp x.1, x.2)) := by
    rw [auditCursorKey, hcursor]
    rfl
  have hnone : ∀ e ∈ added, ¬∀ k ∈ c.map fun (c : Nanoseconds × UUID) => (timestamp c.1, c.2),
      auditKey e < toLex k := by
    intro e he hafter
    rcases hc with ⟨-, rfl⟩ | ⟨a, ha, rfl⟩
    · cases he
    rw [decodeAuditCursor_encode (hs.years a ha) (hs.times a ha) (hs.ids a ha)] at hcursor
    cases hcursor
    have hlt : auditKey e < toLex (timestamp (a.occurredAt * 1000), a.id) := hafter _ rfl
    rw [timestamp_nanoseconds, auditKey, Prod.Lex.toLex_lt_toLex] at hlt
    have hnew := hnewer e he a ha
    rcases hlt with hlt | ⟨heq, -⟩
    · exact absurd hnew hlt.asymm
    · exact absurd heq hnew.ne'
  rw [listAdminAuditEvents, Keyset.pageAfter, haudit, List.filter_append,
    List.filter_eq_nil_iff.mpr fun e he hsel => hnone e he (of_decide_eq_true hsel).2,
    List.append_nil, Keyset.after,
    List.filter_filter, hkey]
  congr 2
  refine List.filter_congr fun e _ => ?_
  cases c with
  | none => simp
  | some k => simp [OrderDual.toDual_lt_toDual, Bool.and_comm]

theorem reader_audit (hs : AuditRows offset s) (hreads : AuditReads reads s)
    (hq : q.Explicit from_ to_ n) (hn : n ≤ 200) :
    Keyset.Reader (auditRead uuids offset q reads) (OrderDual.toDual ∘ auditKey)
      (s.audit.filter fun e => q.Selects from_ to_ e) id "" (fun e =>
        encodeAuditCursor (offset e.occurredAt) e.occurredAt e.id)
      (auditCursorKey uuids) n (Reading offset reads s) where
  first := rfl
  distinct := by
    refine List.Nodup.of_map (fun k => ofLex (OrderDual.ofDual k)) ?_
    rw [List.map_map]
    exact hs.keys.sublist (List.filter_sublist.map _)
  cursor e he := by
    have he := List.mem_of_mem_filter he
    rw [auditCursorKey, decodeAuditCursor_encode (hs.years e he) (hs.times e he) (hs.ids e he),
      Option.join_some,
      Option.map_some, timestamp_nanoseconds]
    rfl
  page := by
    rintro c ⟨s', i⟩ hx
    obtain ⟨cur, hcur⟩ : ∃ cur, decodeAuditCursor uuids c = some cur := by
      obtain ⟨-, -, -, -, ⟨rfl, -⟩ | ⟨a, ha, rfl⟩⟩ := hx
      · exact ⟨_, rfl⟩
      · exact ⟨_, decodeAuditCursor_encode (hs.years a ha) (hs.times a ha) (hs.ids a ha)⟩
    have hnew : ∀ t ∈ (reads i).ticks, ∀ e ∈ s'.audit, e.occurredAt < t.clock := by
      obtain ⟨added, haudit, -, holder, -⟩ := hx
      intro t ht e he
      rcases List.mem_append.mp (haudit ▸ he) with he | he
      · exact hreads.newer i t ht e he
      · exact holder e he i le_rfl t ht
    obtain ⟨row, ts, ⟨t, ht, hrow⟩, hok⟩ :=
      listAuditEvents_ok offset hq hn (hreads.accepted i).1 (hreads.accepted i).2
      (hreads.answered i) (hreads.indexed i) hnew hcur
    rw [listAdminAuditEvents_eq hs hx hcur] at hok
    refine ⟨({ s' with audit := s'.audit ++ [row] }, i + 1), ?_, fun a ha => ?_⟩
    · simp only [auditRead, hok]
      rw [List.map_id, auditNextCursor_eq hs.years n fun e he =>
        List.mem_of_mem_filter (Keyset.mem_pageAfter he)]
    · obtain ⟨added, haudit, hnewer, holder, -⟩ := hx
      refine ⟨added ++ [row], ?_, ?_, ?_, .inr ⟨a, List.mem_of_mem_filter ha, rfl⟩⟩
      · change s'.audit ++ [row] = _
        rw [haudit, List.append_assoc]
      · intro e he b hb
        rcases List.mem_append.mp he with he | he
        · exact hnewer e he b hb
        · obtain rfl := List.mem_singleton.mp he
          exact hrow ▸ hreads.newer i t ht b hb
      · intro e he j hj u hu
        rcases List.mem_append.mp he with he | he
        · exact holder e he j (Nat.le_of_succ_le hj) u hu
        · obtain rfl := List.mem_singleton.mp he
          exact hrow ▸ hreads.later i j hj t ht u hu

end audit

/-- Following the cursors from the first page ends and gives every row that matches once and in
order, in the change feed and in an audit listing with an explicit window, whatever ties there
are and whatever the limit; and what a row is handed out as reads back. The times of the rows
have years of four digits and are not the zero time, and the events have identifiers. -/
theorem pages_complete (uuids : UUIDReader) :
    (∀ (s : EventTables) (limit : String) (n : Nat) (ticks : List Tick), FeedRows s →
      feedLimit limit = some n → ticks ≠ [] →
      ∃ (rows : List OutboxEvent) (s' : EventTables),
      Keyset.Follow (feedRead uuids limit ticks) "" s (rows.map changeFeedEvent) s' ∧
      rows.Perm s.outbox ∧
        rows.Pairwise fun a b => feedKey a < feedKey b) ∧
    (∀ (offset : Timestamp → Int) (s : EventTables) (q : AuditQuery) (from_ to_ : ZonedTime) (n :
      Nat) (reads : Nat → AuditRead),
      AuditRows offset s → AuditReads reads s → q.Explicit from_ to_ n →
      ∃ (rows : List AdminAuditEvent) (s' : EventTables × Nat),
      Keyset.Follow (auditRead uuids offset q reads) "" (s, 0) rows s' ∧
        rows.Perm (s.audit.filter fun e => q.Selects from_ to_ e) ∧ rows.Pairwise fun a b =>
        auditKey b < auditKey a) ∧
    (∀ (t : Timestamp) (id : UUID), FourDigitYear (ZonedTime.dayAt 0 t) →
      decodeFeedCursor uuids (encodeFeedCursor t id.text) = some (t * 1000, id)) ∧
    (∀ (offset : Int) (t : Timestamp) (id : UUID), Marshalable offset t →
      t ≠ Timestamp.zero → id ≠ UUID.nil →
      decodeAuditCursor uuids (encodeAuditCursor offset t id) = some (some (t * 1000, id))) := by
  refine ⟨?_, ?_, fun t id => decodeFeedCursor_encode, fun offset t id => decodeAuditCursor_encode⟩
  · intro s limit n ticks hs hlimit hticks
    have hreader := @reader_feed uuids _ _ _ _ hs hticks hlimit
    obtain ⟨s', hfollow⟩ := hreader.follow (pageLimit_pos (by decide) hlimit) ⟨rfl, _, rfl⟩
    exact ⟨_, s', hfollow, Keyset.ordered_perm, Keyset.ordered_pairwise hreader.distinct⟩
  · intro offset s q from_ to_ n reads hs hreads hq
    have hreader :=
      @reader_audit uuids offset q n from_ to_ s reads hs hreads hq
        (pageLimit_le (by decide) hq.limit)
    have hfirst : Reading offset reads s "" (s, 0) :=
      ⟨[], by simp, by simp, by simp, .inl ⟨rfl, rfl⟩⟩
    obtain ⟨s', hfollow⟩ := hreader.follow (pageLimit_pos (by decide) hq.limit) hfirst
    rw [List.map_id] at hfollow
    exact ⟨_, s', hfollow, Keyset.ordered_perm, Keyset.ordered_pairwise hreader.distinct⟩

theorem auditWindow_ok {q : AuditQuery} {now : Nanoseconds} {f t : ZonedTime}
    (hf : auditTimeParam q.from_ (utcTime (now - 24 * 3600 * 1000000000)) = some f)
    (ht : auditTimeParam q.to_ (utcTime now) = some t)
    (hordered : ¬(t.unixNano ≤ f.unixNano ∨ maxAuditWindow < t.unixNano - f.unixNano)) :
    auditWindow q now = .ok (f, t) := by
  unfold auditWindow
  rw [hf, ht]
  exact if_neg hordered

section sample

theorem auditTimeParam_explicit {raw : String} {z : ZonedTime} (hne : raw ≠ "")
    (h : ZonedTime.parse raw.toList = some z) (fallback : ZonedTime) :
    auditTimeParam raw fallback = some z := by
  rw [auditTimeParam, if_neg hne, h]

def sampleOutboxRow (id : UUID) : OutboxEvent :=
  ⟨id, "tenancit.tenant.created", 1, "tenant", "1", "req", .obj [], 1754000000120000⟩

def sampleAuditRow (id : UUID) : AdminAuditEvent :=
  ⟨1754000000120000, id, "req", "shared_admin_token", none, "", none, "tenant.created", "tenant",
   "1", "success", "POST",
    "/v1/admin/tenants", 201, none, .obj []⟩

/-- Three events of one time, and three rows of the audit log. -/
def sampleTies : EventTables :=
  { outbox := [sampleOutboxRow 5, sampleOutboxRow 3, sampleOutboxRow 4]
    audit := [sampleAuditRow 5, sampleAuditRow 3, sampleAuditRow 4] }

def sampleQuery : AuditQuery :=
  ⟨"2025-07-31T00:00:00Z", "2025-08-01T00:00:00-03:00", "2", "", "", "", "", "", "", ""⟩

/-- The n-th read, at four seconds of its own. -/
def sampleReads (i : Nat) : AuditRead :=
  ⟨sampleAdmin 0, 0, (List.range 4).map fun k => ⟨1754000001000000 + (4 * i + k : Nat), fun _ =>
    1, fun _ => 0, .plain⟩⟩

theorem sampleReads_ticks {i : Nat} {t : Tick} (h : t ∈ (sampleReads i).ticks) :
    ∃ k < 4, t.clock = 1754000001000000 + ((4 * i + k : Nat) : Int) := by
  obtain ⟨k, hk, rfl⟩ := List.mem_map.mp h
  exact ⟨k, List.mem_range.mp hk, rfl⟩

theorem pages_complete_sample :
    (∃ (rows : List OutboxEvent) (s' : EventTables),
      Keyset.Follow (feedRead .plain "1" (ticksFrom 0 1)) "" sampleTies
        (rows.map changeFeedEvent) s' ∧
      rows.Perm sampleTies.outbox ∧ rows.Pairwise fun a b => feedKey a < feedKey b) ∧
    (∃ (rows : List AdminAuditEvent) (s' : EventTables × Nat),
      Keyset.Follow (auditRead .plain (fun _ => -180) sampleQuery sampleReads) ""
        (sampleTies, 0) rows s' ∧
      rows.Perm (sampleTies.audit.filter fun e =>
        sampleQuery.Selects ⟨2025, 7, 31, 0, 0, 0, 0, 0⟩ ⟨2025, 8, 1, 0, 0, 0, 0, -180⟩ e) ∧
      rows.Pairwise fun a b => auditKey b < auditKey a) ∧
    decodeFeedCursor .plain (encodeFeedCursor 1754000000120000 (UUID.text 5)) =
      some (1754000000120000000, 5) ∧
    decodeAuditCursor .plain (encodeAuditCursor (-180) 1754000000120000 5) =
      some (some (1754000000120000000, 5)) := by
  obtain ⟨hfeed, haudit, hfeedCursor, hauditCursor⟩ := pages_complete .plain
  have hone : ∀ e ∈ sampleTies.audit, e = sampleAuditRow 5 ∨ e = sampleAuditRow 3 ∨ e =
      sampleAuditRow 4 := by
    simp [sampleTies]
  refine ⟨hfeed sampleTies "1" 1 _ ⟨by decide, by decide, by decide⟩ (by decide) (by decide), ?_,
    hfeedCursor _ _ (by decide), hauditCursor _ _ _ (by decide) (by decide) (by decide)⟩
  refine haudit _ sampleTies sampleQuery _ _ 2 sampleReads
    ⟨by decide, by decide, by decide, by decide⟩ ⟨?_, ?_, ?_, ?_, ?_⟩
    ⟨by decide, ?_, by decide, by decide⟩
  · exact fun i => ⟨⟨by simp [sampleReads, sampleAdmin], by simp [sampleReads, sampleAdmin]⟩, rfl⟩
  · exact fun i => by simp [sampleReads]
  · intro i t ht
    obtain ⟨k, -, rfl⟩ := List.mem_map.mp ht
    refine ⟨TextRules.takesShort_plain, (by decide : TextRules.plain.fits ["req"] = true),
      fun p hp => ?_⟩
    cases hp
    exact (by decide : TextRules.plain.fits ["shared_admin_token", "admin"] = true)
  · intro i t ht e he
    obtain ⟨k, -, ht⟩ := sampleReads_ticks ht
    have he : e.occurredAt = 1754000000120000 := by rcases hone e he with rfl | rfl | rfl <;> rfl
    have hlt : (1754000000120000 : Int) < 1754000001000000 + ((4 * i + k : Nat) : Int) := by omega
    rw [he, ht]
    exact hlt
  · intro i j hij t ht u hu
    obtain ⟨k, hk, ht⟩ := sampleReads_ticks ht
    obtain ⟨l, -, hu⟩ := sampleReads_ticks hu
    have hlt : 1754000001000000 + ((4 * i + k : Nat) : Int) < 1754000001000000 +
      ((4 * j + l : Nat) : Int) := by omega
    rw [ht, hu]
    exact hlt
  · intro now
    have hfrom : ZonedTime.parse "2025-07-31T00:00:00Z".toList = some ⟨2025, 7, 31, 0, 0, 0, 0,
      0⟩ := by decide +kernel
    have hto : ZonedTime.parse "2025-08-01T00:00:00-03:00".toList = some ⟨2025, 8, 1, 0, 0, 0, 0,
      -180⟩ := by decide +kernel
    have hfrom' :=
      auditTimeParam_explicit (by decide) hfrom (utcTime (now - 24 * 3600 * 1000000000))
    have hto' := auditTimeParam_explicit (by decide) hto (utcTime now)
    have hordered : ¬(ZonedTime.unixNano ⟨2025, 8, 1, 0, 0, 0, 0, -180⟩ ≤
      ZonedTime.unixNano ⟨2025, 7, 31, 0, 0, 0, 0, 0⟩ ∨
        maxAuditWindow < ZonedTime.unixNano ⟨2025, 8, 1, 0, 0, 0, 0, -180⟩ - ZonedTime.unixNano
          ⟨2025, 7, 31, 0, 0, 0, 0, 0⟩) := by
      decide
    exact auditWindow_ok hfrom' hto' hordered

end sample

section zero

def zeroRow : OutboxEvent :=
  ⟨1, "tenancit.tenant.created", 1, "tenant", "1", "req", .obj [], Timestamp.zero⟩

/-- An event at the zero time: the feed takes its cursor for none and begins again, for ever; the
audit listing takes the cursor for none of its own. -/
theorem zero_time_lost :
    (¬∃ rows s', Keyset.Follow (feedRead .plain "1" (ticksFrom 0 1)) ""
      { outbox := [zeroRow] } rows s') ∧
    decodeAuditCursor .plain (encodeAuditCursor 0 Timestamp.zero 1) = none := by
  have hyear : FourDigitYear (ZonedTime.dayAt 0 zeroRow.occurredAt) := by decide
  have hread : ∀ c x, decodeFeedCursor .plain c =
    some (zeroTime, x) → feedRead .plain "1" (ticksFrom 0 1) c { outbox := [zeroRow] } =
      some (([changeFeedEvent zeroRow], some (encodeFeedCursor zeroRow.occurredAt zeroRow.id.text)),
        { outbox := [zeroRow] }) := by
    intro c x hc
    obtain ⟨ts, hok⟩ :=
      @listChangeFeed_ok .plain "1" c 1 (ticksFrom 0 1)
        { outbox := [zeroRow] } _ (by decide) (by decide) hc
    have hrows : changeFeedRows ((zeroTime, x).1 ≠ zeroTime)
        (timestamp (zeroTime, x).1) x 1 { outbox := [zeroRow] } = [zeroRow] := by
      simp [changeFeedRows, Keyset.ordered]
    rw [feedRead, hok, hrows]
    simp only [feedNextCursor_eq]
    rfl
  refine ⟨?_, by decide +kernel⟩
  rintro ⟨rows, s', hfollow⟩
  have hfirst := hread "" UUID.nil rfl
  have hzero : zeroRow.occurredAt * 1000 = zeroTime := by decide
  have hcursor := @decodeFeedCursor_encode .plain _ zeroRow.id hyear
  rw [hzero] at hcursor
  cases hfollow with
  | last h =>
    rw [hfirst] at h
    cases h
  | next h rest =>
    rw [hfirst] at h
    cases h
    exact rest.not_loop (hread _ _ hcursor)

end zero

end Tenancit.Httpapi
