import Tenancit.Httpapi.PageRuns
import Tenancit.Lib.Polls
import Tenancit.Lib.Runs
import Mathlib.Logic.Function.Basic

/-!
The change feed beside the transactions that write its events: an event takes its time when it is
inserted and can be read when its transaction commits, and a client asks again and again with the
last cursor it was given. It gets an event exactly if no cursor had passed the event by the commit.
-/
namespace Tenancit.Httpapi

open Encoding Store Text
open Adminauth (timestamp)
open Program Runs

/-- Transactions and one client: `tables` is what is committed, `writing` what a transaction has
inserted, `log` every event that was ever committed, and `pages` what the client was answered. -/
structure Polled where
  tables : EventTables := {}
  writing : Nat → List OutboxEvent := fun _ => []
  cursor : String := ""
  log : List OutboxEvent := []
  pages : List ChangeFeedResponse := []

/-- The tables as a transaction sees them. -/
def Polled.seen (w : Polled) (i : Nat) : EventTables :=
  { w.tables with outbox := w.tables.outbox ++ w.writing i }

/-- A client keeps its cursor where the answer has none. -/
def followed (cursor : String) (page : ChangeFeedResponse) : String :=
  if page.nextCursor = "" then cursor else page.nextCursor

/-- A transaction has inserted a row. -/
def Polled.inserted (w : Polled) (i : Nat) (row : OutboxEvent) : Polled :=
  { w with writing := Function.update w.writing i (w.writing i ++ [row]) }

def Polled.committed (w : Polled) (i : Nat) : Polled :=
  { w with
    tables := w.seen i, writing := Function.update w.writing i [], log := w.log ++ w.writing i }

/-- The client has been answered. -/
def Polled.answered (w : Polled) (page : ChangeFeedResponse) : Polled :=
  { w with cursor := followed w.cursor page, pages := w.pages ++ [page] }

/-- `elsewhere` is whatever else happens to the tables, retention among it. -/
inductive PollLabel where
  | insert (i : Nat) (arg : Queries.InsertOutboxEventParams) (t : Tick)
  | commit (i : Nat)
  | rollback (i : Nat)
  | elsewhere (tables : EventTables)
  | poll (limit : String) (ticks : List Tick)

/-- A time that can be written and is not the zero time. -/
def Clocked (t : Timestamp) : Prop := FourDigitYear (ZonedTime.dayAt 0 t) ∧ t ≠ Timestamp.zero

def PollLabel.Clocked : PollLabel → Prop
  | insert _ _ t => Httpapi.Clocked t.clock
  | _ => True

/-- An insertion waits for a transaction that has inserted the same identifier, so that none stands
twice. -/
inductive Polled.Step (uuids : UUIDReader) : Polled → PollLabel → Polled → Prop
  | insert {w : Polled} {i : Nat} {arg : Queries.InsertOutboxEventParams} {t : Tick}
      {row : OutboxEvent} {s : EventTables}
      (hok : Queries.insertOutboxEvent arg t (w.seen i) = .ok (row, s))
      (hfresh : ∀ j, ∀ e ∈ w.writing j, e.id ≠ row.id) :
      Step uuids w (.insert i arg t) (w.inserted i row)
  | commit {w : Polled} {i : Nat} : Step uuids w (.commit i) (w.committed i)
  | rollback {w : Polled} {i : Nat} :
      Step uuids w (.rollback i) { w with writing := Function.update w.writing i [] }
  | elsewhere {w : Polled} {s : EventTables} (hless : s.outbox.Sublist w.tables.outbox) :
      Step uuids w (.elsewhere s) { w with tables := s }
  | poll {w : Polled} {limit : String} {ticks ts : List Tick}
      {page : ChangeFeedResponse} {s : EventTables}
      (hok : listChangeFeed uuids limit w.cursor ticks w.tables = .ok (page, ts, s)) :
      Step uuids w (.poll limit ticks) (w.answered page)
  | refused {w : Polled} {limit : String} {ticks : List Tick} {res : Response}
      (herror : listChangeFeed uuids limit w.cursor ticks w.tables = .error res) :
      Step uuids w (.poll limit ticks) w

section invariant

variable {uuids : UUIDReader} {u v w : Polled} {l : PollLabel} {i : Nat}

structure Polled.Inv (uuids : UUIDReader) (w : Polled) : Prop where
  ids : ∀ i, ((w.seen i).outbox.map OutboxEvent.id).Nodup
  apart : ∀ i j, i ≠ j → ∀ e ∈ w.writing i, ∀ e' ∈ w.writing j, e.id ≠ e'.id
  clocked : ∀ i, ∀ e ∈ (w.seen i).outbox, Clocked e.occurredAt
  logged : ∀ e ∈ w.tables.outbox, e ∈ w.log
  cursor : ∃ x, decodeFeedCursor uuids w.cursor = some x

theorem polled_inv_start : Polled.Inv uuids {} :=
  ⟨by simp [Polled.seen], by simp, by simp [Polled.seen], by simp, _, rfl⟩

theorem Polled.Inv.rows (h : w.Inv uuids) : FeedRows w.tables where
  ids := (h.ids 0).sublist ((List.sublist_append_left _ _).map _)
  years e he := (h.clocked 0 e (List.mem_append_left _ he)).1
  times e he := (h.clocked 0 e (List.mem_append_left _ he)).2

/-- The cursor, as the position in the feed that it stands for. -/
def Polled.position (uuids : UUIDReader) (w : Polled) : Option (Timestamp ×ₗ UUID) :=
  feedCursorKey uuids w.cursor

theorem listChangeFeed_ok_iff {limit cursor : String} {ticks ts : List Tick}
    {page : ChangeFeedResponse} {s s' : EventTables}
    (h : listChangeFeed uuids limit cursor ticks s = .ok (page, ts, s')) :
    ticks ≠ [] ∧ (∃ n, feedLimit limit = some n) ∧ ∃ x, decodeFeedCursor uuids cursor = some x := by
  obtain ⟨n, hn, h₁⟩ := Tx.ofExcept_bind_eq_ok.mp h
  obtain ⟨x, hx, h₂⟩ := Tx.ofExcept_bind_eq_ok.mp h₁
  obtain ⟨t, ts', rows, rfl, -, -⟩ := Tx.query_bind_eq_ok.mp h₂
  refine ⟨List.cons_ne_nil _ _, ?_, ?_⟩
  · cases hlimit : feedLimit limit with
    | none => simp [hlimit, orBadRequest] at hn
    | some n => exact ⟨n, rfl⟩
  · cases hcursor : decodeFeedCursor uuids cursor with
    | none => simp [hcursor, orBadRequest] at hx
    | some x => exact ⟨x, rfl⟩

/-- A poll gives the page after the position, and moves the position as far as the page is full. -/
theorem poll_ok {limit : String} {ticks ts : List Tick} {page : ChangeFeedResponse}
    {s : EventTables} (hw : w.Inv uuids)
    (hok : listChangeFeed uuids limit w.cursor ticks w.tables = .ok (page, ts, s)) : ∃ n, 0 < n ∧
      page.events = (Keyset.pageAfter feedKey w.tables.outbox n (w.position uuids)).map
        changeFeedEvent ∧
      (page.nextCursor ≠ "" →
        (Keyset.pageAfter feedKey w.tables.outbox n (w.position uuids)).length = n) ∧
      feedCursorKey uuids (followed w.cursor page) =
        Keyset.advance feedKey w.tables.outbox n (w.position uuids) ∧
      ∃ x, decodeFeedCursor uuids (followed w.cursor page) = some x := by
  obtain ⟨hticks, ⟨n, hn⟩, x, hx⟩ := listChangeFeed_ok_iff hok
  have hreader := @reader_feed uuids _ _ _ _ hw.rows hticks hn
  obtain ⟨s', hread, hencode⟩ := hreader.page w.cursor w.tables ⟨rfl, x, hx⟩
  rw [feedRead, hok, show feedCursorKey uuids w.cursor = (w.position uuids) from rfl] at hread
  simp only [Option.some.injEq, Prod.mk.injEq] at hread
  obtain ⟨⟨hevents, hnext⟩, -⟩ := hread
  refine ⟨n, pageLimit_pos (by decide) hn, hevents, fun hne => ?_, ?_⟩
  · rw [cursorToFollow, if_neg hne] at hnext
    by_contra hlength
    rw [Keyset.nextCursor, if_neg hlength] at hnext
    cases hnext
  · unfold Keyset.advance
    by_cases hne : page.nextCursor = ""
    · rw [cursorToFollow, if_pos hne] at hnext
      rw [followed, if_pos hne]
      refine ⟨?_, x, hx⟩
      have hnone : Keyset.nextCursor feedKey n
          (Keyset.pageAfter feedKey w.tables.outbox n (w.position uuids)) = none := by
        unfold Keyset.nextCursor at hnext ⊢
        split at hnext
        next hfull =>
          rw [if_pos hfull, Option.map_eq_none_iff.mp hnext.symm]
          rfl
        next hfull => rw [if_neg hfull]
      rw [hnone]
      rfl
    · rw [cursorToFollow, if_neg hne] at hnext
      rw [followed, if_neg hne]
      unfold Keyset.nextCursor at hnext ⊢
      split at hnext
      next hfull =>
        obtain ⟨e, hlast, hcursor⟩ := Option.map_eq_some_iff.mp hnext.symm
        have hmem := Keyset.mem_pageAfter (List.mem_of_getLast? hlast)
        rw [← hcursor]
        refine ⟨?_, (hencode e hmem).2⟩
        rw [hreader.cursor e hmem]
        rw [if_pos hfull, hlast]
        rfl
      · cases hnext

theorem insertOutboxEvent_row {arg : Queries.InsertOutboxEventParams} {t : Tick}
    {s s' : EventTables} {row : OutboxEvent}
    (h : Queries.insertOutboxEvent arg t s = .ok (row, s')) :
    row.occurredAt = t.clock ∧ (∀ e ∈ s.outbox, e.id ≠ row.id) ∧ s' = { s with
      outbox := s.outbox ++ [row] } := by
  simp only [Queries.insertOutboxEvent] at h
  split at h
  · cases h
  split at h
  · cases h
  next hfresh =>
    cases h
    exact ⟨rfl, by simpa using hfresh, rfl⟩

theorem seen_inserted_self (w : Polled) (i : Nat) (row : OutboxEvent) :
    ((w.inserted i row).seen i).outbox = (w.seen i).outbox ++ [row] := by
  simp only [Polled.seen, Polled.inserted, Function.update_self, List.append_assoc]

theorem seen_inserted_of_ne {j : Nat} (row : OutboxEvent) (hj : j ≠ i) :
    ((w.inserted i row).seen j).outbox = (w.seen j).outbox := by
  simp only [Polled.seen, Polled.inserted, Function.update_of_ne hj]

theorem seen_committed_self (w : Polled) (i : Nat) :
    ((w.committed i).seen i).outbox = (w.seen i).outbox := by
  simp only [Polled.seen, Polled.committed, Function.update_self, List.append_nil]

theorem seen_committed_of_ne {j : Nat} (hj : j ≠ i) :
    ((w.committed i).seen j).outbox = (w.seen i).outbox ++ w.writing j := by
  simp only [Polled.seen, Polled.committed, Function.update_of_ne hj]

theorem writing_inserted_self (w : Polled) (i : Nat) (row : OutboxEvent) :
    (w.inserted i row).writing i = w.writing i ++ [row] :=
  Function.update_self _ _ _

theorem writing_inserted_of_ne {j : Nat} (row : OutboxEvent) (hj : j ≠ i) :
    (w.inserted i row).writing j = w.writing j :=
  Function.update_of_ne hj _ _

theorem mem_writing_committed {j : Nat} {e : OutboxEvent} (h : e ∈ (w.committed i).writing j) :
    e ∈ w.writing j := by
  by_cases hj : j = i
  · rw [hj, show (w.committed i).writing i = [] from Function.update_self _ _ _] at h
    cases h
  · rwa [show (w.committed i).writing j = w.writing j from Function.update_of_ne hj _ _] at h

theorem Polled.Inv.insert {arg : Queries.InsertOutboxEventParams} {t : Tick} {row : OutboxEvent}
    {s : EventTables} (hw : w.Inv uuids) (ht : Clocked t.clock)
    (hok : Queries.insertOutboxEvent arg t (w.seen i) = .ok (row, s))
    (hfresh : ∀ j, ∀ e ∈ w.writing j, e.id ≠ row.id) : (w.inserted i row).Inv uuids := by
  obtain ⟨htime, hnew, -⟩ := insertOutboxEvent_row hok
  refine ⟨fun j => ?_, fun j k hjk e he e' he' => ?_, fun j e he => ?_, hw.logged, hw.cursor⟩
  · by_cases hj : j = i
    · rw [hj, seen_inserted_self, List.map_append]
      refine List.nodup_append.mpr ⟨hw.ids i, List.nodup_singleton _, fun a ha b hb => ?_⟩
      obtain ⟨e, he, rfl⟩ := List.mem_map.mp ha
      rw [List.mem_singleton.mp hb]
      exact hnew e he
    · rw [seen_inserted_of_ne row hj]
      exact hw.ids j
  · by_cases hj : j = i
    · have hk : k ≠ i := fun h => hjk (hj.trans h.symm)
      rw [hj, writing_inserted_self, List.mem_append, List.mem_singleton] at he
      rw [writing_inserted_of_ne row hk] at he'
      rcases he with he | rfl
      · exact hw.apart i k hk.symm e he e' he'
      · exact (hfresh k e' he').symm
    · rw [writing_inserted_of_ne row hj] at he
      by_cases hk : k = i
      · rw [hk, writing_inserted_self, List.mem_append, List.mem_singleton] at he'
        rcases he' with he' | rfl
        · exact hw.apart j i hj e he e' he'
        · exact hfresh j e he
      · rw [writing_inserted_of_ne row hk] at he'
        exact hw.apart j k hjk e he e' he'
  · by_cases hj : j = i
    · rw [hj, seen_inserted_self, List.mem_append, List.mem_singleton] at he
      rcases he with he | rfl
      · exact hw.clocked i e he
      · exact htime ▸ ht
    · rw [seen_inserted_of_ne row hj] at he
      exact hw.clocked j e he

theorem Polled.Inv.commit (hw : w.Inv uuids) (i : Nat) : (w.committed i).Inv uuids := by
  have hids := fun j => hw.ids j
  simp only [Polled.seen, List.map_append, List.nodup_append] at hids
  refine ⟨fun j => ?_, fun j k hjk e he e' he' => ?_, fun j e he => ?_, fun e he => ?_, hw.cursor⟩
  · by_cases hj : j = i
    · rw [hj, seen_committed_self]
      exact hw.ids i
    · rw [seen_committed_of_ne hj, List.map_append]
      refine List.nodup_append.mpr ⟨hw.ids i, (hids j).2.1, fun a ha b hb => ?_⟩
      rw [Polled.seen, List.map_append, List.mem_append] at ha
      rcases ha with ha | ha
      · exact (hids j).2.2 a ha b hb
      · obtain ⟨e, he, rfl⟩ := List.mem_map.mp ha
        obtain ⟨e', he', rfl⟩ := List.mem_map.mp hb
        exact hw.apart i j (Ne.symm hj) e he e' he'
  · exact hw.apart j k hjk e (mem_writing_committed he) e' (mem_writing_committed he')
  · by_cases hj : j = i
    · rw [hj, seen_committed_self] at he
      exact hw.clocked i e he
    · rw [seen_committed_of_ne hj, List.mem_append] at he
      rcases he with he | he
      · exact hw.clocked i e he
      · exact hw.clocked j e (List.mem_append_right _ he)
  · rcases List.mem_append.mp he with he | he
    · exact List.mem_append_left _ (hw.logged e he)
    · exact List.mem_append_right _ he

/-- Nothing is worse where there are fewer events. -/
theorem Polled.Inv.less {s : EventTables} {writing : Nat → List OutboxEvent} (hw : w.Inv uuids)
    (hs : s.outbox.Sublist w.tables.outbox) (hwriting : ∀ i, (writing i).Sublist (w.writing i)) :
    Polled.Inv uuids { w with tables := s, writing := writing } where
  ids i := (hw.ids i).sublist ((hs.append (hwriting i)).map _)
  apart i j hij e he e' he' :=
    hw.apart i j hij e ((hwriting i).subset he) e' ((hwriting j).subset he')
  clocked i e he := hw.clocked i e ((hs.append (hwriting i)).subset he)
  logged e he := hw.logged e (hs.subset he)
  cursor := hw.cursor

theorem Polled.Inv.step (hw : w.Inv uuids) (hl : l.Clocked) (h : Step uuids w l v) :
    v.Inv uuids := by
  cases h with
  | insert hok hfresh => exact hw.insert hl hok hfresh
  | commit => exact hw.commit _
  | @rollback i =>
    refine hw.less (List.Sublist.refl _) fun j => ?_
    by_cases hj : j = i
    · rw [hj, Function.update_self]
      exact List.nil_sublist _
    · rw [Function.update_of_ne hj]
  | elsewhere hless => exact hw.less hless fun _ => List.Sublist.refl _
  | poll hok =>
    obtain ⟨-, -, -, -, -, hcursor⟩ := poll_ok hw hok
    exact ⟨hw.ids, hw.apart, hw.clocked, hw.logged, hcursor⟩
  | refused _ => exact hw

theorem polled_inv_run {xs : List PollLabel} (hw : u.Inv uuids) (hclock : ∀ l ∈ xs, l.Clocked)
    (h : Run (Polled.Step uuids) u xs w) : w.Inv uuids := by
  induction h with
  | nil => exact hw
  | cons hstep _ ih =>
    exact ih (hw.step (hclock _ (.head _)) hstep) fun l hl => hclock l (.tail _ hl)

end invariant

section delivery

open Keyset

variable {uuids : UUIDReader} {u v w : Polled} {l : PollLabel} {xs : List PollLabel}
  {e : OutboxEvent} {page : ChangeFeedResponse}

/-- The answer has the event. -/
def Shows (e : OutboxEvent) (page : ChangeFeedResponse) : Prop := changeFeedEvent e ∈ page.events

/-- The events of a page are told apart by their identifiers. -/
theorem shows_iff (hw : w.Inv uuids) (he : e ∈ w.tables.outbox) {n : Nat}
    (hevents : page.events =
      (pageAfter feedKey w.tables.outbox n (w.position uuids)).map changeFeedEvent) :
    Shows e page ↔ e ∈ pageAfter feedKey w.tables.outbox n (w.position uuids) := by
  rw [Shows, hevents, List.mem_map]
  constructor
  · rintro ⟨e', he', hsame⟩
    have htext : e'.id.text = e.id.text := by
      simpa only [changeFeedEvent] using congrArg ChangeFeedEvent.id hsame
    have hid : e'.id = e.id := Service.text_injective htext
    have hnodup : (w.tables.outbox.map OutboxEvent.id).Nodup := hw.rows.ids
    rwa [← List.inj_on_of_nodup_map hnodup (mem_pageAfter he') he hid]
  · exact fun h => ⟨e, h, rfl⟩

/-- What a step means for an event that can be read: nothing, or a page, which has the event only if
it waits, and else brings the client closer to it. -/
theorem Polled.Step.reading (hw : w.Inv uuids) (h : Step uuids w l v) (he : e ∈ w.tables.outbox) :
    (v.pages = w.pages ∧ (v.position uuids) = (w.position uuids)) ∨
    ∃ page, v.pages = w.pages ++ [page] ∧
      (Behind feedKey (w.position uuids) e → Behind feedKey (v.position uuids) e ∧ ¬Shows e page) ∧
      (Shows e page → page.nextCursor ≠ "" → Behind feedKey (v.position uuids) e) ∧
      (¬Behind feedKey (w.position uuids) e → ¬Shows e page → ¬Behind feedKey (v.position uuids) e ∧
        ∀ history, (∀ b ∈ w.tables.outbox, b ∈ history) →
        between feedKey (v.position uuids) e history <
          between feedKey (w.position uuids) e history) := by
  cases h with
  | insert hok hfresh => exact .inl ⟨rfl, rfl⟩
  | commit => exact .inl ⟨rfl, rfl⟩
  | rollback => exact .inl ⟨rfl, rfl⟩
  | elsewhere hless => exact .inl ⟨rfl, rfl⟩
  | refused _ => exact .inl ⟨rfl, rfl⟩
  | @poll _ _ _ page _ hok =>
    obtain ⟨n, hn, hevents, hfull, hnext, -⟩ := poll_ok hw hok
    have hkeys : (w.tables.outbox.map feedKey).Nodup :=
      (@reader_feed uuids _ _ _ _ hw.rows (listChangeFeed_ok_iff hok).1
      (listChangeFeed_ok_iff hok).2.1.choose_spec).distinct
    have hposition : (w.answered page).position uuids =
      advance feedKey w.tables.outbox n (w.position uuids) := hnext
    rw [hposition]
    refine .inr ⟨page, rfl, fun hbehind => ⟨hbehind.advance, fun hshows => ?_⟩, fun hshows hne =>
      ?_, fun hwaits hout => ?_⟩
    · exact not_behind_of_mem_page ((shows_iff hw he hevents).mp hshows) hbehind
    · exact behind_of_full_page hkeys (hfull hne) ((shows_iff hw he hevents).mp hshows)
    · have hout := (shows_iff hw he hevents).not.mp hout
      exact ⟨not_behind_advance hkeys he hwaits hout, fun history hrows =>
        between_advance hn hkeys hrows he hwaits hout⟩

/-- A step of a run in which the event can be read. -/
def Stays (uuids : UUIDReader) (e : OutboxEvent) (w : Polled) (l : PollLabel) (v : Polled) : Prop :=
  Polled.Step uuids w l v ∧ e ∈ v.tables.outbox

theorem grows_polled (h : Run (Stays uuids e) u xs w) : u.log <+: w.log ∧ u.pages <+: w.pages := by
  induction h with
  | nil => exact ⟨List.prefix_refl _, List.prefix_refl _⟩
  | cons hstep _ ih =>
    cases hstep.1 with
    | commit => exact ⟨(List.prefix_append _ _).trans ih.1, ih.2⟩
    | poll _ => exact ⟨ih.1, (List.prefix_append _ _).trans ih.2⟩
    | insert _ _ => exact ih
    | rollback => exact ih
    | elsewhere _ => exact ih
    | refused _ => exact ih

/-- The pages after a page. -/
theorem drop_pages {pages more : List ChangeFeedResponse} (h : pages ++ [page] <+: more) :
    more.drop pages.length = page :: more.drop (pages.length + 1) := by
  obtain ⟨rest, rfl⟩ := h
  simp

/-- What is behind stays out of every page. -/
theorem behind_run (hu : u.Inv uuids) (hclock : ∀ l ∈ xs, l.Clocked) (he : e ∈ u.tables.outbox)
    (h : Run (Stays uuids e) u xs w) (hbehind : Behind feedKey (u.position uuids) e) :
    ∀ page ∈ w.pages.drop u.pages.length, ¬Shows e page := by
  induction h with
  | nil => simp
  | cons hstep hrest ih =>
    have hrest' := (grows_polled hrest).2
    have ih := ih (hu.step (hclock _ (.head _)) hstep.1) (fun l hl => hclock l (.tail _ hl)) hstep.2
    obtain ⟨hpages, hposition⟩ | ⟨page, hpages, hkept, -, -⟩ := hstep.1.reading hu he
    · rw [← hpages]
      exact ih (hposition ▸ hbehind)
    · obtain ⟨hbehind', hout⟩ := hkept hbehind
      rw [hpages] at hrest' ih
      rw [drop_pages hrest', List.forall_mem_cons]
      exact ⟨hout, by simpa using ih hbehind'⟩

/-- A page with a cursor is the last one to have its events. -/
theorem shown_once_run (hu : u.Inv uuids) (hclock : ∀ l ∈ xs, l.Clocked) (he : e ∈ u.tables.outbox)
    (h : Run (Stays uuids e) u xs w) {pre post : List ChangeFeedResponse}
    (hsplit : w.pages.drop u.pages.length = pre ++ page :: post) (hshows : Shows e page)
    (hne : page.nextCursor ≠ "") : ∀ q ∈ post, ¬Shows e q := by
  induction h generalizing pre with
  | nil => simp at hsplit
  | cons hstep hrest ih =>
    have hrest' := (grows_polled hrest).2
    have hinv := hu.step (hclock _ (.head _)) hstep.1
    have hclock' := fun l hl => hclock l (.tail _ hl)
    obtain ⟨hpages, -⟩ | ⟨next, hpages, -, hlast, -⟩ := hstep.1.reading hu he
    · rw [← hpages] at hsplit
      exact ih hinv hclock' hstep.2 hsplit
    · have hbehind := fun h => behind_run hinv hclock' hstep.2 hrest h
      rw [hpages] at hrest'
      rw [drop_pages hrest'] at hsplit
      rw [hpages, List.length_append, List.length_singleton] at ih hbehind
      cases pre with
      | nil =>
        simp only [List.nil_append, List.cons.injEq] at hsplit
        obtain ⟨rfl, rfl⟩ := hsplit
        exact hbehind (hlast hshows hne)
      | cons first pre =>
        simp only [List.cons_append, List.cons.injEq] at hsplit
        exact ih hinv hclock' hstep.2 hsplit.2

/-- What waits is shown, once the client has asked more often than there are events before it. -/
theorem waits_run (hu : u.Inv uuids) (hclock : ∀ l ∈ xs, l.Clocked) (he : e ∈ u.tables.outbox)
    (h : Run (Stays uuids e) u xs w) (hwaits : ¬Behind feedKey (u.position uuids) e)
    (henough : between feedKey (u.position uuids) e w.log < w.pages.length - u.pages.length) :
    ∃ page ∈ w.pages.drop u.pages.length, Shows e page := by
  induction h with
  | nil => simp at henough
  | cons hstep hrest ih =>
    obtain ⟨hlog, hrest'⟩ := grows_polled (.cons hstep hrest)
    have hmore := (grows_polled hrest).2
    have ih := ih (hu.step (hclock _ (.head _)) hstep.1) (fun l hl => hclock l (.tail _ hl)) hstep.2
    obtain ⟨hpages, hposition⟩ | ⟨page, hpages, -, -, hcloser⟩ := hstep.1.reading hu he
    · rw [← hpages]
      exact ih (hposition ▸ hwaits) (by rw [hposition, hpages]; exact henough)
    · rw [hpages] at hmore ih
      rw [drop_pages hmore]
      by_cases hshows : Shows e page
      · exact ⟨page, .head _, hshows⟩
      · obtain ⟨hwaits', hless⟩ := hcloser hwaits hshows
        have hless := hless _ fun b hb => hlog.subset (hu.logged b hb)
        obtain ⟨q, hq, hqe⟩ := ih hwaits' (by rw [List.length_append, List.length_singleton]; omega)
        exact ⟨q, List.mem_cons_of_mem _ (by simpa using hq), hqe⟩

/-- In every run of transactions and polls, an event is in a page from its commit on exactly if no
cursor that the client has then is at or after it, provided it can be read for as many polls as
there are events before it; and the first page with a cursor that has it is the last. -/
theorem feed_delivers_iff {ys zs : List PollLabel} {i : Nat} (hclock : ∀ l ∈ ys ++ zs, l.Clocked)
    (hys : Run (Polled.Step uuids) {} ys u) (he : e ∈ u.writing i)
    (hcommit : Polled.Step uuids u (.commit i) v) (hzs : Run (Stays uuids e) v zs w)
    (henough : w.log.countP (fun b => feedKey b < feedKey e) < w.pages.length - v.pages.length) :
    ((∃ page ∈ w.pages.drop v.pages.length, Shows e page) ↔ ¬Behind feedKey (u.position uuids) e) ∧
    ∀ pre page post, w.pages.drop v.pages.length = pre ++
    page :: post → Shows e page → page.nextCursor ≠ "" →
      ∀ q ∈ post, ¬Shows e q := by
  have hu := polled_inv_run polled_inv_start (fun l hl => hclock l (List.mem_append_left _ hl)) hys
  have hv := hu.step (l := .commit i) trivial hcommit
  have hclock' : ∀ l ∈ zs, l.Clocked := fun l hl => hclock l (List.mem_append_right _ hl)
  cases hcommit
  have hread : e ∈ (u.seen i).outbox := List.mem_append_right _ he
  refine ⟨⟨?_, fun hwaits => ?_⟩, fun pre page post hsplit hshows hne => ?_⟩
  · rintro ⟨page, hpage, hshows⟩ hbehind
    exact behind_run hv hclock' hread hzs hbehind page hpage hshows
  · refine waits_run hv hclock' hread hzs hwaits (lt_of_le_of_lt ?_ henough)
    exact List.countP_mono_left fun b _ hb => decide_eq_true (of_decide_eq_true hb).1
  · exact shown_once_run hv hclock' hread hzs hsplit hshows hne

/-- An event of a second of August 2025. -/
def samplePublished (id : UUID) : OutboxEvent :=
  ⟨id, "tenancit.tenant.created", 1, "tenant", "1", "req", .obj [], 1754000000000000 + id.val⟩

def samplePublishing (i : Nat) (id : UUID) : PollLabel :=
  .insert i ⟨"tenancit.tenant.created", 1, "tenant", "1", "req",
    .obj []⟩ ⟨(samplePublished id).occurredAt, fun _ => id, fun _ => 0, .plain⟩

theorem samplePublishing_step {i : Nat} {id : UUID} (hseen : ∀ e ∈ (w.seen i).outbox, e.id ≠ id)
    (hfresh : ∀ j, ∀ e ∈ w.writing j, e.id ≠ id) :
    Polled.Step .plain w (samplePublishing i id) (w.inserted i (samplePublished id)) := by
  refine .insert (s := { w.seen i with
    outbox := (w.seen i).outbox ++ [samplePublished id] }) ?_ hfresh
  unfold Queries.insertOutboxEvent
  rw [if_neg (not_not.mpr (by decide)), if_neg (by simpa using hseen)]
  rfl

/-- The answer with one event. -/
def samplePage (e : OutboxEvent) : ChangeFeedResponse :=
  ⟨[changeFeedEvent e], encodeFeedCursor e.occurredAt e.id.text⟩

/-- The second of two events is committed and polled before the first one. -/
def sampleRaced : Polled :=
  (((({} : Polled).inserted 0 (samplePublished 1)).inserted 1 (samplePublished 2)).committed
    1).answered (samplePage (samplePublished 2))

theorem sampleRaced_run : Run (Polled.Step .plain) {}
    [samplePublishing 0 1, samplePublishing 1 2, .commit 1,
      .poll "1" (ticksFrom 0 1)] sampleRaced := by
  refine .cons (samplePublishing_step (by simp [Polled.seen]) (by simp))
    (.cons (samplePublishing_step ?_ ?_) (.cons .commit ?_))
  · intro e he
    cases he
  · intro j e he
    by_cases hj : j = 0
    · rw [hj] at he
      rw [List.mem_singleton.mp he]
      decide
    · simp [Polled.inserted, hj] at he
  obtain ⟨ts, hok⟩ :=
    @listChangeFeed_ok .plain "1" "" 1 (ticksFrom 0 1)
      { outbox := [samplePublished 2] } _ (by decide) (by decide) rfl
  have hrows : changeFeedRows ((zeroTime, UUID.nil).1 ≠ zeroTime) (timestamp (zeroTime, UUID.nil).1)
    (zeroTime, UUID.nil).2 1
      { outbox := [samplePublished 2] } = [samplePublished 2] := by
    simp [changeFeedRows, Keyset.ordered]
  rw [hrows] at hok
  exact .cons (.poll hok) (.nil _)

/-- The cursor stands at the second event. -/
theorem sampleRaced_cursor :
    decodeFeedCursor .plain sampleRaced.cursor =
      some ((samplePublished 2).occurredAt * 1000, 2) := by
  have hyear : FourDigitYear (ZonedTime.dayAt 0 (samplePublished 2).occurredAt) := by decide
  have hcursor : sampleRaced.cursor =
      encodeFeedCursor (samplePublished 2).occurredAt (samplePublished 2).id.text := by
    simp only [sampleRaced, Polled.answered, followed, samplePage,
      encodeFeedCursor_ne_empty, if_false]
  rw [hcursor]
  exact decodeFeedCursor_encode hyear

theorem feed_delivers_iff_missed : ∃ v w, Polled.Step .plain sampleRaced (.commit 0) v ∧
    Run (Stays .plain (samplePublished 1)) v [.poll "1" (ticksFrom 1 1)] w ∧
    Behind feedKey (sampleRaced.position .plain) (samplePublished 1) ∧
    ((∃ page ∈ w.pages.drop v.pages.length, Shows (samplePublished 1) page) ↔
      ¬Behind feedKey (sampleRaced.position .plain) (samplePublished 1)) := by
  obtain ⟨ts, hok⟩ :=
    @listChangeFeed_ok .plain "1" sampleRaced.cursor 1 (ticksFrom 1 1)
      (sampleRaced.committed 0).tables _ (by decide)
    (by decide) sampleRaced_cursor
  have hrun : Run (Stays .plain (samplePublished 1)) (sampleRaced.committed 0)
      [.poll "1" (ticksFrom 1 1)] _ :=
    .cons ⟨.poll hok, List.mem_append_right _ (.head _)⟩ (.nil _)
  have hbehind : Behind feedKey (sampleRaced.position .plain) (samplePublished 1) := by
    rw [Polled.position, feedCursorKey, sampleRaced_cursor, Option.bind_some,
      if_neg (ne_zeroTime (by decide))]
    exact ⟨_, rfl, by decide⟩
  have hclock : ∀ l ∈ [samplePublishing 0 1, samplePublishing 1 2, .commit 1,
    .poll "1" (ticksFrom 0 1)] ++
      [.poll "1" (ticksFrom 1 1)], PollLabel.Clocked l := by
    simp only [List.cons_append, List.nil_append, List.forall_mem_cons]
    exact ⟨⟨by decide, by decide⟩, ⟨by decide, by decide⟩, trivial, trivial, trivial,
      List.forall_mem_nil _⟩
  have henough : (sampleRaced.committed 0).log.countP (fun b =>
    feedKey b < feedKey (samplePublished 1)) < 1 := by decide
  exact ⟨_, _, .commit, hrun, hbehind,
    (feed_delivers_iff hclock sampleRaced_run (.head _) .commit hrun henough).1⟩

end delivery

end Tenancit.Httpapi
