import Tenancit.Lib.Runs
import Tenancit.Usage.Collector

/-!
The replicas of the server account for usage together. Each has a buffer and flushes it on
its own: the flush drains the buffer and then runs the statements of its batch one by one,
while the other replicas run theirs. What is counted and what is on its way add up to what
was recorded, and an event that has been flushed is covered by the last use of its client.
-/
namespace Tenancit.Usage

open Encoding Store Store.Queries

/-- Where the flush of a replica stands, with the events it has taken from the buffer. -/
inductive Flushing
  | idle
  | draining (taken : List Event)
  | writing (taken : List Event) (pending : List Statement)

structure Replica where
  events : List Event := []
  flushing : Flushing := .idle

/-- The tables and the replicas; with all events that `Record` was called with, those it
dropped, those whose flush has finished, and the number of statements that failed. -/
structure State (ι : Type) where
  tables : UsageTables := {}
  replicas : ι → Replica := fun _ => {}
  recorded : List Event := []
  dropped : List Event := []
  flushed : List Event := []
  failures : Nat := 0

section machine

variable {ι : Type} [DecidableEq ι]

def State.setReplica (s : State ι) (r : ι) (p : Replica) : State ι :=
  { s with replicas := Function.update s.replicas r p }

def State.setClients (s : State ι) (clients : List ApiClient) : State ι :=
  { s with tables := { s.tables with clients := clients } }

inductive Action (ι : Type)
  | createAPIClient (now : Timestamp) (arg : CreateAPIClientParams) (t : Tick)
  | changeClients (f : ApiClient → ApiClient)
  | record (r : ι) (e : Event) (now : Int)
  | flush (r : ι)
  | receive (r : ι)
  | drained (r : ι) (touches upserts : List Statement)
  | execute (r : ι)
  | finish (r : ι)

inductive Step (capacity : Nat) : State ι → Action ι → State ι → Prop
  /-- The database makes identifiers that nothing has used before. -/
  | createAPIClient {s : State ι} {now arg t row} {clients : ClientTables}
      (hcreate : createAPIClient now arg t s.tables.toClientTables = .ok (row, clients))
      (hfresh : ∀ e ∈ s.recorded, e.apiClientID ≠ row.id) :
      Step capacity s (.createAPIClient now arg t) (s.setClients clients.clients)
  /-- The other statements on clients leave these two columns alone. -/
  | changeClients {s : State ι} {f : ApiClient → ApiClient}
      (hkeep : ∀ c, (f c).id = c.id ∧ (f c).lastUsedAt = c.lastUsedAt) :
      Step capacity s (.changeClients f) (s.setClients (s.tables.clients.map f))
  | record {s : State ι} {r e now} (hroom : (s.replicas r).events.length < capacity) :
      Step capacity s (.record r e now)
        { s.setReplica r { s.replicas r with
          events := (s.replicas r).events ++ [e.stamped now] } with
          recorded := s.recorded ++ [e.stamped now] }
  | drop {s : State ι} {r e now} (hfull : capacity ≤ (s.replicas r).events.length) :
      Step capacity s (.record r e now)
        { s with
          recorded := s.recorded ++ [e.stamped now], dropped := s.dropped ++ [e.stamped now] }
  | flush {s : State ι} {r} (hidle : (s.replicas r).flushing = .idle) :
      Step capacity s (.flush r) (s.setReplica r { s.replicas r with flushing := .draining [] })
  | receive {s : State ι} {r e events taken} (hevents : (s.replicas r).events = e :: events)
      (hflushing : (s.replicas r).flushing = .draining taken) :
      Step capacity s (.receive r) (s.setReplica r ⟨events, .draining (taken ++ [e])⟩)
  /-- The entries of the maps come in any order, those of the last uses first. -/
  | drained {s : State ι} {r taken touches upserts} (hevents : (s.replicas r).events = [])
      (hflushing : (s.replicas r).flushing = .draining taken)
      (htouches : touches.Perm (aggregateEvents taken).touches)
      (hupserts : upserts.Perm (aggregateEvents taken).upserts) :
      Step capacity s (.drained r touches upserts)
      (s.setReplica r ⟨[], .writing taken (touches ++ upserts)⟩)
  | execute {s : State ι} {r taken x pending tables}
      (hflushing : (s.replicas r).flushing = .writing taken (x :: pending))
      (hexec : x.exec s.tables = some tables) :
      Step capacity s (.execute r)
        { s.setReplica r { s.replicas r with flushing := .writing taken pending } with
          tables := tables }
  | fail {s : State ι} {r taken x pending}
      (hflushing : (s.replicas r).flushing = .writing taken (x :: pending)) :
      Step capacity s (.execute r)
        { s.setReplica r { s.replicas r with flushing := .writing taken pending } with
          failures := s.failures + 1 }
  | finish {s : State ι} {r taken} (hflushing : (s.replicas r).flushing = .writing taken []) :
      Step capacity s (.finish r)
        { s.setReplica r { s.replicas r with flushing := .idle } with
          flushed := s.flushed ++ taken }

variable {capacity : Nat} {s t : State ι} {a : Action ι}

theorem Step.failures_le (h : Step capacity s a t) : s.failures ≤ t.failures := by
  cases h with
  | fail => exact Nat.le_succ _
  | _ => exact le_rfl

section balance

variable {key : UsageKey Int} {limited : Bool}

/-- What the events in the hands of a replica add to a count. -/
def Replica.inFlight (key : UsageKey Int) (limited : Bool) (p : Replica) : Nat :=
  tally key limited p.events +
    match p.flushing with
    | .idle => 0
    | .draining taken => tally key limited taken
    | .writing _ pending => (pending.map (Statement.adds key limited)).sum

variable [Fintype ι]

/-- What is counted, on its way or dropped is what was recorded. -/
def Balanced (key : UsageKey Int) (limited : Bool) (s : State ι) : Prop :=
  s.tables.counted key limited + ∑ r, (s.replicas r).inFlight key limited +
    tally key limited s.dropped =
    tally key limited s.recorded

theorem touches_adds (batch : EventBatch) :
    (batch.touches.map (Statement.adds key limited)).sum = 0 := by
  rw [EventBatch.touches, List.map_map, List.sum_eq_zero_iff_forall_eq_nat]
  intro n hn
  obtain ⟨x, -, rfl⟩ := List.mem_map.mp hn
  rfl

theorem Step.balanced (hday : FourDigitYear key.day) (h : Step capacity s a t)
    (hs : Balanced key limited s) (hfailures : t.failures = 0) : Balanced key limited t := by
  have hmove := fun r p => Tally.sum_update (Replica.inFlight key limited) s.replicas r p
  unfold Balanced at *
  cases h with
  | createAPIClient => exact hs
  | changeClients => exact hs
  | @record r e now hroom =>
    have hsum := hmove r { s.replicas r with events := (s.replicas r).events ++ [e.stamped now] }
    simp only [State.setReplica, Replica.inFlight, tally_append] at hsum hs ⊢
    omega
  | drop =>
    simp only [tally_append]
    omega
  | @flush r hidle =>
    have hsum := hmove r { s.replicas r with flushing := .draining [] }
    simp only [State.setReplica, Replica.inFlight, hidle, tally_nil] at hsum hs ⊢
    omega
  | @receive r e events taken hevents hflushing =>
    have hsum := hmove r ⟨events, .draining (taken ++ [e])⟩
    simp only [State.setReplica, Replica.inFlight, hevents, hflushing, tally_append, tally_cons,
      tally_nil] at hsum hs ⊢
    omega
  | @drained r taken touches upserts hevents hflushing htouches hupserts =>
    have hsum := hmove r ⟨[], .writing taken (touches ++ upserts)⟩
    have hpending : ((touches ++ upserts).map (Statement.adds key limited)).sum =
        tally key limited taken := by
      rw [List.map_append, List.sum_append, (htouches.map _).sum_eq,
        (hupserts.map _).sum_eq, touches_adds,
        aggregateEvents_adds hday, Nat.zero_add]
    simp only [State.setReplica, Replica.inFlight, hevents, hflushing, hpending, tally_nil]
      at hsum hs ⊢
    omega
  | @execute r taken x pending tables hflushing hexec =>
    have hsum := hmove r { s.replicas r with flushing := .writing taken pending }
    have hcounted : tables.counted key limited =
        s.tables.counted key limited + x.adds key limited :=
      Statement.exec_counted hexec
    simp only [State.setReplica, Replica.inFlight, hflushing, List.map_cons, List.sum_cons]
      at hsum hs ⊢
    omega
  | fail => cases hfailures
  | @finish r taken hflushing =>
    have hsum := hmove r { s.replicas r with flushing := .idle }
    simp only [State.setReplica, Replica.inFlight, hflushing, List.map_nil, List.sum_nil]
      at hsum hs ⊢
    omega

end balance

section clients

/-- A change of rows that keeps the clients, never takes a last use back and never sets one
before the zero time. -/
def Grows (f : ApiClient → ApiClient) : Prop :=
  ∀ c, (f c).id = c.id ∧ (∀ last ∈ c.lastUsedAt, ∃ later ∈ (f c).lastUsedAt, last ≤ later) ∧
    (c.lastUsedAt = none → ∀ last ∈ (f c).lastUsedAt, Timestamp.zero ≤ last)

theorem grows_of_keep {f : ApiClient → ApiClient}
    (h : ∀ c, (f c).id = c.id ∧ (f c).lastUsedAt = c.lastUsedAt) : Grows f := by
  intro c
  obtain ⟨hid, hlast⟩ := h c
  refine ⟨hid, fun last hmem => ⟨last, hlast ▸ hmem, le_rfl⟩, fun hnone last hmem => ?_⟩
  rw [hlast, hnone] at hmem
  cases hmem

theorem grows_touch {apiClientID : UUID} {usedAt : Timestamp} (h : Timestamp.zero ≤ usedAt) :
    Grows fun c => if Touches apiClientID usedAt c then setLastUsed usedAt c else c := by
  intro c
  dsimp only
  split
  · refine ⟨rfl, fun last hmem => ⟨_, rfl, ?_⟩, fun hnone last hmem => ?_⟩
    · rw [Option.mem_def.mp hmem]
      exact le_max_left _ _
    · obtain rfl := Option.some.inj hmem
      exact h.trans (le_max_right _ _)
  · refine ⟨rfl, fun last hmem => ⟨last, hmem, le_rfl⟩, fun hnone last hmem => ?_⟩
    rw [hnone] at hmem
    cases hmem

/-- The client of the event has been used, no more than a minute before it. -/
def Covered (clients : List ApiClient) (e : Event) : Prop :=
  ∀ c ∈ clients, c.id = e.apiClientID →
    (zeroTime < e.at_ → c.lastUsedAt ≠ none) ∧ ∀ last ∈ c.lastUsedAt, e.usedAt - minute ≤ last

variable {f : ApiClient → ApiClient} {clients : List ApiClient} {e : Event}

theorem minute_nonneg : 0 ≤ minute := by decide

theorem usedAt_le_zero (h : ¬zeroTime < e.at_) : e.usedAt ≤ Timestamp.zero :=
  Int.ediv_le_ediv (by decide) (not_lt.mp h)

theorem Covered.map (hf : Grows f) (h : Covered clients e) : Covered (clients.map f) e := by
  intro c' hc' hid
  obtain ⟨c, hc, rfl⟩ := List.mem_map.mp hc'
  obtain ⟨hsame, hlater, hfirst⟩ := hf c
  obtain ⟨hset, hbound⟩ := h c hc (hsame ▸ hid)
  cases hlast : c.lastUsedAt with
  | none =>
    have hold : ¬zeroTime < e.at_ := fun hafter => hset hafter hlast
    refine ⟨fun hafter => absurd hafter hold, fun last hmem => ?_⟩
    exact (sub_le_self _ minute_nonneg).trans ((usedAt_le_zero hold).trans (hfirst hlast last hmem))
  | some last =>
    obtain ⟨later, hmem, hle⟩ := hlater last hlast
    rw [Option.mem_def.mp hmem]
    refine ⟨nofun, fun last' h => ?_⟩
    obtain rfl := Option.some.inj h
    exact (hbound last hlast).trans hle

/-- A statement that touches the client covers the events up to its time. -/
theorem covered_touch {usedAt : Timestamp} (hle : e.usedAt ≤ usedAt) :
    Covered (Table.update (fun c => Touches e.apiClientID usedAt c)
      (setLastUsed usedAt) clients) e := by
  intro c' hc' hid
  obtain ⟨c, hc, rfl⟩ := Table.mem_update.mp hc'
  simp only [decide_eq_true_eq] at hid ⊢
  split at hid
  next htouches =>
    rw [if_pos htouches]
    refine ⟨nofun, fun last hmem => ?_⟩
    obtain rfl := Option.some.inj hmem
    exact (sub_le_self _ minute_nonneg).trans (hle.trans (le_max_right _ _))
  next hnot =>
    rw [if_neg hnot]
    have hstands : ∃ last ∈ c.lastUsedAt, ¬last < usedAt - minute := by
      by_contra hall
      exact hnot ⟨hid, fun last hmem => by_contra fun hlt => hall ⟨last, hmem, hlt⟩⟩
    obtain ⟨last, hmem, hge⟩ := hstands
    rw [Option.mem_def.mp hmem]
    refine ⟨nofun, fun last' h => ?_⟩
    obtain rfl := Option.some.inj h
    exact (sub_le_sub_right hle minute).trans (not_lt.mp hge)

/-- What a statement does to the clients. -/
theorem Statement.exec_clients {x : Statement} {tables tables' : UsageTables}
    (h : x.exec tables = some tables')
    (hzero : ∀ apiClientID usedAt, x = .touchAPIClientLastUsed apiClientID usedAt →
      Timestamp.zero ≤ usedAt) :
    ∃ f, Grows f ∧ tables'.clients = tables.clients.map f := by
  cases x with
  | touchAPIClientLastUsed apiClientID usedAt =>
    cases h
    refine ⟨fun c => if Touches apiClientID usedAt c then setLastUsed usedAt c else c,
      grows_touch (hzero apiClientID usedAt rfl), ?_⟩
    simp only [Table.update, decide_eq_true_eq]
  | upsertAPIClientUsageDaily key count =>
    refine ⟨id, grows_of_keep fun _ => ⟨rfl, rfl⟩, ?_⟩
    simp only [exec, Option.ite_none_left_eq_some] at h
    obtain ⟨-, h⟩ := h
    rw [List.map_id]
    split at h
    · cases h
      rfl
    · simp only [Option.ite_none_right_eq_some, Option.some.injEq] at h
      obtain ⟨-, rfl⟩ := h
      rfl

/-- What is known of a flush: its events were recorded, and each of those whose statements
have been made is covered or has a statement to come. -/
def Flushing.Tracked (clients : List ApiClient) (recorded : List Event) : Flushing → Prop
  | .idle => True
  | .draining taken => taken ⊆ recorded
  | .writing taken pending => taken ⊆ recorded ∧
      (∀ apiClientID usedAt, .touchAPIClientLastUsed apiClientID usedAt ∈ pending →
        Timestamp.zero ≤ usedAt) ∧
      ∀ e ∈ taken, Covered clients e ∨ ∃ usedAt, .touchAPIClientLastUsed e.apiClientID usedAt ∈
        pending ∧ e.usedAt ≤ usedAt

structure Replica.Tracked (clients : List ApiClient) (recorded : List Event) (p : Replica) :
    Prop where
  events : p.events ⊆ recorded
  flushing : p.flushing.Tracked clients recorded

structure Tracked (s : State ι) : Prop where
  after : ∀ c ∈ s.tables.clients, ∀ last ∈ c.lastUsedAt, Timestamp.zero ≤ last
  recorded : s.flushed ⊆ s.recorded
  covered : ∀ e ∈ s.flushed, Covered s.tables.clients e
  replicas : ∀ r, (s.replicas r).Tracked s.tables.clients s.recorded

theorem Replica.Tracked.mono {clients' : List ApiClient} {recorded recorded' : List Event}
    {p : Replica} (h : p.Tracked clients recorded) (hrecorded : recorded ⊆ recorded')
    (hcovered : ∀ e ∈ recorded, Covered clients e → Covered clients' e) :
    p.Tracked clients' recorded' := by
  obtain ⟨hevents, hflushing⟩ := h
  refine ⟨List.Subset.trans hevents hrecorded, ?_⟩
  cases hp : p.flushing with
  | idle => trivial
  | draining taken =>
    rw [hp] at hflushing
    exact List.Subset.trans hflushing hrecorded
  | writing taken pending =>
    rw [hp] at hflushing
    obtain ⟨htaken, hzero, hcover⟩ := hflushing
    exact ⟨List.Subset.trans htaken hrecorded, hzero, fun e he =>
      (hcover e he).imp_left (hcovered e (htaken he))⟩

theorem tracked_update {recorded : List Event} {replicas : ι → Replica} {r : ι} {p : Replica}
    (hp : p.Tracked clients recorded) (h : ∀ r, (replicas r).Tracked clients recorded) (r' : ι) :
    (Function.update replicas r p r').Tracked clients recorded := by
  by_cases hr : r' = r
  · rw [hr, Function.update_self]
    exact hp
  · rw [Function.update_of_ne hr]
    exact h r'

/-- What a step does to the clients: it changes rows, or it adds one that no event is of. -/
theorem Step.on_clients (h : Step capacity s a t) (hs : Tracked s) :
    (∃ f, Grows f ∧ t.tables.clients = s.tables.clients.map f) ∨
      ∃ row, t.tables.clients = s.tables.clients ++ [row] ∧ row.lastUsedAt = none ∧
        ∀ e ∈ s.recorded, e.apiClientID ≠ row.id := by
  cases h with
  | createAPIClient hcreate hfresh =>
    simp only [Queries.createAPIClient] at hcreate
    split at hcreate
    · cases hcreate
    split at hcreate
    · cases hcreate
    · cases hcreate
      exact .inr ⟨_, rfl, rfl, hfresh⟩
  | changeClients hkeep => exact .inl ⟨_, grows_of_keep hkeep, rfl⟩
  | @execute r taken x pending tables hflushing hexec =>
    have htracked := (hs.replicas r).flushing
    rw [hflushing] at htracked
    refine .inl (Statement.exec_clients hexec fun apiClientID usedAt hx => ?_)
    exact htracked.2.1 apiClientID usedAt (hx ▸ .head _)
  | _ => exact .inl ⟨id, grows_of_keep fun _ => ⟨rfl, rfl⟩, (List.map_id _).symm⟩

theorem Step.covered (h : Step capacity s a t) (hs : Tracked s) (he : e ∈ s.recorded)
    (hcovered : Covered s.tables.clients e) : Covered t.tables.clients e := by
  rcases h.on_clients hs with ⟨f, hf, heq⟩ | ⟨row, heq, -, hfresh⟩
  · rw [heq]
    exact hcovered.map hf
  · rw [heq]
    intro c hc hid
    rcases List.mem_append.mp hc with hc | hc
    · exact hcovered c hc hid
    · obtain rfl := List.mem_singleton.mp hc
      exact absurd hid.symm (hfresh e he)

theorem Step.after (h : Step capacity s a t) (hs : Tracked s) :
    ∀ c ∈ t.tables.clients, ∀ last ∈ c.lastUsedAt, Timestamp.zero ≤ last := by
  intro c hc last hlast
  rcases h.on_clients hs with ⟨f, hf, heq⟩ | ⟨row, heq, hnone, -⟩
  · rw [heq] at hc
    obtain ⟨c, hmem, rfl⟩ := List.mem_map.mp hc
    obtain ⟨-, hlater, hfirst⟩ := hf c
    cases hbefore : c.lastUsedAt with
    | none => exact hfirst hbefore last hlast
    | some before =>
      obtain ⟨later, hlater, hle⟩ := hlater before hbefore
      obtain rfl := Option.some.inj (hlater.symm.trans hlast)
      exact (hs.after c hmem before hbefore).trans hle
  · rw [heq] at hc
    rcases List.mem_append.mp hc with hc | hc
    · exact hs.after c hc last hlast
    · obtain rfl := List.mem_singleton.mp hc
      rw [hnone] at hlast
      cases hlast

theorem Step.tracked (h : Step capacity s a t) (hs : Tracked s) (hfailures : t.failures = 0) :
    Tracked t := by
  have hafter := h.after hs
  have hcovered : ∀ e ∈ s.recorded, Covered s.tables.clients e → Covered t.tables.clients e :=
    fun e he => h.covered hs he
  -- the replicas that do not step are where they were
  have hothers : ∀ {recorded : List Event}, s.recorded ⊆ recorded → ∀ r,
      (s.replicas r).Tracked t.tables.clients recorded :=
        fun hrecorded r => (hs.replicas r).mono hrecorded hcovered
  have hflushed : ∀ e ∈ s.flushed, Covered t.tables.clients e :=
    fun e he => hcovered e (hs.recorded he) (hs.covered e he)
  have hsame : s.recorded ⊆ s.recorded := List.Subset.refl _
  cases h with
  | createAPIClient => exact ⟨hafter, hs.recorded, hflushed, hothers hsame⟩
  | changeClients => exact ⟨hafter, hs.recorded, hflushed, hothers hsame⟩
  | @record r e now hroom =>
    have hmore : s.recorded ⊆ s.recorded ++ [e.stamped now] := List.subset_append_left _ _
    refine ⟨hafter, List.Subset.trans hs.recorded hmore, hflushed,
      tracked_update ⟨?_, (hothers hmore r).flushing⟩ (hothers hmore)⟩
    exact List.append_subset.mpr ⟨(hothers hmore r).events, List.subset_append_right _ _⟩
  | @drop r e now hfull =>
    have hmore : s.recorded ⊆ s.recorded ++ [e.stamped now] := List.subset_append_left _ _
    exact ⟨hafter, List.Subset.trans hs.recorded hmore, hflushed, hothers hmore⟩
  | @flush r hidle =>
    exact ⟨hafter, hs.recorded, hflushed,
      tracked_update ⟨(hs.replicas r).events, List.nil_subset _⟩ (hothers hsame)⟩
  | @receive r e events taken hevents hflushing =>
    obtain ⟨hbuffer, htracked⟩ := hs.replicas r
    rw [hevents] at hbuffer
    rw [hflushing] at htracked
    obtain ⟨he, hbuffer⟩ := List.cons_subset.mp hbuffer
    refine ⟨hafter, hs.recorded, hflushed, tracked_update ⟨hbuffer, ?_⟩ (hothers hsame)⟩
    exact List.append_subset.mpr ⟨htracked, List.cons_subset.mpr ⟨he, List.nil_subset _⟩⟩
  | @drained r taken touches upserts hevents hflushing htouches hupserts =>
    have htracked := (hs.replicas r).flushing
    rw [hflushing] at htracked
    have hfrom : ∀ apiClientID usedAt,
      .touchAPIClientLastUsed apiClientID usedAt ∈ touches ++ upserts ↔
        .touchAPIClientLastUsed apiClientID usedAt ∈ (aggregateEvents taken).touches :=
          fun apiClientID usedAt => by
      rw [List.mem_append, htouches.mem_iff, hupserts.mem_iff, or_iff_left (touch_notMem_upserts _)]
    refine ⟨hafter, hs.recorded, hflushed,
      tracked_update ⟨List.nil_subset _, htracked, fun apiClientID usedAt hmem => ?_,
      fun e he => ?_⟩ (hothers hsame)⟩
    · exact zero_le_of_touch ((hfrom _ _).mp hmem)
    · by_cases hzero : zeroTime < e.at_
      · obtain ⟨usedAt, hmem, hle⟩ := exists_touch he hzero
        exact .inr ⟨usedAt, (hfrom _ _).mpr hmem, hle⟩
      · refine .inl fun c hc hid => ⟨fun h => absurd h hzero, fun last hlast => ?_⟩
        exact (sub_le_self _ minute_nonneg).trans
          ((usedAt_le_zero hzero).trans (hs.after c hc last hlast))
  | @execute r taken x pending tables hflushing hexec =>
    have htracked := (hs.replicas r).flushing
    rw [hflushing] at htracked
    obtain ⟨htaken, hzero, hcover⟩ := htracked
    refine ⟨hafter, hs.recorded, hflushed, tracked_update ⟨(hs.replicas r).events, htaken,
      fun apiClientID usedAt hmem => hzero apiClientID usedAt (.tail _ hmem),
      fun e he => ?_⟩ (hothers hsame)⟩
    rcases hcover e he with hdone | ⟨usedAt, hmem, hle⟩
    · exact .inl (hcovered e (htaken he) hdone)
    · rcases List.mem_cons.mp hmem with rfl | hmem
      · cases hexec
        exact .inl (covered_touch hle)
      · exact .inr ⟨usedAt, hmem, hle⟩
  | fail => cases hfailures
  | @finish r taken hflushing =>
    have htracked := (hs.replicas r).flushing
    rw [hflushing] at htracked
    obtain ⟨htaken, -, hcover⟩ := htracked
    refine ⟨hafter, List.append_subset.mpr ⟨hs.recorded, htaken⟩, fun e he => ?_,
      tracked_update ⟨(hs.replicas r).events, trivial⟩ (hothers hsame)⟩
    rcases List.mem_append.mp he with he | he
    · exact hflushed e he
    · exact (hcover e he).resolve_right fun ⟨_, hmem, _⟩ => absurd hmem List.not_mem_nil

/-- The last use of a client, where it has one. -/
def State.lastUsed (s : State ι) (id : UUID) : Option Timestamp :=
  (Table.lookup ApiClient.id id s.tables.clients).bind ApiClient.lastUsedAt

theorem Step.lastUsed_le (h : Step capacity s a t) (hs : Tracked s) {id : UUID} {last : Timestamp}
    (hlast : last ∈ s.lastUsed id) : ∃ later ∈ t.lastUsed id, last ≤ later := by
  obtain ⟨c, hc, hlast⟩ := Option.bind_eq_some_iff.mp hlast
  rcases h.on_clients hs with ⟨f, hf, heq⟩ | ⟨row, heq, -, -⟩
  · obtain ⟨-, hlater, -⟩ := hf c
    obtain ⟨later, hmem, hle⟩ := hlater last hlast
    refine ⟨later, ?_, hle⟩
    have hmap : t.tables.clients = Table.update (fun _ => true) f s.tables.clients := by
      rw [heq]
      simp only [Table.update, if_true]
    rw [State.lastUsed, hmap, Table.lookup_update fun c => (hf c).1, hc]
    exact hmem
  · refine ⟨last, ?_, le_rfl⟩
    rw [State.lastUsed, heq, Table.lookup_append, hc]
    exact hlast

end clients

section accounted

omit [DecidableEq ι] in
theorem tracked_init : Tracked ({} : State ι) where
  after := nofun
  recorded := List.nil_subset _
  covered := nofun
  replicas _ := ⟨List.nil_subset _, trivial⟩

theorem run_failures_le {actions : List (Action ι)} (h : Runs.Run (Step capacity) s actions t) :
    s.failures ≤ t.failures := by
  induction h with
  | nil s => exact le_rfl
  | cons hstep _ ih => exact hstep.failures_le.trans ih

theorem run_tracked {actions : List (Action ι)} (h : Runs.Run (Step capacity) s actions t)
    (hs : Tracked s) (hfailures : t.failures = 0) : Tracked t := by
  induction h with
  | nil s => exact hs
  | cons hstep hrun ih =>
    exact ih (hstep.tracked hs (Nat.le_zero.mp (hfailures ▸ run_failures_le hrun))) hfailures

theorem run_lastUsed_le {actions : List (Action ι)} (h : Runs.Run (Step capacity) s actions t)
    (hs : Tracked s) (hfailures : t.failures = 0) {id : UUID} {last : Timestamp}
    (hlast : last ∈ s.lastUsed id) :
    ∃ later ∈ t.lastUsed id, last ≤ later := by
  induction h generalizing last with
  | nil s => exact ⟨last, hlast, le_rfl⟩
  | cons hstep hrun ih =>
    obtain ⟨middle, hmiddle, hle⟩ := hstep.lastUsed_le hs hlast
    have htracked := hstep.tracked hs (Nat.le_zero.mp (hfailures ▸ run_failures_le hrun))
    obtain ⟨later, hlater, hle'⟩ := ih htracked hfailures hmiddle
    exact ⟨later, hlater, hle.trans hle'⟩

/-- No replica holds events any more. -/
def Drained (s : State ι) : Prop :=
  ∀ r, (s.replicas r).events = [] ∧ (s.replicas r).flushing = .idle

/-- What the tables say at the end of a run, and along it. -/
structure Accounted (capacity : Nat) (actions : List (Action ι)) (s : State ι) : Prop where
  totals : Drained s → ∀ key limited, FourDigitYear key.day → s.tables.counted key limited =
    tally key limited s.recorded
  lastUsed : ∀ before u after, actions = before ++ after → Runs.Run (Step capacity) {} before u →
    Runs.Run (Step capacity) u after s → ∀ id, ∀ last ∈ u.lastUsed id,
    ∃ later ∈ s.lastUsed id, last ≤ later
  covered : ∀ e ∈ s.flushed, Covered s.tables.clients e

variable [Fintype ι]

theorem run_balanced {actions : List (Action ι)} {key : UsageKey Int} {limited : Bool}
    (hday : FourDigitYear key.day) (h : Runs.Run (Step capacity) s actions t)
    (hs : Balanced key limited s) (hfailures : t.failures = 0) : Balanced key limited t := by
  induction h with
  | nil s => exact hs
  | cons hstep hrun ih =>
    exact ih (hstep.balanced hday hs (Nat.le_zero.mp (hfailures ▸ run_failures_le hrun))) hfailures

/-- However the replicas batch, flush and interleave, without dropped events and failing
statements the usage of the clients is accounted for. -/
theorem usage_accounted {actions : List (Action ι)} (hrun : Runs.Run (Step capacity) {} actions s)
    (hdropped : s.dropped = []) (hfailures : s.failures = 0) : Accounted capacity actions s := by
  refine ⟨fun hdrained key limited hday =>
    ?_, fun before u after hsplit hbefore hafter id last hlast => ?_, ?_⟩
  · have hinit : Balanced key limited ({} : State ι) := by
      have hnone : ∑ r, ((({} : State ι).replicas r).inFlight key limited) = 0 :=
        Finset.sum_eq_zero fun _ _ => rfl
      rw [Balanced, hnone]
      rfl
    have hbalanced := run_balanced hday hrun hinit hfailures
    have hnone : ∑ r, (s.replicas r).inFlight key limited = 0 := Finset.sum_eq_zero fun r _ => by
      simp only [Replica.inFlight, (hdrained r).1, (hdrained r).2, tally_nil, Nat.add_zero]
    rw [Balanced, hnone, hdropped, tally_nil] at hbalanced
    exact hbalanced
  · have htracked :=
      run_tracked hbefore tracked_init (Nat.le_zero.mp (hfailures ▸ run_failures_le hafter))
    exact run_lastUsed_le hafter htracked hfailures hlast
  · exact (run_tracked hrun tracked_init hfailures).covered

end accounted

end machine

section sample

def sampleTick : Tick := ⟨0, fun k => Fin.ofNat _ (k + 1), fun _ => 0, .plain⟩

def sampleParams : CreateAPIClientParams := ⟨"app", "hash", "preview", 60, 1⟩

/-- A request of the client that the sample creates. -/
def sampleEvent (at_ : Int) : Event := ⟨1, "resolve", 200, false, at_⟩

/-- A request of another client at the start of the year 10000. -/
def sampleLate : Event := ⟨2, "resolve", 200, false, 253402300800000000000⟩

/-- A replica records an event and flushes it. -/
def flushOf (r : Fin 2) (e : Event) : List (Action (Fin 2)) :=
  [.record r e 0, .flush r, .receive r,
   .drained r (aggregateEvents [e]).touches (aggregateEvents [e]).upserts, .execute r]

/-- The replicas take turns. The second event is a minute and a nanosecond after the first. -/
def sampleActions : List (Action (Fin 2)) :=
  .createAPIClient 0 sampleParams sampleTick ::
    (flushOf 0 (sampleEvent 0) ++ [.execute 0, .finish 0] ++
    (flushOf 1 (sampleEvent 60000000001) ++ [.execute 1, .finish 1]) ++
    (flushOf 0 sampleLate ++ [.finish 0]))

theorem sampleActions_run :
    ∃ s, Runs.Run (Step 4) {} sampleActions s ∧ s.dropped = [] ∧ s.failures = 0 ∧ Drained s ∧
    s.tables.clients.map (fun c => (c.id, c.lastUsedAt)) = [(1, some 0)] ∧
    s.tables.daily = [⟨(sampleEvent 0).dailyKey, ⟨2, 0⟩⟩] ∧
    s.recorded = [sampleEvent 0, sampleEvent 60000000001, sampleLate] ∧ s.flushed = s.recorded := by
  refine ⟨_, .cons (.createAPIClient rfl nofun) <|
    .cons (.record (by decide)) <| .cons (.flush rfl) <|
    .cons (.receive rfl rfl) <| .cons (.drained rfl rfl (.refl _) (.refl _)) <|
      .cons (.execute rfl rfl) <|
    .cons (.execute rfl rfl) <| .cons (.finish rfl) <|
      .cons (.record (by decide)) <| .cons (.flush rfl) <|
    .cons (.receive rfl rfl) <| .cons (.drained rfl rfl (.refl _) (.refl _)) <|
      .cons (.execute rfl rfl) <|
    .cons (.execute rfl rfl) <| .cons (.finish rfl) <|
      .cons (.record (by decide)) <| .cons (.flush rfl) <|
    .cons (.receive rfl rfl) <| .cons (.drained rfl rfl (.refl _) (.refl _)) <|
      .cons (.execute rfl rfl) <|
    .cons (.finish rfl) <| .nil _, rfl, rfl, fun r => ?_, rfl, by decide +kernel, rfl, rfl⟩
  match r with
  | 0 => exact ⟨rfl, rfl⟩
  | 1 => exact ⟨rfl, rfl⟩

/-- No row counts the event of the year 10000, and the last use of the client is more than a
minute before the second event. -/
theorem late_usage_uncounted :
    ∃ s, Runs.Run (Step 4) {} sampleActions s ∧ s.dropped = [] ∧ s.failures = 0 ∧ Drained s ∧
    s.tables.counted sampleLate.dailyKey false = 0 ∧
    tally sampleLate.dailyKey false s.recorded = 1 ∧
    ∃ c ∈ s.tables.clients, ∃ last ∈ c.lastUsedAt, ∃ e ∈ s.flushed,
    e.apiClientID = c.id ∧ 60000000000 < e.at_ - last * 1000 := by
  obtain ⟨s, hrun, hdropped, hfailures, hdrained, hclients, hdaily, hrecorded, hflushed⟩ :=
    sampleActions_run
  refine ⟨s, hrun, hdropped, hfailures, hdrained, ?_, ?_, ?_⟩
  · rw [UsageTables.counted, hdaily]
    decide +kernel
  · rw [hrecorded]
    decide +kernel
  · obtain ⟨c, hc, heq⟩ := List.mem_map.mp (hclients ▸ List.mem_singleton_self _ :
      ((1 : UUID), some (0 : Timestamp)) ∈ s.tables.clients.map fun c => (c.id, c.lastUsedAt))
    obtain ⟨hid, hlast⟩ := Prod.mk.inj heq
    refine ⟨c, hc, 0, hlast, sampleEvent 60000000001, ?_, hid.symm, by decide⟩
    rw [hflushed, hrecorded]
    exact .tail _ (.head _)

theorem usage_accounted_sample :
    ∃ s, Runs.Run (Step 4) {} sampleActions s ∧ Drained s ∧ Accounted 4 sampleActions s ∧
    s.tables.counted (sampleEvent 0).dailyKey false = 2 := by
  obtain ⟨s, hrun, hdropped, hfailures, hdrained, -, hdaily, -⟩ := sampleActions_run
  refine ⟨s, hrun, hdrained, usage_accounted hrun hdropped hfailures, ?_⟩
  rw [UsageTables.counted, hdaily]
  decide +kernel

end sample

end Tenancit.Usage
