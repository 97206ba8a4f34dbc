import Tenancit.Auditops.Maintenance

/-!
What the parts of `maintain_admin_audit_partitions` do to the events and to the registry. The
registry lists exactly the partitions that there are; draining moves the rows of the default
partition, but for those of the days that a month's partition lacks; the last loop drops the
partitions that are past retention and not held.
-/
namespace Tenancit.Auditops

open Encoding Store RangePartitions Partitioned Table

/-- The registry lists the partitions that there are. -/
structure Draft.Consistent (d : Draft) : Prop where
  valid : d.events.Valid AdminAuditEvent.occurredAt
  registered : ∀ b, b ∈ d.registry ↔ b ∈ d.events.layout

variable {offset : Int} {d d' : Draft} {b : RegisteredPartition} {rows : List AdminAuditEvent}

/-- Where everything is in the default partition, as the migrations leave it. -/
theorem consistent_default (rows : Option (List AdminAuditEvent)) :
    Draft.Consistent ⟨⟨[], rows⟩, [], 0⟩ where
  valid := ⟨List.nodup_nil, by simp [layout], .nil, by simp, by simp [layout]⟩
  registered := by simp [layout]

theorem register_cases {registry registry' : List RegisteredPartition} {found : Bool}
    (h : register b registry = some (registry', found)) :
    ((∃ c ∈ registry, c.name = b.name ∨ c.lower = b.lower ∨ c.upper = b.upper) ∧
      registry' = registry) ∨
      ((∀ c ∈ registry, c.name ≠ b.name) ∧ registry' = registry ++ [b]) := by
  unfold register at h
  split at h
  · cases h
  · split at h
    next hconflict =>
      cases h
      exact .inl ⟨hconflict, rfl⟩
    next hnone =>
      cases h
      exact .inr ⟨fun c hc hname => hnone ⟨c, hc, .inl hname⟩, rfl⟩

/-- A partition that is created is registered, and one that was there stays so. -/
theorem Draft.Consistent.register {t events : AuditPartitions} (hd : d.Consistent)
    (ht : d.events.create AdminAuditEvent.occurredAt b = some t)
    (hvalid : events.Valid AdminAuditEvent.occurredAt) (hlayout : events.layout = t.layout)
    (h : Draft.register { d with events } b = some d') :
    d'.Consistent ∧ d'.events = events := by
  obtain ⟨⟨registry, found⟩, hregister, rfl⟩ := Option.map_eq_some_iff.mp h
  refine ⟨⟨hvalid, fun c => ?_⟩, rfl⟩
  rw [hlayout]
  show c ∈ registry ↔ c ∈ t.layout
  rcases create_cases ht with ⟨rfl, a, ha, hname⟩ | ⟨hfresh, hbounds, hapart, -, hnew⟩
  · rcases register_cases hregister with ⟨-, rfl⟩ | ⟨hnone, -⟩
    · exact hd.registered c
    · exact absurd hname (hnone a ((hd.registered a).mpr ha))
  · have hlayout' : t.layout = d.events.layout ++ [b] := by simp [hnew, layout, Partition.bounds]
    rcases register_cases hregister with ⟨⟨a, ha, hconflict⟩, -⟩ | ⟨-, rfl⟩
    · -- a partition that is apart shares neither name nor bound
      have ha := (hd.registered a).mp ha
      have hnonempty := hd.valid.nonempty a ha
      rcases hconflict with hname | hlower | hupper
      · exact absurd hname (hfresh a ha)
      · exact absurd ⟨le_rfl,
          hbounds⟩ ((hapart a ha).not_covers (k := b.lower) ⟨hlower.le, hlower ▸ hnonempty⟩)
      · rcases hapart a ha with h | h
        · exact absurd hbounds (not_lt.mpr (hupper ▸ h))
        · exact absurd hnonempty (not_lt.mpr (hupper ▸ h))
    · rw [hlayout', List.mem_append, List.mem_append, hd.registered]

/-- What a loop over months leaves of the events, and what it does to the layout. -/
structure Created (d d' : Draft) : Prop where
  consistent : d'.Consistent
  default_ : d'.events.default_ = d.events.default_
  layout : ∀ b ∈ d.events.layout, b ∈ d'.events.layout

theorem createMonth_spec {now : Timestamp} {k : Nat} (hd : d.Consistent)
    (h : createMonth offset now d k = some d') : Created d d' ∧ d'.events.rows = d.events.rows ∧
      (∃ c ∈ d'.events.layout, c.name =
        (monthPartition offset (addMonths offset (truncMonth now) k)).name) ∧
      ∀ c ∈ d'.events.layout, c ∈ d.events.layout ∨ c =
        monthPartition offset (addMonths offset (truncMonth now) k) := by
  obtain ⟨t, ht, h⟩ := Option.bind_eq_some_iff.mp h
  obtain ⟨hconsistent, rfl⟩ := hd.register ht (hd.valid.create ht) rfl h
  refine ⟨⟨hconsistent, create_default ht, fun c hc => ?_⟩, create_rows ht,
    create_exists ht, fun c hc => ?_⟩
  · rcases create_layout ht with heq | heq <;> rw [heq]
    · exact hc
    · exact List.mem_append_left _ hc
  · rcases create_layout ht with heq | heq <;> rw [heq] at hc
    · exact .inl hc
    · exact (List.mem_append.mp hc).imp_right List.mem_singleton.mp

/-- Where no partition is new, nothing of the table is. -/
theorem createFuture_events {now : Timestamp} {n : Nat} (h : createFuture offset now n d = some d')
    (hlayout : d'.events.layout = d.events.layout) : d'.events = d.events := by
  suffices hloop : ∀ (ks : List Nat) (d : Draft), ks.foldlM (createMonth offset now) d = some d' →
      d'.events = d.events ∨ d.events.layout.length < d'.events.layout.length by
    rcases hloop _ d h with heq | hlt
    · exact heq
    · exact absurd hlt (by simp [hlayout])
  intro ks
  induction ks with
  | nil => exact fun d h => .inl (congrArg Draft.events (Option.some.inj h).symm)
  | cons k ks ih =>
    intro d h
    obtain ⟨u, hu, h⟩ := Option.bind_eq_some_iff.mp h
    obtain ⟨t, ht, hu⟩ := Option.bind_eq_some_iff.mp hu
    obtain ⟨⟨registry, found⟩, -, rfl⟩ := Option.map_eq_some_iff.mp hu
    have hrest : d'.events = t ∨ t.layout.length < d'.events.layout.length := ih _ h
    rcases create_cases ht with ⟨rfl, -⟩ | ⟨-, -, -, -, hnew⟩
    · exact hrest
    · have hlonger : t.layout.length = d.events.layout.length + 1 := by simp [hnew, layout]
      right
      rcases hrest with heq | hlt
      · rw [heq]
        omega
      · omega

/-- The months to come have a partition each, and no event is touched. -/
theorem createFuture_spec {now : Timestamp} {n : Nat} (hd : d.Consistent)
    (h : createFuture offset now n d = some d') : Created d d' ∧ d'.events.rows = d.events.rows ∧
      (∀ k ≤ n, ∃ c ∈ d'.events.layout, c.name =
        (monthPartition offset (addMonths offset (truncMonth now) k)).name) ∧
      ∀ c ∈ d'.events.layout, c ∈ d.events.layout ∨ ∃ k ≤ n,
      c = monthPartition offset (addMonths offset (truncMonth now) k) := by
  suffices hloop : ∀ (ks : List Nat) (d : Draft),
    d.Consistent → ks.foldlM (createMonth offset now) d = some d' →
      Created d d' ∧ d'.events.rows = d.events.rows ∧
        (∀ k ∈ ks, ∃ c ∈ d'.events.layout,
          c.name = (monthPartition offset (addMonths offset (truncMonth now) k)).name) ∧
        ∀ c ∈ d'.events.layout, c ∈ d.events.layout ∨ ∃ k ∈ ks,
          c = monthPartition offset (addMonths offset (truncMonth now) k) by
    simpa [Nat.lt_succ_iff] using hloop _ d hd h
  intro ks
  induction ks with
  | nil =>
    rintro d hd h
    obtain rfl := Option.some.inj h
    exact ⟨⟨hd, rfl, fun _ hc => hc⟩, rfl, by simp, fun c hc => .inl hc⟩
  | cons k ks ih =>
    intro d hd h
    obtain ⟨u, hu, h⟩ := Option.bind_eq_some_iff.mp h
    obtain ⟨hcreated, hrows, ⟨c, hc, hname⟩, honly⟩ := createMonth_spec hd hu
    obtain ⟨hcreated', hrows', hmonths, honly'⟩ := ih u hcreated.consistent h
    refine ⟨⟨hcreated'.consistent, hcreated'.default_.trans hcreated.default_, fun a ha =>
      hcreated'.layout a (hcreated.layout a ha)⟩,
      hrows'.trans hrows, List.forall_mem_cons.mpr ⟨⟨c, hcreated'.layout c hc, hname⟩, hmonths⟩,
      fun a ha => ?_⟩
    rcases honly' a ha with ha | ⟨j, hj, rfl⟩
    · exact (honly a ha).imp_right fun heq => ⟨k, List.mem_cons_self, heq⟩
    · exact .inr ⟨j, List.mem_cons_of_mem k hj, rfl⟩

section drain

variable {month_start : Timestamp}

/-- The rows of a month, those of the days that its partition lacks excepted, are moved to the
partition. -/
theorem drainMonth_spec (hd : d.Consistent) (hnone : d.events.default_ = none)
    (h : drainMonth offset rows d month_start = some d') : Created d d' ∧
      d'.events.rows.Perm ((rows.filter fun e =>
        (monthPartition offset month_start).Covers e.occurredAt) ++ d.events.rows) ∧
      ∀ c ∈ d'.events.layout, c ∈ d.events.layout ∨ c = monthPartition offset month_start := by
  obtain ⟨t, ht, h⟩ := Option.bind_eq_some_iff.mp h
  obtain ⟨events, hevents, h⟩ := Option.bind_eq_some_iff.mp h
  have hdefault := (create_default ht).trans hnone
  obtain ⟨hvalid, hlayout, hrows, hdefault'⟩ := insertAll_spec (hd.valid.create ht) hevents
  obtain ⟨hconsistent, rfl⟩ := hd.register ht hvalid hlayout h
  refine ⟨⟨hconsistent, (hdefault' hdefault).trans hnone.symm, fun c hc => ?_⟩,
    create_rows ht ▸ hrows, fun c hc => ?_⟩
  · rw [hlayout]
    rcases create_layout ht with heq | heq <;> rw [heq]
    · exact hc
    · exact List.mem_append_left _ hc
  · rw [hlayout] at hc
    rcases create_layout ht with heq | heq <;> rw [heq] at hc
    · exact .inl hc
    · exact (List.mem_append.mp hc).imp_right List.mem_singleton.mp

theorem drainMonths_spec {months : List Timestamp} (hd : d.Consistent)
    (hnone : d.events.default_ = none) (h : months.foldlM (drainMonth offset rows) d = some d') :
    Created d d' ∧
      d'.events.rows.Perm ((months.flatMap fun m => rows.filter fun e =>
        (monthPartition offset m).Covers e.occurredAt) ++ d.events.rows) ∧
      ∀ c ∈ d'.events.layout, c ∈ d.events.layout ∨ ∃ m ∈ months, c = monthPartition offset m := by
  induction months generalizing d with
  | nil =>
    obtain rfl := Option.some.inj h
    exact ⟨⟨hd, rfl, fun _ hc => hc⟩, .refl _, fun c hc => .inl hc⟩
  | cons m months ih =>
    obtain ⟨u, hu, h⟩ := Option.bind_eq_some_iff.mp h
    obtain ⟨hcreated, hrows, honly⟩ := drainMonth_spec hd hnone hu
    obtain ⟨hcreated', hrows', honly'⟩ := ih hcreated.consistent (hcreated.default_.trans hnone) h
    refine ⟨⟨hcreated'.consistent, hcreated'.default_.trans hcreated.default_, fun a ha =>
      hcreated'.layout a (hcreated.layout a ha)⟩,
      ?_, fun c hc => ?_⟩
    · rw [List.flatMap_cons, List.append_assoc]
      exact hrows'.trans
        ((hrows.append_left _).trans (by
        simpa only [← List.append_assoc] using List.perm_append_comm.append_right _))
    · rcases honly' c hc with hc | ⟨n, hn, rfl⟩
      · exact (honly c hc).imp_right fun heq => ⟨m, List.mem_cons_self, heq⟩
      · exact .inr ⟨n, List.mem_cons_of_mem m hn, rfl⟩

theorem mem_defaultMonths {m : Timestamp} :
    m ∈ defaultMonths rows ↔ ∃ e ∈ rows, truncMonth e.occurredAt = m := by
  unfold defaultMonths
  rw [List.mem_insertionSort, List.mem_dedup, List.mem_map]

theorem nodup_defaultMonths : (defaultMonths rows).Nodup :=
  (List.perm_insertionSort _ _).nodup_iff.mpr (List.nodup_dedup _)

/-- The months' parts together are what is not lacking. -/
theorem moved_perm (hoffset : offset.natAbs < 86400) (rows : List AdminAuditEvent) :
    ((defaultMonths rows).flatMap fun m => rows.filter fun e =>
      (monthPartition offset m).Covers e.occurredAt).Perm
      (rows.filter fun e => !decide (Lacking offset e.occurredAt)) := by
  have hmonth : ∀ m ∈ defaultMonths rows, ∀ e : AdminAuditEvent,
      decide ((monthPartition offset m).Covers e.occurredAt) = true →
      truncMonth e.occurredAt = m := by
    intro m hm e hcovers
    obtain ⟨e', -, rfl⟩ := mem_defaultMonths.mp hm
    exact congrArg monthTime (monthAt_of_covers hoffset (of_decide_eq_true hcovers))
  have hkept : (fun e : AdminAuditEvent =>
    decide ((monthPartition offset (truncMonth e.occurredAt)).Covers e.occurredAt)) =
      fun e => !decide (Lacking offset e.occurredAt) := by
    funext e
    rw [← decide_not]
    exact decide_eq_decide.mpr (covers_iff hoffset e.occurredAt)
  rw [← hkept]
  exact flatMap_filter_perm nodup_defaultMonths hmonth rows fun e he =>
    mem_defaultMonths.mpr ⟨e, he, rfl⟩

/-- Draining keeps every event but those of the days that a month's partition lacks, and empties the
default partition. -/
theorem drainDefault_spec (hoffset : offset.natAbs < 86400) (hd : d.Consistent)
    (hattached : d.events.default_.isSome) (h : drainDefault offset d = some d') :
    d'.Consistent ∧ d'.events.default_ = some [] ∧
      d'.events.rows.Perm (((d.events.default_.getD []).filter fun e =>
        !decide (Lacking offset e.occurredAt)) ++ d.events.partitions.flatMap Partition.rows) ∧
      (∀ b ∈ d.events.layout, b ∈ d'.events.layout) ∧
      ∀ c ∈ d'.events.layout, c ∈ d.events.layout ∨
        ∃ e ∈ d.events.default_.getD [], c = monthPartition offset (truncMonth e.occurredAt) := by
  obtain ⟨rows, hrows⟩ := Option.isSome_iff_exists.mp hattached
  unfold drainDefault at h
  simp only [hrows, Option.getD_some] at h ⊢
  split at h
  next hempty =>
    obtain rfl := Option.some.inj h
    exact ⟨hd, hempty ▸ hrows, by simp [Partitioned.rows, hrows, hempty], fun _ hb =>
      hb, fun c hc => .inl hc⟩
  · obtain ⟨u, hu, h⟩ := Option.bind_eq_some_iff.mp h
    obtain rfl := Option.some.inj h
    have hdetached : Draft.Consistent { d with events := { d.events with default_ := none } } :=
      ⟨⟨hd.valid.names, hd.valid.nonempty, hd.valid.apart, hd.valid.covered, by simp⟩,
       hd.registered⟩
    obtain ⟨hcreated, hperm, honly⟩ := drainMonths_spec hdetached rfl hu
    have hnone : u.events.default_ = none := hcreated.default_
    have hvalid := hcreated.consistent.valid
    refine ⟨⟨⟨hvalid.names, hvalid.nonempty, hvalid.apart, hvalid.covered, by simp⟩,
      hcreated.consistent.registered⟩, rfl, ?_,
      hcreated.layout, fun c hc => ?_⟩
    · simp only [Partitioned.rows, hnone, Option.getD_some, Option.getD_none,
        List.append_nil] at hperm ⊢
      exact hperm.trans ((moved_perm hoffset rows).append_right _)
    · rcases honly c hc with hc | ⟨m, hm, rfl⟩
      · exact .inl hc
      · obtain ⟨e, he, rfl⟩ := mem_defaultMonths.mp hm
        exact .inr ⟨e, he, rfl⟩

end drain

section drop

variable {cs : List (RegisteredPartition × Bool)} {r : RetentionResult}

/-- The last loop drops the candidates that are not held, with their rows, and counts them and the
others. -/
theorem dropExpired_spec (hd : d.Consistent)
    (hcs : ∀ c ∈ cs, ∀ b ∈ d.events.layout, b.name = c.1.name → b = c.1)
    (h : dropExpired cs d = some (r, d')) :
    d'.Consistent ∧ d'.events = { d.events with
      partitions := d.events.partitions.filter fun p => (p.bounds, false) ∉ cs } ∧
      r = ⟨d.created, cs.countP fun c => !c.2, cs.countP fun c => c.2⟩ := by
  induction cs generalizing d r with
  | nil =>
    cases h
    exact ⟨hd, by simp, rfl⟩
  | cons c cs ih =>
    obtain ⟨p, held⟩ := c
    obtain ⟨hc, hrest⟩ := List.forall_mem_cons.mp hcs
    cases held with
    | true =>
      obtain ⟨⟨r, u⟩, hu, h⟩ := Option.map_eq_some_iff.mp h
      cases h
      obtain ⟨hconsistent, hevents, rfl⟩ := ih hd hrest hu
      exact ⟨hconsistent, hevents.trans (by simp), by simp⟩
    | false =>
      obtain ⟨t, ht, h⟩ := Option.bind_eq_some_iff.mp h
      obtain ⟨⟨r, u⟩, hu, h⟩ := Option.bind_eq_some_iff.mp h
      cases h
      have hlayout := drop_layout ht
      have hconsistent : Draft.Consistent { d with
        events := t, registry := delete (fun q => q.name = p.name) d.registry } := by
        refine ⟨hd.valid.drop ht, fun b => ?_⟩
        rw [hlayout, mem_delete, mem_delete, hd.registered]
      obtain ⟨hconsistent', hevents, rfl⟩ := ih hconsistent
        (fun c hc b hb => hrest c hc b (mem_delete.mp (hlayout ▸ hb)).1) hu
      refine ⟨hconsistent', hevents.trans ?_, by simp⟩
      obtain ⟨-, rfl⟩ := drop_eq_some ht
      refine congrArg (fun ps => { d.events with partitions := ps }) ?_
      simp only [delete, List.filter_filter]
      refine List.filter_congr fun q hq => ?_
      have hname : q.name = p.name ↔ q.bounds = p :=
        ⟨hc _ (bounds_mem_layout hq), fun heq => congrArg Bounds.name heq⟩
      simp [hname, not_or, Bool.and_comm]

end drop

section maintain

variable {now : Timestamp} {retentionDays futureMonths : Int} {s s' : AuditTables}
  {r : RetentionResult}

def AuditTables.draft (s : AuditTables) : Draft := ⟨s.events, s.registry, 0⟩

/-- Past retention and not held. -/
def isDropped (now : Timestamp) (retentionDays : Nat) (holds : List LegalHold)
    (b : RegisteredPartition) : Bool :=
  decide (b.upper ≤ now - retentionDays * dayTime) && !isHeld holds b

theorem mem_candidates {days : Nat} {registry : List RegisteredPartition} {holds : List LegalHold}
    {held : Bool} : (b, held) ∈ candidates now days registry holds ↔
      b ∈ registry ∧ b.upper ≤ now - days * dayTime ∧ isHeld holds b = held := by
  unfold candidates
  simp only [List.mem_map, List.mem_insertionSort, List.mem_filter,
    decide_eq_true_eq, Prod.mk.injEq]
  constructor
  · rintro ⟨p, ⟨hp, hupper⟩, rfl, rfl⟩
    exact ⟨hp, hupper, rfl⟩
  · rintro ⟨hb, hupper, hheld⟩
    exact ⟨b, ⟨hb, hupper⟩, rfl, hheld⟩

/-- The last loop, where the candidates are read from a registry that lists the partitions. -/
theorem dropCandidates_spec {days : Nat} {holds : List LegalHold} (hd : d.Consistent)
    (h : dropExpired (candidates now days d.registry holds) d = some (r, d')) : d'.Consistent ∧
      d'.events = { d.events with
        partitions := d.events.partitions.filter fun p => !isDropped now days holds p.bounds } := by
  have hnamed : ∀ c ∈ candidates now days d.registry holds, ∀ b ∈ d.events.layout,
      b.name = c.1.name → b = c.1 := by
    rintro ⟨p, held⟩ hc b hb hname
    have hp := (hd.registered p).mp (mem_candidates.mp hc).1
    exact hd.valid.names.eq_of_key hb hp hname
  obtain ⟨hconsistent, hevents, -⟩ := dropExpired_spec hd hnamed h
  have hfilter : (d.events.partitions.filter fun p =>
    (p.bounds, false) ∉ candidates now days d.registry holds) =
      d.events.partitions.filter fun p => !isDropped now days holds p.bounds := by
    refine List.filter_congr fun p hp => ?_
    have hregistered := (hd.registered p.bounds).mpr (bounds_mem_layout hp)
    simp [mem_candidates, hregistered, isDropped]
  exact ⟨hconsistent, hfilter ▸ hevents⟩

theorem maintain_cases (h : maintain offset now retentionDays futureMonths s = some (r, s')) :
    ∃ d₁ d₂ d₃, drainDefault offset s.draft =
      some d₁ ∧ createFuture offset now futureMonths.toNat d₁ = some d₂ ∧
      dropExpired (candidates now retentionDays.toNat d₂.registry s.holds) d₂ = some (r, d₃) ∧
      s' = { s with events := d₃.events, registry := d₃.registry } := by
  obtain ⟨-, h⟩ := Option.ite_none_left_eq_some.mp h
  obtain ⟨d₁, h₁, h⟩ := Option.bind_eq_some_iff.mp h
  obtain ⟨d₂, h₂, h⟩ := Option.bind_eq_some_iff.mp h
  obtain ⟨⟨r, d₃⟩, h₃, h⟩ := Option.bind_eq_some_iff.mp h
  cases h
  exact ⟨d₁, d₂, d₃, h₁, h₂, h₃, rfl⟩

/-- The events that a maintenance leaves, in a session of any fixed offset: of a partition all of
them unless it is past retention and not held; of the default partition those that the partition of
their month takes, unless that is dropped at once. What goes without being past retention is what a
month's partition lacks. -/
theorem maintain_events (hoffset : offset.natAbs < 86400) (hs : s.draft.Consistent)
    (hattached : s.events.default_.isSome)
    (h : maintain offset now retentionDays futureMonths s = some (r, s')) :
    s'.events.rows.Perm
      ((s.events.partitions.filter fun p =>
        !isDropped now retentionDays.toNat s.holds p.bounds).flatMap Partition.rows ++
        (s.events.default_.getD []).filter fun e => !decide (Lacking offset e.occurredAt) &&
          !isDropped now retentionDays.toNat s.holds
            (monthPartition offset (truncMonth e.occurredAt))) := by
  obtain ⟨d₁, d₂, d₃, h₁, h₂, h₃, rfl⟩ := maintain_cases h
  obtain ⟨hd₁, hempty, hrows, hlayout₁, honly⟩ := drainDefault_spec hoffset hs hattached h₁
  obtain ⟨⟨hd₂, hdefault, hlayout₂⟩, hrows₂, -⟩ := createFuture_spec hd₁ h₂
  obtain ⟨-, hevents⟩ := dropCandidates_spec hd₂ h₃
  have hsame : d₂.events.partitions.flatMap Partition.rows = d₁.events.rows := by
    simpa [Partitioned.rows, hdefault, hempty] using hrows₂
  have hlayout : ∀ b ∈ s.events.layout, b ∈ d₂.events.layout :=
    fun b hb => hlayout₂ b (hlayout₁ b hb)
  -- an event of the default partition is in that of its month afterwards
  have hmonth : ∀ e ∈ (s.events.default_.getD []).filter (fun e =>
    !decide (Lacking offset e.occurredAt)),
      monthPartition offset (truncMonth e.occurredAt) ∈ d₂.events.layout ∧
        (monthPartition offset (truncMonth e.occurredAt)).Covers e.occurredAt := by
    intro e he
    have hmem := hrows.mem_iff.mpr (List.mem_append_left _ he)
    simp only [Partitioned.rows, hempty, Option.getD_some, List.append_nil,
      List.mem_flatMap] at hmem
    obtain ⟨p, hp, hep⟩ := hmem
    have hcovers := hd₁.valid.covered p hp e hep
    rcases honly p.bounds (bounds_mem_layout hp) with hold | ⟨e', -, heq⟩
    · exact absurd hcovers (hs.valid.uncovered e (List.mem_filter.mp he).1 _ hold)
    · have hsame : monthPartition offset (truncMonth e.occurredAt) = p.bounds := by
        rw [heq] at hcovers ⊢
        exact congrArg (monthPartition offset)
          (congrArg monthTime (monthAt_of_covers hoffset hcovers))
      exact ⟨hsame ▸ hlayout₂ _ (bounds_mem_layout hp), hsame ▸ hcovers⟩
  have hdefaults : ((s.events.default_.getD []).filter fun e =>
    !decide (Lacking offset e.occurredAt)).filter (fun e =>
        d₂.events.layout.any fun b => !isDropped now retentionDays.toNat s.holds b &&
          decide (b.Covers e.occurredAt)) =
      (s.events.default_.getD []).filter fun e => !decide (Lacking offset e.occurredAt) &&
        !isDropped now retentionDays.toNat s.holds
          (monthPartition offset (truncMonth e.occurredAt)) := by
    rw [List.filter_congr fun e he =>
      hd₂.valid.any_covers (fun b => !isDropped now retentionDays.toNat s.holds b)
      (hmonth e he).1 (hmonth e he).2, List.filter_filter]
    exact List.filter_congr fun e _ => Bool.and_comm _ _
  have hparts : (s.events.partitions.flatMap Partition.rows).filter (fun e =>
    d₂.events.layout.any fun b =>
        !isDropped now retentionDays.toNat s.holds b && decide (b.Covers e.occurredAt)) =
      (s.events.partitions.filter fun p =>
        !isDropped now retentionDays.toNat s.holds p.bounds).flatMap Partition.rows := by
    refine (List.filter_congr fun e he => ?_).trans (hs.valid.filter_partitions fun b =>
      !isDropped now retentionDays.toNat s.holds b).symm
    obtain ⟨p, hp, hep⟩ := List.mem_flatMap.mp he
    have hcovers := hs.valid.covered p hp e hep
    rw [hd₂.valid.any_covers _ (hlayout _ (bounds_mem_layout hp)) hcovers,
      hs.valid.any_covers _ (bounds_mem_layout hp) hcovers]
  have hleft : d₃.events.rows = d₁.events.rows.filter fun e => d₂.events.layout.any fun b =>
      !isDropped now retentionDays.toNat s.holds b && decide (b.Covers e.occurredAt) := by
    rw [← hsame, ← hd₂.valid.filter_partitions fun b =>
      !isDropped now retentionDays.toNat s.holds b, hevents, Partitioned.rows]
    simp [hdefault, hempty]
  show d₃.events.rows.Perm _
  rw [hleft, ← hparts, ← hdefaults]
  exact ((hrows.filter _).trans (.of_eq (List.filter_append _ _))).trans List.perm_append_comm

/-- An event of no particular content. -/
def auditEventAt (t : Timestamp) : AdminAuditEvent :=
  ⟨t, 0, "request", "shared_admin_token", none, "primary", none, "tenant.created", "tenant", "",
   "success", "POST", "/v1/admin/tenants",
    201, none, .obj []⟩

/-- An event of 31 May 2026 in a session five hours west of UTC: April has no such day. -/
theorem maintain_events_west : ∃ r s', maintain (-18000) (monthTime 24318) 365 1
      ⟨⟨[], some [auditEventAt (monthTime 24317 - dayTime)]⟩, [], []⟩ = some (r, s') ∧
    s'.events.rows.Perm ([] ++ [auditEventAt (monthTime 24317 - dayTime)].filter fun e =>
      !decide (Lacking (-18000) e.occurredAt) &&
      !isDropped (monthTime 24318) 365 [] (monthPartition (-18000) (truncMonth e.occurredAt))) := by
  obtain ⟨⟨r, s'⟩, h⟩ :=
    Option.isSome_iff_exists.mp (show (maintain (-18000) (monthTime 24318) 365 1
    ⟨⟨[], some [auditEventAt (monthTime 24317 - dayTime)]⟩, [], []⟩).isSome =
      true by decide +kernel)
  refine ⟨r, s', h, maintain_events (by decide) ?_ rfl h⟩
  exact consistent_default _

end maintain

end Tenancit.Auditops
