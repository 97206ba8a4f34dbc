import Mathlib.Data.List.Dedup
import Mathlib.Data.List.Sort
import Tenancit.Lib.Months
import Tenancit.Lib.RangePartitions
import Tenancit.Store.Schema

/-!
`auditops/maintenance.go` and the function `maintain_admin_audit_partitions` of migration 00010,
in a session whose time zone has a fixed offset from UTC. The rows of the default partition are
moved to a partition for each of their months, partitions are made for the months to come, and
those that are past retention are dropped unless a legal hold is on them. What is added by months
follows the clock of the session: west of UTC a month begins on the last day of the one before.
-/
namespace Tenancit.Auditops

open Encoding Store RangePartitions Table

/-- The microseconds of a day. -/
def dayTime : Int := 86400000000

/-- `date_trunc('month', t AT TIME ZONE 'UTC') AT TIME ZONE 'UTC'`, and `monthStart` of the Go
code. -/
def truncMonth (t : Int) : Int := monthStart (monthOf (t / dayTime)) * dayTime

section session

-- the seconds that the clock of the session is ahead of UTC
variable (offset : Int)

/-- `t + make_interval(months => n)`: the same day of the month reached, or its last one. -/
def addMonths (t : Int) (n : Int) : Int :=
  let clock := t + Timestamp.seconds offset
  let month := monthOf (clock / dayTime) + n
  (monthStart month + min (dayOfMonth (clock / dayTime)) (monthLength month) - 1) *
    dayTime + clock % dayTime -
    Timestamp.seconds offset

/-- `to_char(t, 'YYYYMM')`, where a year before Christ is shown by its number. -/
def yearMonth (t : Timestamp) : String :=
  let date := civil ((t + Timestamp.seconds offset) / dayTime)
  padded 4 (if date.1 ≤ 0 then 1 - date.1 else date.1).toNat ++ padded 2 date.2.1

end session

abbrev AuditPartitions := Partitioned Timestamp String AdminAuditEvent

/-- A row of `audit_partition_registry`. -/
abbrev RegisteredPartition := Bounds Timestamp String

/-- A row of `audit_legal_holds`. -/
structure LegalHold where
  id : UUID
  fromTime : Timestamp
  toTime : Timestamp
  reason : String
  createdByKind : String
  createdByIssuer : Option String
  createdBySubject : String
  createdAt : Timestamp
  releasedAt : Option Timestamp
  releasedBySubject : Option String

structure AuditTables where
  events : AuditPartitions
  registry : List RegisteredPartition
  holds : List LegalHold

/-- `CHECK (partition_name ~ '^admin_audit_events_[0-9]{6}$')` -/
def isPartitionName (name : String) : Bool :=
  let digits := name.toList.drop 19
  name.toList.take 19 = "admin_audit_events_".toList && digits.length = 6 && digits.all Char.isDigit

/-- `INSERT INTO audit_partition_registry … ON CONFLICT DO NOTHING`, and whether there was a row to
insert. -/
def register (b : RegisteredPartition) (registry : List RegisteredPartition) :
    Option (List RegisteredPartition × Bool) :=
  if ¬(isPartitionName b.name = true ∧ b.lower < b.upper) then none
  else if ∃ c ∈ registry, c.name = b.name ∨ c.lower = b.lower ∨ c.upper = b.upper
    then some (registry, false)
  else some (registry ++ [b], true)

/-- What a run has made of the tables, and how many partitions it has registered. -/
structure Draft where
  events : AuditPartitions
  registry : List RegisteredPartition
  created : Nat := 0

/-- The partition for the month that begins at a time. -/
def monthPartition (offset : Int) (month_start : Timestamp) : RegisteredPartition :=
  ⟨"admin_audit_events_" ++ yearMonth offset month_start, month_start,
   addMonths offset month_start 1⟩

/-- The registration at the end of either loop. -/
def Draft.register (d : Draft) (b : RegisteredPartition) : Option Draft :=
  (Auditops.register b d.registry).map fun (registry, found) =>
    { d with registry, created := d.created + if found then 1 else 0 }

/-- The months of the rows of the default partition, in order. -/
def defaultMonths (rows : List AdminAuditEvent) : List Timestamp :=
  (rows.map fun e => truncMonth e.occurredAt).dedup.insertionSort (· ≤ ·)

/-- The rows of a month are moved to its partition. -/
def drainMonth (offset : Int) (rows : List AdminAuditEvent) (d : Draft) (month_start : Timestamp) :
    Option Draft := do
  let b := monthPartition offset month_start
  let events ← d.events.create AdminAuditEvent.occurredAt b
  let events ← events.insertAll AdminAuditEvent.occurredAt (rows.filter fun e =>
    b.Covers e.occurredAt)
  Draft.register { d with events } b

/-- Where the default partition has rows it is detached, drained month by month and made anew. -/
def drainDefault (offset : Int) (d : Draft) : Option Draft :=
  let rows := d.events.default_.getD []
  if rows = [] then some d
  else do
    let d ← (defaultMonths rows).foldlM (drainMonth offset rows) { d with
      events := { d.events with default_ := none } }
    some { d with events := { d.events with default_ := some [] } }

/-- The partition of one month to come. -/
def createMonth (offset : Int) (now : Timestamp) (d : Draft) (offset_value : Nat) :
    Option Draft := do
  let b := monthPartition offset (addMonths offset (truncMonth now) offset_value)
  let events ← d.events.create AdminAuditEvent.occurredAt b
  Draft.register { d with events } b

def createFuture (offset : Int) (now : Timestamp) (futureMonths : Nat) (d : Draft) : Option Draft :=
  (List.range (futureMonths + 1)).foldlM (createMonth offset now) d

/-- A hold that is not released overlaps the range. -/
def isHeld (holds : List LegalHold) (b : RegisteredPartition) : Bool :=
  holds.any fun h => h.releasedAt.isNone && h.fromTime < b.upper && h.toTime > b.lower

/-- The partitions that are past retention, each with whether it is held. -/
def candidates (now : Timestamp) (retentionDays : Nat) (registry : List RegisteredPartition)
    (holds : List LegalHold) : List (RegisteredPartition × Bool) :=
  ((registry.filter fun p => p.upper ≤ now - retentionDays * dayTime).insertionSort fun p q =>
    p.lower ≤ q.lower).map
    fun p => (p, isHeld holds p)

structure RetentionResult where
  partitionsCreated : Nat
  partitionsDropped : Nat
  partitionsHeld : Nat
  deriving DecidableEq

/-- The last loop, with the counts of what is dropped and what is held. -/
def dropExpired : List (RegisteredPartition × Bool) → Draft → Option (RetentionResult × Draft)
  | [], d => some (⟨d.created, 0, 0⟩, d)
  | (_, true) :: rest, d =>
    (dropExpired rest d).map fun (r, d) => ({ r with partitionsHeld := r.partitionsHeld + 1 }, d)
  | (p, false) :: rest, d => do
    let events ← d.events.drop p.name
    let (r, d) ← dropExpired rest { d with
      events, registry := delete (fun q => q.name = p.name) d.registry }
    some ({ r with partitionsDropped := r.partitionsDropped + 1 }, d)

/-- `retentionDays < 1 || futureMonths < 1 || futureMonths > 24`, which the Go code and the function
both refuse. -/
def invalidMaintenance (retentionDays futureMonths : Int) : Bool :=
  retentionDays < 1 || futureMonths < 1 || futureMonths > 24

/-- `maintain_admin_audit_partitions`, where nobody else is at work; an error leaves everything as
it is. -/
def maintain (offset : Int) (now : Timestamp) (retentionDays futureMonths : Int) (s : AuditTables) :
    Option (RetentionResult × AuditTables) :=
  if invalidMaintenance retentionDays futureMonths then none
  else do
    let d ← drainDefault offset ⟨s.events, s.registry, 0⟩
    let d ← createFuture offset now futureMonths.toNat d
    let (r, d) ← dropExpired (candidates now retentionDays.toNat d.registry s.holds) d
    some (r, { s with events := d.events, registry := d.registry })

structure PartitionHealth where
  currentMonthCovered : Bool
  futureThrough : Timestamp
  defaultRows : Nat
  oldestRetained : Timestamp
  activeLegalHolds : Nat
  deriving DecidableEq

/-- `Health` -/
def health (now : Timestamp) (s : AuditTables) : PartitionHealth where
  currentMonthCovered := s.registry.any fun p => p.lower = truncMonth now
  futureThrough := (s.registry.map Bounds.upper).max?.getD (truncMonth now)
  defaultRows := (s.events.default_.getD []).length
  oldestRetained := (s.registry.map Bounds.lower).min?.getD (truncMonth now)
  activeLegalHolds := s.holds.countP fun h => h.releasedAt.isNone

section months

variable {offset : Int} {month : Int}

/-- The start of a month, counted from January of the year 0, in UTC. -/
def monthTime (month : Int) : Int := monthStart month * dayTime

/-- The month of a time in UTC. -/
def monthAt (t : Int) : Int := monthOf (t / dayTime)

theorem truncMonth_eq (t : Int) : truncMonth t = monthTime (monthAt t) := rfl

theorem monthTime_mono {a b : Int} (h : a ≤ b) : monthTime a ≤ monthTime b :=
  mul_le_mul_of_nonneg_right (monthStart_mono h) (by decide)

theorem monthTime_lt {a b : Int} (h : a < b) : monthTime a < monthTime b := by
  have hlength := (monthLength_bounds a).1
  have hnext := monthStart_add_le h
  unfold monthTime dayTime
  omega

theorem monthAt_eq_iff {t : Int} :
    monthAt t = month ↔ monthTime month ≤ t ∧ t < monthTime (month + 1) := by
  rw [monthAt, monthOf_eq_iff]
  unfold monthTime dayTime
  omega

theorem monthAt_monthTime (month : Int) : monthAt (monthTime month) = month :=
  monthAt_eq_iff.mpr ⟨le_rfl, monthTime_lt (lt_add_one month)⟩

/-- At or east of UTC a month begins on its first day by the clock of the session. -/
theorem clock_monthTime (month : Int) (h0 : 0 ≤ offset) (hlt : offset < 86400) :
    (monthTime month + Timestamp.seconds offset) / dayTime = monthStart month ∧
      (monthTime month + Timestamp.seconds offset) % dayTime = Timestamp.seconds offset := by
  unfold monthTime Timestamp.seconds dayTime
  omega

theorem addMonths_monthTime (h0 : 0 ≤ offset) (hlt : offset < 86400) (n : Int) :
    addMonths offset (monthTime month) n = monthTime (month + n) := by
  obtain ⟨hday, htime⟩ := clock_monthTime month h0 hlt
  have hlength := (monthLength_bounds month).1
  obtain ⟨hmonth, hfirst⟩ := monthOf_add month (show 0 < monthLength month by omega)
  rw [Nat.cast_zero, add_zero] at hmonth hfirst
  have hlength' := (monthLength_bounds (month + n)).1
  simp only [addMonths, hday, htime, hmonth, hfirst]
  rw [min_eq_left (by omega), monthTime, Nat.cast_one, add_sub_cancel_right, add_sub_cancel_right]

/-- West of UTC it begins on the last day of the month before: a month later is as many days into
the month reached as that one has, or on its end. -/
theorem addMonths_monthTime_west (h0 : offset < 0) (hlt : -86400 < offset) :
    addMonths offset (monthTime month) 1 =
    (monthStart month + min (monthLength (month - 1)) (monthLength month)) * dayTime := by
  have hlength := (monthLength_bounds (month - 1)).1
  have hsucc := monthStart_succ (month - 1)
  rw [sub_add_cancel] at hsucc
  obtain ⟨hmonth, hlast⟩ :=
    monthOf_add (month - 1) (show monthLength (month - 1) - 1 < monthLength (month - 1) by omega)
  have hday : (monthTime month + Timestamp.seconds offset) / dayTime = monthStart (month - 1) +
      (monthLength (month - 1) - 1 : Nat) := by
    unfold monthTime Timestamp.seconds dayTime
    omega
  have htime : (monthTime month + Timestamp.seconds offset) % dayTime = dayTime +
      Timestamp.seconds offset := by
    unfold monthTime Timestamp.seconds dayTime
    omega
  simp only [addMonths, hday, htime, hmonth, hlast]
  rw [sub_add_cancel, Nat.sub_add_cancel (by omega)]
  unfold dayTime
  push_cast
  omega

/-- The partition of a month ends with the month, or, in a session west of UTC, as many days into it
as the month before has, where these are fewer. -/
theorem monthPartition_upper (month : Int) (hoffset : offset.natAbs < 86400) :
    (monthPartition offset (monthTime month)).upper = if 0 ≤ offset then monthTime (month + 1)
    else (monthStart month + min (monthLength (month - 1)) (monthLength month)) * dayTime := by
  split
  next h0 => exact addMonths_monthTime h0 (by omega) 1
  next h0 => exact addMonths_monthTime_west (by omega) (by omega)

/-- At and east of UTC a partition is its month. -/
theorem monthPartition_upper_east (month : Int) (h0 : 0 ≤ offset) (hlt : offset < 86400) :
    (monthPartition offset (monthTime month)).upper = monthTime (month + 1) := by
  rw [monthPartition_upper month (by omega), if_pos h0]

theorem monthPartition_upper_le (hoffset : offset.natAbs < 86400) :
    (monthPartition offset (monthTime month)).upper ≤ monthTime (month + 1) := by
  rw [monthPartition_upper month hoffset]
  split
  · exact le_rfl
  · rw [monthTime, monthStart_succ]
    have hmin : min (monthLength (month - 1)) (monthLength month) ≤ monthLength month :=
      min_le_right _ _
    exact mul_le_mul_of_nonneg_right (add_le_add_right (Int.ofNat_le.mpr hmin) _) (by decide)

/-- A time that a month's partition covers is of that month. -/
theorem monthAt_of_covers (hoffset : offset.natAbs < 86400) {t : Int}
    (h : (monthPartition offset (monthTime month)).Covers t) : monthAt t = month :=
  monthAt_eq_iff.mpr ⟨h.1, h.2.trans_le (monthPartition_upper_le hoffset)⟩

/-- The days of a month that its partition lacks in a session west of UTC: those beyond the length
of the month before. -/
def Lacking (offset : Int) (t : Int) : Prop :=
  offset < 0 ∧ monthLength (monthAt t - 1) < dayOfMonth (t / dayTime)

instance (offset : Int) (t : Int) : Decidable (Lacking offset t) :=
  inferInstanceAs (Decidable (_ ∧ _))

/-- A time is covered by the partition of its month but for the days that it lacks. -/
theorem covers_iff (hoffset : offset.natAbs < 86400) (t : Int) :
    (monthPartition offset (truncMonth t)).Covers t ↔ ¬Lacking offset t := by
  obtain ⟨hlo, hhi⟩ := monthAt_eq_iff.mp (rfl : monthAt t = monthAt t)
  have hday : monthStart (monthAt t) + dayOfMonth (t / dayTime) - 1 = t / dayTime :=
    monthStart_monthOf (t / dayTime)
  have hlast : dayOfMonth (t / dayTime) ≤ monthLength (monthAt t) :=
    (dayOfMonth_valid (t / dayTime)).2
  have hupper := monthPartition_upper (monthAt t) hoffset
  have hcovers : (monthPartition offset (truncMonth t)).Covers t ↔
      t < (monthPartition offset (monthTime (monthAt t))).upper :=
    ⟨fun h => h.2, fun h => ⟨hlo, h⟩⟩
  rw [hcovers, hupper, Lacking]
  split
  · simp only [hhi, true_iff]
    omega
  · unfold dayTime at *
    omega

theorem civil_monthStart (month : Int) :
    (civil (monthStart month)).1 = month / 12 ∧
    ((civil (monthStart month)).2.1 : Int) = month % 12 + 1 := by
  have hmonth := monthOf_monthStart month
  obtain ⟨hfirst, hlast, -⟩ := civil_valid (monthStart month)
  unfold monthOf at hmonth
  omega

theorem yearMonth_monthTime (h0 : 0 ≤ offset) (hlt : offset < 86400) (hmonth : 12 ≤ month) :
    yearMonth offset (monthTime month) = padded 4 (month / 12).toNat ++
    padded 2 (month % 12 + 1).toNat := by
  obtain ⟨hyear, hnumber⟩ := civil_monthStart month
  have hnumber : (civil (monthStart month)).2.1 = (month % 12 + 1).toNat := by omega
  rw [yearMonth, (clock_monthTime month h0 hlt).1, hyear, hnumber, if_neg (by omega)]

/-- The months since Christ have names of their own. -/
theorem month_eq_of_name {a b : Int} (h0 : 0 ≤ offset) (hlt : offset < 86400) (ha : 12 ≤ a)
    (hb : 12 ≤ b)
    (h : (monthPartition offset (monthTime a)).name = (monthPartition offset (monthTime b)).name) :
    a = b := by
  have hname : yearMonth offset (monthTime a) = yearMonth offset (monthTime b) :=
    String.append_right_inj _ |>.mp h
  rw [yearMonth_monthTime h0 hlt ha, yearMonth_monthTime h0 hlt hb] at hname
  have hchars := congrArg String.toList hname
  rw [String.toList_append, String.toList_append] at hchars
  -- the month takes two digits, the year the rest
  have htwo : ∀ m : Int, (padded 2 (m % 12 + 1).toNat).toList.length = 2 :=
    fun m => (padded_length_iff (by decide)).mpr (by omega)
  obtain ⟨hyears, hmonths⟩ := List.append_inj' hchars ((htwo a).trans (htwo b).symm)
  have hyears := padded_inj hyears
  have hmonths := padded_inj hmonths
  omega

end months

end Tenancit.Auditops
