import Mathlib.Order.Lattice
import Mathlib.Data.List.Pairwise
import Mathlib.Data.List.Perm.Basic
import Tenancit.Lib.Table

/-!
Tables partitioned by ranges of a key: a row goes to the partition whose range has its key,
else to the default partition. The rows of the table are moved by none of the operations, but
for what is dropped with its partition.
-/
namespace RangePartitions

open Table

variable {κ ν ρ : Type*}

/-- A partition for the keys from `lower` on and before `upper`. -/
structure Partition (κ ν ρ : Type*) where
  name : ν
  lower : κ
  upper : κ
  rows : List ρ

/-- The partitions, and the rows of the default one where it is attached. -/
structure Partitioned (κ ν ρ : Type*) where
  partitions : List (Partition κ ν ρ)
  default_ : Option (List ρ)

/-- A partition without its rows. -/
structure Bounds (κ ν : Type*) where
  name : ν
  lower : κ
  upper : κ
  deriving DecidableEq

def Partition.bounds (p : Partition κ ν ρ) : Bounds κ ν := ⟨p.name, p.lower, p.upper⟩

/-- Where each row is taken for one value at most, what is taken for some values together is each
row taken for its own. -/
theorem flatMap_filter_perm {α β : Type*} [DecidableEq β] {p : β → α → Bool} {f : α → β}
    {bs : List β} (hbs : bs.Nodup) (hp : ∀ b ∈ bs, ∀ a, p b a = true → f a = b) (xs : List α)
    (hmem : ∀ a ∈ xs, f a ∈ bs) :
    (bs.flatMap fun b => xs.filter (p b)).Perm (xs.filter fun a => p (f a) a) := by
  induction bs generalizing xs with
  | nil =>
    obtain rfl : xs = [] := List.eq_nil_iff_forall_not_mem.mpr fun a ha => by simpa using hmem a ha
    exact .nil
  | cons b bs ih =>
    obtain ⟨hb, hbs⟩ := List.nodup_cons.mp hbs
    obtain ⟨hpb, hp⟩ := List.forall_mem_cons.mp hp
    -- those of the first value, and the others
    have hrest : (bs.flatMap fun c => xs.filter (p c)) = bs.flatMap fun c =>
        (xs.filter fun a => f a ≠ b).filter (p c) := by
      refine List.flatMap_congr fun c hc => ?_
      rw [List.filter_filter]
      refine List.filter_congr fun a _ => ?_
      by_cases hpa : p c a = true
      · have hne : f a ≠ b := fun heq => hb (heq ▸ hp c hc a hpa ▸ hc)
        simp [hpa, hne]
      · simp [hpa]
    have hfirst : xs.filter (p b) = (xs.filter fun a => p (f a) a).filter fun a => f a = b := by
      rw [List.filter_filter]
      refine List.filter_congr fun a _ => ?_
      by_cases hfa : f a = b
      · simp [hfa]
      · simpa [hfa] using fun hpa => hfa (hpb a hpa)
    have hothers : ((xs.filter fun a => f a ≠ b).filter fun a => p (f a) a) =
        (xs.filter fun a => p (f a) a).filter fun a => !decide (f a = b) := by
      rw [List.filter_filter, List.filter_filter]
      exact List.filter_congr fun a _ => by simp [Bool.and_comm]
    rw [List.flatMap_cons, hrest, hfirst]
    refine ((ih hbs hp _ fun a ha => ?_).append_left _).trans ?_
    · obtain ⟨ha, hne⟩ := List.mem_filter.mp ha
      exact (List.mem_cons.mp (hmem a ha)).resolve_left (of_decide_eq_true hne)
    · rw [hothers]
      exact List.filter_append_perm _ _

namespace Partitioned

/-- All the rows, as a query of the table reads them. -/
def rows (t : Partitioned κ ν ρ) : List ρ :=
  t.partitions.flatMap Partition.rows ++ t.default_.getD []

/-- The partitions that there are. -/
def layout (t : Partitioned κ ν ρ) : List (Bounds κ ν) := t.partitions.map Partition.bounds

end Partitioned

variable [LinearOrder κ] [DecidableEq ν]

namespace Bounds

def Covers (b : Bounds κ ν) (k : κ) : Prop := b.lower ≤ k ∧ k < b.upper

instance (b : Bounds κ ν) (k : κ) : Decidable (b.Covers k) := inferInstanceAs (Decidable (_ ∧ _))

/-- One range ends before the other begins. -/
def Apart (b c : Bounds κ ν) : Prop := b.upper ≤ c.lower ∨ c.upper ≤ b.lower

instance (b c : Bounds κ ν) : Decidable (b.Apart c) := inferInstanceAs (Decidable (_ ∨ _))

omit [DecidableEq ν] in
theorem Apart.symm {b c : Bounds κ ν} (h : b.Apart c) : c.Apart b := Or.symm h

omit [DecidableEq ν] in
instance instSymmApart : Std.Symm (@Apart κ ν _) := ⟨fun _ _ h => h.symm⟩

omit [DecidableEq ν] in
/-- No key is in two ranges that are apart. -/
theorem Apart.not_covers {b c : Bounds κ ν} (h : b.Apart c) {k : κ} (hk : b.Covers k) :
    ¬c.Covers k := by
  rintro ⟨hlower, hupper⟩
  rcases h with h | h
  · exact absurd (hk.2.trans_le h) (not_lt.mpr hlower)
  · exact absurd (hupper.trans_le h) (not_lt.mpr hk.1)

end Bounds

namespace Partitioned

variable (key : ρ → κ)

/-- `INSERT`: an error where no partition takes the row. -/
def insert (r : ρ) (t : Partitioned κ ν ρ) : Option (Partitioned κ ν ρ) :=
  if t.partitions.any fun p => p.bounds.Covers (key r) then
    some { t with
      partitions := update (fun p => p.bounds.Covers (key r)) (fun p => { p with
        rows := p.rows ++ [r] }) t.partitions }
  else t.default_.map fun rows => { t with default_ := some (rows ++ [r]) }

/-- `INSERT … SELECT` -/
def insertAll (rs : List ρ) (t : Partitioned κ ν ρ) : Option (Partitioned κ ν ρ) :=
  rs.foldlM (fun t r => t.insert key r) t

/-- `CREATE TABLE IF NOT EXISTS … PARTITION OF`: nothing where the name is taken; an error where the
range is empty, where it overlaps that of a partition, and where the default partition has a row for
it. -/
def create (b : Bounds κ ν) (t : Partitioned κ ν ρ) : Option (Partitioned κ ν ρ) :=
  if ∃ p ∈ t.partitions, p.name = b.name then some t
  else if b.lower < b.upper ∧ (∀ p ∈ t.partitions, p.bounds.Apart b) ∧ ∀ r ∈ t.default_.getD [],
    ¬b.Covers (key r) then
    some { t with partitions := t.partitions ++ [⟨b.name, b.lower, b.upper, []⟩] }
  else none

/-- `DROP TABLE`, of a partition. -/
def drop (name : ν) (t : Partitioned κ ν ρ) : Option (Partitioned κ ν ρ) :=
  if ∃ p ∈ t.partitions, p.name = name then some { t with
    partitions := delete (fun p => p.name = name) t.partitions } else none

/-- What the database sees to: names are unique, ranges are not empty and apart, and each row is
where its key belongs. -/
structure Valid (t : Partitioned κ ν ρ) : Prop where
  names : Keyed Bounds.name t.layout
  nonempty : ∀ b ∈ t.layout, b.lower < b.upper
  apart : t.layout.Pairwise Bounds.Apart
  covered : ∀ p ∈ t.partitions, ∀ r ∈ p.rows, p.bounds.Covers (key r)
  uncovered : ∀ r ∈ t.default_.getD [], ∀ b ∈ t.layout, ¬b.Covers (key r)

variable {key} {t t' : Partitioned κ ν ρ} {r : ρ} {rs : List ρ} {b : Bounds κ ν} {name : ν}

omit [LinearOrder κ] [DecidableEq ν] in
theorem mem_layout : b ∈ t.layout ↔ ∃ p ∈ t.partitions, p.bounds = b := List.mem_map

omit [LinearOrder κ] [DecidableEq ν] in
theorem bounds_mem_layout {p : Partition κ ν ρ} (hp : p ∈ t.partitions) : p.bounds ∈ t.layout :=
  List.mem_map_of_mem hp

section insert

omit [DecidableEq ν]

/-- Of partitions that are apart, one at most takes the row. -/
theorem flatMap_update_perm {ps : List (Partition κ ν ρ)} (r : ρ)
    (hapart : (ps.map Partition.bounds).Pairwise Bounds.Apart)
    (hany : ∃ p ∈ ps, p.bounds.Covers (key r)) :
    ((update (fun p => decide (p.bounds.Covers (key r))) (fun p => { p with
      rows := p.rows ++ [r] }) ps).flatMap Partition.rows).Perm
      (r :: ps.flatMap Partition.rows) := by
  induction ps with
  | nil => simp at hany
  | cons p ps ih =>
    obtain ⟨hp, hps⟩ := List.pairwise_cons.mp hapart
    by_cases hcovers : p.bounds.Covers (key r)
    · have hrest : update (fun p => decide (p.bounds.Covers (key r))) (fun p => { p with
        rows := p.rows ++ [r] }) ps = ps := by
        refine (List.map_congr_left fun q hq => ?_).trans (List.map_id ps)
        simp [(hp q.bounds (List.mem_map_of_mem hq)).not_covers hcovers]
      simp only [update, List.map_cons, hcovers, decide_true, if_true, List.flatMap_cons] at hrest ⊢
      rw [hrest, List.append_assoc]
      exact List.perm_middle
    · have hany' : ∃ q ∈ ps, q.bounds.Covers (key r) := by
        obtain ⟨q, hq, hcq⟩ := hany
        rcases List.mem_cons.mp hq with rfl | hq
        · exact absurd hcq hcovers
        · exact ⟨q, hq, hcq⟩
      simp only [update, List.map_cons, hcovers, decide_false, Bool.false_eq_true,
        if_false, List.flatMap_cons]
      exact ((ih hps hany').append_left p.rows).trans List.perm_middle

/-- A row goes to the partition that covers its key, or to the default one where none does. -/
theorem insert_cases (h : t.insert key r = some t') :
    ((∃ p ∈ t.partitions, p.bounds.Covers (key r)) ∧ t'.default_ = t.default_ ∧
      t'.partitions = update (fun p => decide (p.bounds.Covers (key r))) (fun p => { p with
        rows := p.rows ++ [r] }) t.partitions) ∨
    ((∀ p ∈ t.partitions, ¬p.bounds.Covers (key r)) ∧ t'.partitions = t.partitions ∧
      ∃ rows, t.default_ = some rows ∧ t'.default_ = some (rows ++ [r])) := by
  unfold insert at h
  split at h
  next hany =>
    obtain rfl := Option.some.inj h
    exact .inl ⟨by simpa using hany, rfl, rfl⟩
  next hnone =>
    obtain ⟨rows, hrows, rfl⟩ := Option.map_eq_some_iff.mp h
    exact .inr ⟨by simpa using hnone, rfl, rows, hrows, rfl⟩

theorem insert_layout (h : t.insert key r = some t') : t'.layout = t.layout := by
  rcases insert_cases h with ⟨-, -, hps⟩ | ⟨-, hps, -⟩
  · simp only [layout, hps, update, List.map_map]
    refine List.map_congr_left fun p _ => ?_
    simp only [Function.comp_apply]
    split <;> rfl
  · rw [layout, hps, layout]

theorem insert_rows (ht : t.Valid key) (h : t.insert key r = some t') :
    t'.rows.Perm (r :: t.rows) := by
  rcases insert_cases h with ⟨hany, hdefault, hps⟩ | ⟨-, hps, rows, hrows, hrows'⟩
  · rw [Partitioned.rows, hps, hdefault]
    exact (flatMap_update_perm r ht.apart hany).append_right (t.default_.getD [])
  · simp only [Partitioned.rows, hps, hrows, hrows', Option.getD_some, ← List.append_assoc]
    exact List.perm_append_singleton r _

theorem Valid.insert (ht : t.Valid key) (h : t.insert key r = some t') : t'.Valid key := by
  have hlayout := insert_layout h
  refine ⟨hlayout ▸ ht.names, hlayout ▸ ht.nonempty, hlayout ▸ ht.apart, fun p hp s hs =>
    ?_, fun s hs b hb => ?_⟩
  · rcases insert_cases h with ⟨-, -, hps⟩ | ⟨-, hps, -⟩
    · rw [hps] at hp
      obtain ⟨q, hq, rfl⟩ := mem_update.mp hp
      by_cases hcovers : q.bounds.Covers (key r)
      · simp only [hcovers, decide_true, if_true] at hs ⊢
        rcases List.mem_append.mp hs with hs | hs
        · exact ht.covered q hq s hs
        · exact List.mem_singleton.mp hs ▸ hcovers
      · simp only [hcovers, decide_false, Bool.false_eq_true, if_false] at hs ⊢
        exact ht.covered q hq s hs
    · exact ht.covered p (hps ▸ hp) s hs
  · rw [hlayout] at hb
    rcases insert_cases h with ⟨-, hdefault, -⟩ | ⟨hnone, -, rows, hrows, hrows'⟩
    · exact ht.uncovered s (hdefault ▸ hs) b hb
    · rw [hrows', Option.getD_some, List.mem_append] at hs
      rcases hs with hs | hs
      · exact ht.uncovered s (by rwa [hrows]) b hb
      · obtain rfl := List.mem_singleton.mp hs
        obtain ⟨p, hp, rfl⟩ := mem_layout.mp hb
        exact hnone p hp

theorem insert_of_covers {p : Partition κ ν ρ} (hp : p ∈ t.partitions)
    (hcovers : p.bounds.Covers (key r)) :
    ∃ t', t.insert key r = some t' ∧ t'.default_ = t.default_ :=
  ⟨_, if_pos (List.any_eq_true.mpr ⟨p, hp, decide_eq_true hcovers⟩), rfl⟩

/-- `insertAll`, row by row. -/
theorem insertAll_spec (ht : t.Valid key) (h : t.insertAll key rs = some t') :
    t'.Valid key ∧ t'.layout = t.layout ∧ t'.rows.Perm (rs ++ t.rows) ∧
    (t.default_ = none → t'.default_ = none) := by
  induction rs generalizing t with
  | nil =>
    obtain rfl := Option.some.inj h
    exact ⟨ht, rfl, .refl _, id⟩
  | cons r rs ih =>
    obtain ⟨u, hu, h⟩ := Option.bind_eq_some_iff.mp h
    obtain ⟨hvalid, hlayout, hrows, hdefault⟩ := ih (ht.insert hu) h
    refine ⟨hvalid, hlayout.trans (insert_layout hu), ?_, fun hnone => hdefault ?_⟩
    · exact hrows.trans (((insert_rows ht hu).append_left rs).trans List.perm_middle)
    · rcases insert_cases hu with ⟨-, hdefault, -⟩ | ⟨-, -, rows, hrows, -⟩
      · rwa [hdefault]
      · rw [hrows] at hnone
        cases hnone

end insert

/-- A name that is taken changes nothing; a new partition is apart from the others, and has no row
to take over. -/
theorem create_cases (h : t.create key b = some t') : (t' = t ∧ ∃ c ∈ t.layout, c.name = b.name) ∨
    ((∀ c ∈ t.layout, c.name ≠ b.name) ∧ b.lower < b.upper ∧ (∀ c ∈ t.layout, c.Apart b) ∧
      (∀ r ∈ t.default_.getD [], ¬b.Covers (key r)) ∧
      t' = { t with partitions := t.partitions ++ [⟨b.name, b.lower, b.upper, []⟩] }) := by
  unfold create at h
  split at h
  next hname =>
    obtain ⟨p, hp, hname⟩ := hname
    exact .inl ⟨(Option.some.inj h).symm, p.bounds, bounds_mem_layout hp, hname⟩
  next hname =>
    obtain ⟨⟨hbounds, hapart, hdefault⟩, h⟩ := Option.ite_none_right_eq_some.mp h
    refine .inr ⟨fun c hc => ?_, hbounds, fun c hc => ?_, hdefault, (Option.some.inj h).symm⟩
    · obtain ⟨p, hp, rfl⟩ := mem_layout.mp hc
      exact fun heq => hname ⟨p, hp, heq⟩
    · obtain ⟨p, hp, rfl⟩ := mem_layout.mp hc
      exact hapart p hp

theorem create_layout (h : t.create key b = some t') :
    t'.layout = t.layout ∨ t'.layout = t.layout ++ [b] := by
  rcases create_cases h with ⟨rfl, -⟩ | ⟨-, -, -, -, rfl⟩
  · exact .inl rfl
  · exact .inr (by simp [layout, Partition.bounds])

/-- Afterwards there is a partition of the name. -/
theorem create_exists (h : t.create key b = some t') : ∃ c ∈ t'.layout, c.name = b.name := by
  rcases create_cases h with ⟨rfl, hname⟩ | ⟨-, -, -, -, rfl⟩
  · exact hname
  · exact ⟨b, by simp [layout, Partition.bounds], rfl⟩

theorem create_rows (h : t.create key b = some t') : t'.rows = t.rows := by
  rcases create_cases h with ⟨rfl, -⟩ | ⟨-, -, -, -, rfl⟩
  · rfl
  · simp [Partitioned.rows]

theorem create_default (h : t.create key b = some t') : t'.default_ = t.default_ := by
  rcases create_cases h with ⟨rfl, -⟩ | ⟨-, -, -, -, rfl⟩ <;> rfl

theorem Valid.create (ht : t.Valid key) (h : t.create key b = some t') : t'.Valid key := by
  rcases create_cases h with ⟨rfl, -⟩ | ⟨hname, hbounds, hapart, hdefault, rfl⟩
  · exact ht
  · have hlayout : layout { t with
      partitions := t.partitions ++ [⟨b.name, b.lower, b.upper, []⟩] } = t.layout ++ [b] := by
      simp [layout, Partition.bounds]
    refine ⟨hlayout ▸ ht.names.append hname, fun c hc => ?_, ?_, fun p hp r hr =>
      ?_, fun r hr c hc => ?_⟩
    · rw [hlayout, List.mem_append] at hc
      rcases hc with hc | hc
      · exact ht.nonempty c hc
      · exact List.mem_singleton.mp hc ▸ hbounds
    · rw [hlayout, List.pairwise_append]
      exact ⟨ht.apart, List.pairwise_singleton _ _, fun c hc d hd =>
        List.mem_singleton.mp hd ▸ hapart c hc⟩
    · rcases List.mem_append.mp hp with hp | hp
      · exact ht.covered p hp r hr
      · obtain rfl := List.mem_singleton.mp hp
        simp at hr
    · rw [hlayout, List.mem_append] at hc
      rcases hc with hc | hc
      · exact ht.uncovered r hr c hc
      · exact List.mem_singleton.mp hc ▸ hdefault r hr

omit [DecidableEq ν] in
/-- One range at most has a key. -/
theorem Valid.any_covers (ht : t.Valid key) (q : Bounds κ ν → Bool) {k : κ} (hb : b ∈ t.layout)
    (hcovers : b.Covers k) : (t.layout.any fun c => q c && decide (c.Covers k)) = q b := by
  rw [Bool.eq_iff_iff]
  simp only [List.any_eq_true, Bool.and_eq_true, decide_eq_true_eq]
  constructor
  · rintro ⟨c, hc, hq, hcovers'⟩
    by_cases hne : c = b
    · exact hne ▸ hq
    · exact absurd hcovers ((ht.apart.forall hc hb hne).not_covers hcovers')
  · exact fun hq => ⟨b, hb, hq, hcovers⟩

omit [DecidableEq ν] in
/-- The rows of some of the partitions, told by their keys. -/
theorem Valid.filter_partitions (ht : t.Valid key) (q : Bounds κ ν → Bool) :
    (t.partitions.filter fun p => q p.bounds).flatMap Partition.rows =
      (t.partitions.flatMap Partition.rows).filter fun r => t.layout.any fun b =>
      q b && decide (b.Covers (key r)) := by
  have htold : ∀ p ∈ t.partitions, p.rows.filter (fun r => t.layout.any fun b =>
    q b && decide (b.Covers (key r))) =
      if q p.bounds then p.rows else [] := by
    intro p hp
    rw [List.filter_congr fun r hr => ht.any_covers q (bounds_mem_layout hp) (ht.covered p hp r hr)]
    cases q p.bounds <;> simp
  rw [List.filter_flatMap, List.flatMap_congr htold]
  generalize t.partitions = ps
  induction ps with
  | nil => rfl
  | cons p ps ih => cases hq : q p.bounds <;> simp [hq, ih]

omit [LinearOrder κ]

theorem drop_eq_some (h : t.drop name = some t') : (∃ c ∈ t.layout, c.name = name) ∧
    t' = { t with partitions := delete (fun p => p.name = name) t.partitions } := by
  obtain ⟨⟨p, hp, hname⟩, h⟩ := Option.ite_none_right_eq_some.mp h
  exact ⟨⟨p.bounds, bounds_mem_layout hp, hname⟩, (Option.some.inj h).symm⟩

theorem drop_layout (h : t.drop name = some t') :
    t'.layout = delete (fun b => b.name = name) t.layout := by
  obtain ⟨-, rfl⟩ := drop_eq_some h
  simp only [layout, delete, List.filter_map]
  rfl

omit [DecidableEq ν] in
/-- What goes with some of the partitions. -/
theorem rows_of_filter (t : Partitioned κ ν ρ) (q : Bounds κ ν → Bool) :
    t.rows.Perm ((t.partitions.filter fun p => q p.bounds).flatMap Partition.rows ++
      rows { t with partitions := t.partitions.filter fun p => !q p.bounds }) := by
  rw [Partitioned.rows, Partitioned.rows, ← List.append_assoc, ← List.flatMap_append]
  exact ((List.filter_append_perm (fun p : Partition κ ν ρ =>
    q p.bounds) t.partitions).symm.flatMap_right _).append_right _

theorem Valid.drop [LinearOrder κ] {key : ρ → κ} (ht : t.Valid key) (h : t.drop name = some t') :
    t'.Valid key := by
  have hlayout := drop_layout h
  have hsub : ∀ c ∈ t'.layout, c ∈ t.layout := fun c hc => (mem_delete.mp (hlayout ▸ hc)).1
  obtain ⟨-, rfl⟩ := drop_eq_some h
  refine ⟨hlayout ▸ ht.names.delete, fun c hc => ht.nonempty c (hsub c hc),
    hlayout ▸ ht.apart.filter _,
    fun p hp => ht.covered p (mem_delete.mp hp).1, ?_⟩
  exact fun r hr c hc => ht.uncovered r hr c (hsub c hc)

end Partitioned

end RangePartitions
