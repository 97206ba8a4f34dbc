import Mathlib.Data.List.Nodup
import Mathlib.Data.List.Forall2
import Mathlib.Tactic.Common

/-!
Tables as lists of rows in insertion order, with a key column. A table is read by
key, extended at the end, updated in place and filtered; under `Keyed` reading by key
is the membership of the row.
-/
namespace Table

variable {ρ κ : Type*}

/-- Different rows have different keys. -/
def Keyed (key : ρ → κ) (rows : List ρ) : Prop := (rows.map key).Nodup

/-- The first row with the given key. -/
def lookup [DecidableEq κ] (key : ρ → κ) (k : κ) (rows : List ρ) : Option ρ :=
  rows.find? fun r => key r = k

/-- Change in place the rows that satisfy `p`. -/
def update (p : ρ → Bool) (f : ρ → ρ) (rows : List ρ) : List ρ :=
  rows.map fun r => if p r then f r else r

/-- Remove the rows that satisfy `p`. -/
def delete (p : ρ → Bool) (rows : List ρ) : List ρ := rows.filter fun r => !p r

section lookup

variable [DecidableEq κ] {key : ρ → κ} {k : κ} {rows : List ρ} {r : ρ}

theorem mem_of_lookup (h : lookup key k rows = some r) : r ∈ rows := List.mem_of_find?_eq_some h

theorem key_of_lookup (h : lookup key k rows = some r) : key r = k := by
  simpa using List.find?_some h

@[simp] theorem lookup_eq_none : lookup key k rows = none ↔ ∀ r ∈ rows, key r ≠ k := by
  simp [lookup]

@[simp] theorem lookup_nil : lookup key k ([] : List ρ) = none := rfl

theorem lookup_cons :
    lookup key k (r :: rows) = if key r = k then some r else lookup key k rows := by
  unfold lookup
  rw [List.find?_cons]
  by_cases h : key r = k <;> simp [h]

theorem lookup_append {more : List ρ} :
    lookup key k (rows ++ more) = (lookup key k rows).or (lookup key k more) :=
  List.find?_append

theorem lookup_eq_some (h : Keyed key rows) :
    lookup key k rows = some r ↔ r ∈ rows ∧ key r = k := by
  constructor
  · intro hl
    exact ⟨mem_of_lookup hl, key_of_lookup hl⟩
  rintro ⟨hr, rfl⟩
  induction rows with
  | nil => simp at hr
  | cons x xs ih =>
    obtain ⟨hx, hxs⟩ := List.nodup_cons.mp h
    rw [lookup_cons]
    rcases List.mem_cons.mp hr with rfl | hr
    · simp
    · have hne : key x ≠ key r := fun he => hx (he ▸ List.mem_map_of_mem hr)
      rw [if_neg hne]
      exact ih hxs hr

theorem lookup_self (h : Keyed key rows) (hr : r ∈ rows) : lookup key (key r) rows = some r :=
  (lookup_eq_some h).mpr ⟨hr, rfl⟩

theorem Keyed.eq_of_key (h : Keyed key rows) {s : ρ} (hr : r ∈ rows) (hs : s ∈ rows)
    (hk : key r = key s) : r = s := by
  have hrs := lookup_self h hr
  rw [hk, lookup_self h hs] at hrs
  exact (Option.some.inj hrs).symm

/-- Reading by key after an update that keeps the keys. -/
theorem lookup_update {p : ρ → Bool} {f : ρ → ρ} (hf : ∀ r, key (f r) = key r) :
    lookup key k (update p f rows) = (lookup key k rows).map fun r => if p r then f r else r := by
  induction rows with
  | nil => rfl
  | cons x xs ih =>
    have hx : key (if p x then f x else x) = key x := by split <;> simp [hf]
    simp only [update, List.map_cons, lookup_cons, hx]
    split
    · rfl
    · exact ih

theorem lookup_delete (h : Keyed key rows) {p : ρ → Bool} :
    lookup key k (delete p rows) = (lookup key k rows).filter fun r => !p r := by
  cases hl : lookup key k rows with
  | none =>
    rw [lookup_eq_none] at hl
    simpa [delete] using fun r hr _ => hl r hr
  | some r =>
    obtain ⟨hr, hk⟩ := (lookup_eq_some h).mp hl
    by_cases hp : p r
    · simp only [Option.filter_some, hp, Bool.not_true, Bool.false_eq_true,
        if_false, lookup_eq_none]
      intro s hs he
      obtain ⟨hs, hps⟩ := List.mem_filter.mp hs
      rw [h.eq_of_key hs hr (he.trans hk.symm)] at hps
      simp [hp] at hps
    · simp only [Option.filter_some, hp, Bool.not_false, if_true]
      have hd : Keyed key (delete p rows) := h.sublist ((List.filter_sublist).map key)
      exact (lookup_eq_some hd).mpr ⟨List.mem_filter.mpr ⟨hr, by simp [hp]⟩, hk⟩

end lookup

section keyed

variable {key : ρ → κ} {rows : List ρ} {r : ρ} {p : ρ → Bool} {f : ρ → ρ}

@[simp] theorem keyed_nil : Keyed key ([] : List ρ) := List.nodup_nil

theorem Keyed.append (h : Keyed key rows) (hr : ∀ s ∈ rows, key s ≠ key r) :
    Keyed key (rows ++ [r]) := by
  unfold Keyed at h ⊢
  rw [List.map_append, List.nodup_append]
  refine ⟨h, by simp, ?_⟩
  simpa using hr

theorem map_key_update (hf : ∀ r, key (f r) = key r) :
    (update p f rows).map key = rows.map key := by
  simp only [update, List.map_map]
  refine List.map_congr_left fun r _ => ?_
  simp only [Function.comp_apply]
  split <;> simp [hf]

theorem Keyed.update (h : Keyed key rows) (hf : ∀ r, key (f r) = key r) :
    Keyed key (update p f rows) := by
  unfold Keyed
  rwa [map_key_update hf]

theorem Keyed.delete (h : Keyed key rows) : Keyed key (delete p rows) :=
  h.sublist ((List.filter_sublist).map key)

/-- Give a new key to the rows selected, where they are one row at most and no other row has
the key. -/
theorem Keyed.rekey {ident : ρ → ι} {k : κ} {i : ι} (h : Keyed key rows) (hident : Keyed ident rows)
    (hp : ∀ r ∈ rows, p r = true → ident r = i) (hf : ∀ r, key (f r) = k)
    (hfree : ∀ r ∈ rows, p r = false → key r ≠ k) : Keyed key (Table.update p f rows) := by
  induction rows with
  | nil => exact h
  | cons r rs ih =>
    obtain ⟨hr, hrs⟩ := List.nodup_cons.mp h
    obtain ⟨hir, hirs⟩ := List.nodup_cons.mp hident
    have htail := ih hrs hirs (fun s hs => hp s (.tail _ hs)) fun s hs => hfree s (.tail _ hs)
    refine List.nodup_cons.mpr ⟨fun hmem => ?_, htail⟩
    obtain ⟨_, hupdated, hkey⟩ := List.mem_map.mp hmem
    obtain ⟨s, hs, rfl⟩ := List.mem_map.mp hupdated
    dsimp only at hkey
    cases hpr : p r <;> cases hps : p s
    · rw [hpr, hps] at hkey
      exact hr (hkey ▸ List.mem_map_of_mem hs)
    · rw [hpr, hps] at hkey
      exact hfree r (.head _) hpr (hkey.symm.trans (hf s))
    · rw [hpr, hps] at hkey
      exact hfree s (.tail _ hs) hps (hkey.trans (hf r))
    · -- two rows selected would be one
      refine hir (List.mem_map.mpr ⟨s, hs, ?_⟩)
      rw [hp s (.tail _ hs) hps, hp r (.head _) hpr]

end keyed

section mem

variable {rows : List ρ} {r s : ρ} {p : ρ → Bool} {f : ρ → ρ}

theorem mem_update : s ∈ update p f rows ↔ ∃ r ∈ rows, (if p r then f r else r) = s := by
  simp [update]

theorem mem_update_of_not (hr : r ∈ rows) (hp : ¬p r = true) : r ∈ update p f rows :=
  mem_update.mpr ⟨r, hr, if_neg hp⟩

theorem mem_delete : r ∈ delete p rows ↔ r ∈ rows ∧ p r = false := by
  simp [delete]

/-- Which rows a deletion takes depends on the rows that stand in the table. -/
theorem delete_congr {q : ρ → Bool} (h : ∀ r ∈ rows, p r = true ↔ q r = true) :
    delete p rows = delete q rows :=
  List.filter_congr fun r hr => congrArg (!·) (Bool.eq_iff_iff.mpr (h r hr))

/-- A key that stands in a table still stands there after an update that keeps the keys. -/
theorem exists_mem_update {κ : Type*} {key : ρ → κ} {k : κ} (hf : ∀ r, key (f r) = key r)
    (h : ∃ r ∈ rows, key r = k) : ∃ r ∈ update p f rows, key r = k := by
  obtain ⟨r, hr, rfl⟩ := h
  refine ⟨_, mem_update.mpr ⟨r, hr, rfl⟩, ?_⟩
  split
  · exact hf r
  · rfl

/-- A row with a property is still there after an update of rows that keeps it. -/
theorem exists_mem_update_of {P : ρ → Prop} (h : ∃ r ∈ rows, P r)
    (hf : ∀ r ∈ rows, P r → p r = true → P (f r)) : ∃ r ∈ update p f rows, P r := by
  obtain ⟨r, hr, hP⟩ := h
  refine ⟨_, mem_update.mpr ⟨r, hr, rfl⟩, ?_⟩
  split
  next hp => exact hf r hr hP hp
  · exact hP

/-- What holds of all rows and of every changed row holds of the rows of the updated table. -/
theorem forall_mem_update {P : ρ → Prop} (h : ∀ r ∈ rows, P r)
    (hf : ∀ r ∈ rows, p r = true → P (f r)) : ∀ s ∈ update p f rows, P s := by
  intro s hs
  obtain ⟨r, hr, rfl⟩ := mem_update.mp hs
  split
  · exact hf r hr ‹_›
  · exact h r hr

/-- A row that was added stays at its place in a table that only grows. -/
theorem getElem?_of_prefix {more : List ρ} (h : rows ++ [r] <+: more) :
    more[rows.length]? = some r := by
  obtain ⟨rest, rfl⟩ := h
  simp

/-- What comes out of a list that is mapped as a whole comes from a member. -/
theorem exists_of_mem_mapM {α : Type*} {f : α → Option ρ} {xs : List α} (h : xs.mapM f = some rows)
    (hr : r ∈ rows) : ∃ a ∈ xs, f a = some r := by
  induction xs generalizing rows with
  | nil =>
    simp only [List.mapM_nil, Option.pure_def, Option.some.injEq] at h
    simp [← h] at hr
  | cons x xs ih =>
    simp only [List.mapM_cons, Option.bind_eq_bind, Option.pure_def, Option.bind_eq_some_iff,
      Option.some.injEq] at h
    obtain ⟨y, hy, ys, hys, rfl⟩ := h
    rcases List.mem_cons.mp hr with rfl | hr
    · exact ⟨x, .head _, hy⟩
    · obtain ⟨a, ha, har⟩ := ih hys hr
      exact ⟨a, .tail _ ha, har⟩

end mem

section rowsAt

variable [DecidableEq κ] {key : ρ → κ} {k k' : κ} {rows rows' : List ρ} {p : ρ → Bool} {f : ρ → ρ}
  {r : ρ}

/-- The rows with the given key. -/
def rowsAt (key : ρ → κ) (k : κ) (rows : List ρ) : List ρ := rows.filter fun r => key r = k

/-- Update the one row that satisfies `p`; nothing when another number of rows does. -/
def updateOne (p : ρ → Bool) (f : ρ → ρ) (rows : List ρ) : Option (List ρ) :=
  if rows.countP p = 1 then some (update p f rows) else none

@[simp] theorem mem_rowsAt : r ∈ rowsAt key k rows ↔ r ∈ rows ∧ key r = k := by
  simp [rowsAt]

theorem rowsAt_append : rowsAt key k (rows ++ rows') = rowsAt key k rows ++ rowsAt key k rows' :=
  List.filter_append ..

/-- An update that keeps the keys changes the rows of a key among themselves. -/
theorem rowsAt_update (hf : ∀ r, key (f r) = key r) :
    rowsAt key k (update p f rows) = update p f (rowsAt key k rows) := by
  induction rows with
  | nil => rfl
  | cons x xs ih =>
    have hx : key (if p x then f x else x) = key x := by split <;> simp [hf]
    simp only [rowsAt, update, List.map_cons, List.filter_cons, hx] at ih ⊢
    split
    · rw [List.map_cons, ih]
    · exact ih

/-- An update of other rows leaves the rows of a key alone. -/
theorem rowsAt_update_of_not (hp : ∀ r ∈ rows, key r = k → p r = false)
    (hf : ∀ r, key (f r) = key r) : rowsAt key k (update p f rows) = rowsAt key k rows := by
  rw [rowsAt_update hf]
  refine (List.map_congr_left fun r hr => ?_).trans (List.map_id _)
  obtain ⟨hmem, hk⟩ := mem_rowsAt.mp hr
  rw [hp r hmem hk]
  rfl

theorem rowsAt_update_of_ne (hp : ∀ r, p r = true → key r = k') (hf : ∀ r, key (f r) = key r)
    (hne : k ≠ k') :
    rowsAt key k (update p f rows) = rowsAt key k rows := by
  refine rowsAt_update_of_not (fun r _ hk => ?_) hf
  by_contra hr
  exact hne (hk.symm.trans (hp r (by simpa using hr)))

theorem rowsAt_delete_of_not (hp : ∀ r ∈ rows, key r = k → p r = false) :
    rowsAt key k (delete p rows) = rowsAt key k rows := by
  rw [rowsAt, delete, List.filter_filter]
  refine List.filter_congr fun r hr => ?_
  by_cases hk : key r = k
  · simp [hk, hp r hr hk]
  · simp [hk]

theorem rowsAt_eq_nil : rowsAt key k rows = [] ↔ ∀ r ∈ rows, key r ≠ k := by
  simp [rowsAt]

theorem rowsAt_append_of_not (h : ∀ r ∈ rows', key r ≠ k) :
    rowsAt key k (rows ++ rows') = rowsAt key k rows := by
  rw [rowsAt_append, rowsAt_eq_nil.mpr h, List.append_nil]

theorem countP_rowsAt (hp : ∀ r, p r = true → key r = k) :
    (rowsAt key k rows).countP p = rows.countP p := by
  rw [rowsAt, List.countP_filter]
  refine List.countP_congr fun r _ => ?_
  simp only [Bool.and_eq_true, decide_eq_true_eq]
  exact ⟨fun h => h.1, fun h => ⟨h, hp r h⟩⟩

theorem updateOne_eq_some :
    updateOne p f rows = some rows' ↔ rows.countP p = 1 ∧ rows' = update p f rows := by
  unfold updateOne
  split <;> simp [*, eq_comm]

/-- An update depends on the rows of its key alone. -/
theorem rowsAt_update_congr (hf : ∀ r, key (f r) = key r)
    (hsame : rowsAt key k rows = rowsAt key k rows') :
    rowsAt key k (update p f rows) = rowsAt key k (update p f rows') := by
  rw [rowsAt_update hf, rowsAt_update hf, hsame]

theorem updateOne_congr {rows₁ : List ρ} (h : updateOne p f rows = some rows₁)
    (hp : ∀ r, p r = true → key r = k) (hsame : rowsAt key k rows = rowsAt key k rows') :
    updateOne p f rows' = some (update p f rows') := by
  refine updateOne_eq_some.mpr ⟨?_, rfl⟩
  rw [← countP_rowsAt hp, ← hsame, countP_rowsAt hp]
  exact (updateOne_eq_some.mp h).1

end rowsAt

end Table
