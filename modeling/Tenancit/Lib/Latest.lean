import Mathlib.Data.List.Sort

/-!
`SELECT DISTINCT ON (key) … ORDER BY order`: the rows in an order, less those whose key has
come before.
-/
namespace Table

section latest

variable {ρ κ ο : Type*} [DecidableEq κ] [LinearOrder ο] {key : ρ → κ} {order : ρ → ο}
  {rows : List ρ} {r s : ρ}

/-- The first row of each key. -/
def distinctOn (key : ρ → κ) : List ρ → List ρ
  | [] => []
  | r :: rows => r :: (distinctOn key rows).filter fun s => key s ≠ key r

def latest (key : ρ → κ) (order : ρ → ο) (rows : List ρ) : List ρ :=
  distinctOn key (rows.insertionSort fun r s => order r ≤ order s)

theorem mem_of_mem_distinctOn (h : r ∈ distinctOn key rows) : r ∈ rows := by
  induction rows with
  | nil => cases h
  | cons s rows ih =>
    rcases List.mem_cons.mp h with rfl | h
    · exact .head _
    · exact .tail _ (ih (List.mem_filter.mp h).1)

/-- Each key that occurs has a first row. -/
theorem exists_mem_distinctOn (h : r ∈ rows) : ∃ s ∈ distinctOn key rows, key s = key r := by
  induction rows with
  | nil => cases h
  | cons x rows ih =>
    by_cases hx : key x = key r
    · exact ⟨x, .head _, hx⟩
    · have hr : r ∈ rows := (List.mem_cons.mp h).resolve_left fun he => hx (he ▸ rfl)
      obtain ⟨s, hs, hkey⟩ := ih hr
      exact ⟨s, .tail _ (List.mem_filter.mpr ⟨hs, decide_eq_true (hkey ▸ Ne.symm hx)⟩), hkey⟩

/-- Of the rows of a key, the first comes before each other in any order the list has. -/
theorem distinctOn_first {R : ρ → ρ → Prop} (hrows : rows.Pairwise R)
    (h : r ∈ distinctOn key rows) : ∀ s ∈ rows, key s = key r → s = r ∨ R r s := by
  induction rows with
  | nil => cases h
  | cons x rows ih =>
    obtain ⟨hx, hrows⟩ := List.pairwise_cons.mp hrows
    intro s hs hkey
    rcases List.mem_cons.mp h with rfl | h
    · exact (List.mem_cons.mp hs).imp_right (hx s)
    · obtain ⟨h, hne⟩ := List.mem_filter.mp h
      rcases List.mem_cons.mp hs with rfl | hs
      · exact absurd hkey.symm (of_decide_eq_true hne)
      · exact ih hrows h s hs hkey

theorem mem_of_mem_latest (h : r ∈ latest key order rows) : r ∈ rows :=
  List.mem_insertionSort _ |>.mp (mem_of_mem_distinctOn h)

/-- The row kept for a key comes first in the order. -/
theorem latest_first (h : r ∈ latest key order rows) (hs : s ∈ rows) (hkey : key s = key r) :
    order r ≤ order s := by
  have hsorted := List.pairwise_insertionSort (fun r s => order r ≤ order s) rows
  rcases distinctOn_first hsorted h s ((List.mem_insertionSort _).mpr hs) hkey with rfl | hle
  · exact le_rfl
  · exact hle

variable (key order) in
theorem exists_mem_latest (h : r ∈ rows) : ∃ s ∈ latest key order rows, key s = key r :=
  exists_mem_distinctOn ((List.mem_insertionSort _).mpr h)

end latest

end Table
