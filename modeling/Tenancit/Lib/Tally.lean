import Mathlib.Algebra.BigOperators.Fin
import Mathlib.Data.List.AList

/-!
Weights summed over association lists and over indexed families: what an insertion and an
update at one index add to the sum.
-/
namespace Tally

section entries

variable {κ ν α β : Type*}

theorem sum_map_filterMap (f : α → Option β) (w : β → Nat) (xs : List α) :
    ((xs.filterMap f).map w).sum = (xs.map fun a => (f a).elim 0 w).sum := by
  induction xs with
  | nil => rfl
  | cons x xs ih =>
    rw [List.filterMap_cons, List.map_cons, List.sum_cons, ← ih]
    cases f x with
    | none => simp
    | some b => simp

variable [DecidableEq κ] (w : (_ : κ) × ν → Nat)

theorem sum_kerase (k : κ) (xs : List ((_ : κ) × ν)) :
    ((xs.kerase k).map w).sum + ((xs.dlookup k).elim 0 fun v => w ⟨k, v⟩) = (xs.map w).sum := by
  induction xs with
  | nil => rfl
  | cons x xs ih =>
    obtain ⟨k', v⟩ := x
    by_cases h : k = k'
    · subst h
      simp [List.kerase_cons_eq, Nat.add_comm]
    · rw [List.kerase_cons_ne h, List.dlookup_cons_ne _ _ h]
      simp only [List.map_cons, List.sum_cons]
      omega

/-- An insertion adds the weight of the new entry in place of that of the old one. -/
theorem sum_insert (k : κ) (v : ν) (m : AList fun _ : κ => ν) :
    ((m.insert k v).entries.map w).sum + ((m.lookup k).elim 0 fun u => w ⟨k, u⟩) =
      (m.entries.map w).sum + w ⟨k, v⟩ := by
  rw [AList.entries_insert, List.map_cons, List.sum_cons, ← sum_kerase w k m.entries]
  unfold AList.lookup
  omega

end entries

section family

variable {ι α : Type*} [Fintype ι] [DecidableEq ι]

/-- An update at one index adds the weight of the new member in place of that of the old one. -/
theorem sum_update (w : α → Nat) (f : ι → α) (i : ι) (x : α) :
    ∑ j, w (Function.update f i x j) + w (f i) = ∑ j, w (f j) + w x := by
  have hsplit : ∀ g : ι → α, ∑ j, w (g j) = w (g i) + ∑ j ∈ Finset.univ.erase i, w (g j) := fun g =>
    (Finset.add_sum_erase _ _ (Finset.mem_univ i)).symm
  have hrest : ∑ j ∈ Finset.univ.erase i, w (Function.update f i x j) = ∑ j ∈
      Finset.univ.erase i, w (f j) := by
    refine Finset.sum_congr rfl fun j hj => ?_
    rw [Function.update_of_ne (Finset.ne_of_mem_erase hj)]
  rw [hsplit, hsplit f, hrest, Function.update_self]
  omega

end family

end Tally
