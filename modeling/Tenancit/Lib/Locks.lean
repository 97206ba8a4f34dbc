import Mathlib.Data.List.Basic
import Mathlib.Tactic.Common

/-!
Locks that transactions hold until they end. A lock table lists who holds which key; a key
is free for an owner when nobody else holds it, and a transaction that ends releases all it
holds. Keys are never held by two owners.
-/
namespace Locks

variable {ο κ : Type*}

/-- No key has two holders. -/
def Exclusive (locks : List (ο × κ)) : Prop := ∀ x ∈ locks, ∀ y ∈ locks, x.2 = y.2 → x.1 = y.1

/-- Nobody but the owner holds the key. -/
def Free (locks : List (ο × κ)) (o : ο) (k : κ) : Prop := ∀ x ∈ locks, x.2 = k → x.1 = o

instance [DecidableEq ο] [DecidableEq κ] (locks : List (ο × κ)) (o : ο) (k : κ) :
    Decidable (Free locks o k) := by
  unfold Free
  infer_instance

def acquire (locks : List (ο × κ)) (o : ο) (ks : List κ) : List (ο × κ) :=
  locks ++ ks.map fun k => (o, k)

/-- Drop the locks of an owner. -/
def release [DecidableEq ο] (locks : List (ο × κ)) (o : ο) : List (ο × κ) :=
  locks.filter fun x => x.1 ≠ o

variable {locks : List (ο × κ)} {o : ο} {k : κ} {ks : List κ} {x : ο × κ}

@[simp] theorem mem_acquire : x ∈ acquire locks o ks ↔ x ∈ locks ∨ x.1 = o ∧ x.2 ∈ ks := by
  obtain ⟨a, b⟩ := x
  simp only [acquire, List.mem_append, List.mem_map, Prod.mk.injEq]
  constructor
  · rintro (h | ⟨k, hk, rfl, rfl⟩)
    · exact .inl h
    · exact .inr ⟨rfl, hk⟩
  · rintro (h | ⟨rfl, h⟩)
    · exact .inl h
    · exact .inr ⟨b, h, rfl, rfl⟩

@[simp] theorem mem_release [DecidableEq ο] : x ∈ release locks o ↔ x ∈ locks ∧ x.1 ≠ o := by
  simp [release]

@[simp] theorem exclusive_nil : Exclusive ([] : List (ο × κ)) := by simp [Exclusive]

theorem Exclusive.acquire (h : Exclusive locks) (hfree : ∀ k ∈ ks, Free locks o k) :
    Exclusive (acquire locks o ks) := by
  intro x hx y hy hk
  rcases mem_acquire.mp hx with hx | ⟨hxo, hxk⟩ <;> rcases mem_acquire.mp hy with hy | ⟨hyo, hyk⟩
  · exact h x hx y hy hk
  · rw [hyo]
    exact hfree y.2 hyk x hx hk
  · rw [hxo]
    exact (hfree x.2 hxk y hy hk.symm).symm
  · rw [hxo, hyo]

theorem Exclusive.release [DecidableEq ο] (h : Exclusive locks) (o : ο) :
    Exclusive (release locks o) :=
  fun x hx y hy => h x (mem_release.mp hx).1 y (mem_release.mp hy).1

section sessions

variable {σ : Type*} {ss : List σ} {s s' : σ} {m n : Nat}

theorem set_cases (h : (ss.set n s)[m]? = some s') : m = n ∧ s' = s ∨ m ≠ n ∧ ss[m]? = some s' := by
  rw [List.getElem?_set] at h
  split at h
  next hn =>
    split at h
    · exact .inl ⟨hn.symm, (Option.some.inj h).symm⟩
    · cases h
  next hn => exact .inr ⟨Ne.symm hn, h⟩

theorem concat_cases (h : (ss ++ [s])[m]? = some s') :
    m = ss.length ∧ s' = s ∨ m < ss.length ∧ ss[m]? = some s' := by
  rcases Nat.lt_or_ge m ss.length with hm | hm
  · rw [List.getElem?_append_left hm] at h
    exact .inr ⟨hm, h⟩
  · rw [List.getElem?_append_right hm, List.getElem?_singleton] at h
    split at h
    next hzero => exact .inl ⟨by omega, (Option.some.inj h).symm⟩
    · cases h

/-- Sessions hold at most one key each, and no key is held by two. -/
def HeldOnce (held : σ → Option κ) (ss : List σ) : Prop :=
  ∀ (m n : Nat) (s s' : σ) k, ss[m]? = some s → ss[n]? = some s' → held s =
    some k → held s' = some k → m = n

variable {held : σ → Option κ}

theorem heldOnce_nil : HeldOnce held [] := by
  intro m n s s' k hs
  cases hs

/-- A session begins, with nothing or a key that nobody holds. -/
theorem HeldOnce.concat (h : HeldOnce held ss)
    (hfree : ∀ k, held s = some k → ∀ x ∈ ss, held x ≠ some k) : HeldOnce held (ss ++ [s]) := by
  intro m n x x' k hx hx' hk hk'
  rcases concat_cases hx with ⟨hm, he⟩ | ⟨-, hx⟩ <;>
    rcases concat_cases hx' with ⟨hn, he'⟩ | ⟨-, hx'⟩
  · rw [hm, hn]
  · exact absurd hk' (hfree k (he ▸ hk) x' (List.mem_of_getElem? hx'))
  · exact absurd hk (hfree k (he' ▸ hk') x (List.mem_of_getElem? hx))
  · exact h m n x x' k hx hx' hk hk'

/-- A session goes on, with nothing or a key that nobody else holds. -/
theorem HeldOnce.set (h : HeldOnce held ss)
    (hfree : ∀ k, held s = some k → ∀ m x, m ≠ n → ss[m]? = some x → held x ≠ some k) :
    HeldOnce held (ss.set n s) := by
  intro m m' x x' k hx hx' hk hk'
  rcases set_cases hx with ⟨hm, he⟩ | ⟨hm, hx⟩ <;> rcases set_cases hx' with ⟨hm', he'⟩ | ⟨hm', hx'⟩
  · rw [hm, hm']
  · exact absurd hk' (hfree k (he ▸ hk) m' x' hm' hx')
  · exact absurd hk (hfree k (he' ▸ hk') m x hm hx)
  · exact h m m' x x' k hx hx' hk hk'

end sessions

end Locks
