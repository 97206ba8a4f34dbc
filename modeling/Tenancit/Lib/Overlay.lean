import Mathlib.Data.List.Nodup
import Mathlib.Tactic.Common

/-!
Objects with values of their own and a base they inherit from. A plain map records, for
each object, its base and, for each object and key, the last value written and not
cleared since. An object's effective value is its own one, else that of its base.
-/
structure Overlay (ρ κ α : Type*) where
  base : ρ → Option ρ
  own : ρ → κ → Option α

namespace Overlay

variable {ρ κ α : Type*}

/-- Nothing recorded. -/
def empty : Overlay ρ κ α := ⟨fun _ => none, fun _ _ => none⟩

def effective (o : Overlay ρ κ α) (r : ρ) (k : κ) : Option α :=
  (o.own r k).or ((o.base r).bind fun b => o.own b k)

theorem effective_of_own {o : Overlay ρ κ α} {r : ρ} {k : κ} {a : α} (h : o.own r k = some a) :
    o.effective r k = some a := by simp [effective, h]

theorem effective_of_root {o : Overlay ρ κ α} {r : ρ} (h : o.base r = none) (k : κ) :
    o.effective r k = o.own r k := by simp [effective, h]

/-- Forget the objects that satisfy `p`. -/
def drop (o : Overlay ρ κ α) (p : ρ → Bool) : Overlay ρ κ α where
  base r := if p r then none else o.base r
  own r k := if p r then none else o.own r k

section laws

variable {o : Overlay ρ κ α} {r x : ρ} {k y : κ} {a : α} {b : Option ρ} {p : ρ → Bool}
  {es : List (κ × α)}

theorem base_drop_of_kept (h : p x = false) : (o.drop p).base x = o.base x := by simp [drop, h]

theorem own_drop_of_kept (h : p x = false) : (o.drop p).own x = o.own x := by
  funext y
  simp [drop, h]

variable [DecidableEq ρ]

/-- A new object, without values of its own. -/
def link (o : Overlay ρ κ α) (r : ρ) (base : Option ρ) : Overlay ρ κ α where
  base x := if x = r then base else o.base x
  own x k := if x = r then none else o.own x k

@[simp] theorem base_link_self : (o.link r b).base r = b := by simp [link]
@[simp] theorem own_link_self : (o.link r b).own r = fun _ => none := by
  funext y
  simp [link]

theorem base_link_of_ne (h : x ≠ r) : (o.link r b).base x = o.base x := by simp [link, h]
theorem own_link_of_ne (h : x ≠ r) : (o.link r b).own x = o.own x := by
  funext y
  simp [link, h]

variable [DecidableEq κ]

def write (o : Overlay ρ κ α) (r : ρ) (k : κ) (a : α) : Overlay ρ κ α :=
  { o with own := fun x y => if x = r ∧ y = k then some a else o.own x y }

def clear (o : Overlay ρ κ α) (r : ρ) (k : κ) : Overlay ρ κ α :=
  { o with own := fun x y => if x = r ∧ y = k then none else o.own x y }

/-- Write the entries of a list to one object, in their order. -/
def writeAll (o : Overlay ρ κ α) (r : ρ) : List (κ × α) → Overlay ρ κ α
  | [] => o
  | e :: es => (o.write r e.1 e.2).writeAll r es

@[simp] theorem base_write : (o.write r k a).base = o.base := rfl
@[simp] theorem base_clear : (o.clear r k).base = o.base := rfl

@[simp] theorem base_writeAll : (o.writeAll r es).base = o.base := by
  induction es generalizing o with
  | nil => rfl
  | cons e es ih => exact ih

@[simp] theorem own_write_self : (o.write r k a).own r k = some a := by simp [write]

theorem own_write_of_ne (h : ¬(x = r ∧ y = k)) : (o.write r k a).own x y = o.own x y := by
  simp [write, h]

@[simp] theorem own_clear_self : (o.clear r k).own r k = none := by simp [clear]

theorem own_clear_of_ne (h : ¬(x = r ∧ y = k)) : (o.clear r k).own x y = o.own x y := by
  simp [clear, h]

/-- Other objects, and keys that are not written, keep their values. -/
theorem own_writeAll_of_ne (h : x = r → ∀ e ∈ es, e.1 ≠ y) :
    (o.writeAll r es).own x y = o.own x y := by
  induction es generalizing o with
  | nil => rfl
  | cons e es ih =>
    rw [writeAll, ih fun hx e he => h hx e (.tail _ he)]
    exact own_write_of_ne fun hxy => h hxy.1 e (.head _) hxy.2.symm

/-- Of distinct keys each gets the value listed for it. -/
theorem own_writeAll_mem (hkeys : (es.map Prod.fst).Nodup) (h : (k, a) ∈ es) :
    (o.writeAll r es).own r k = some a := by
  induction es generalizing o with
  | nil => simp at h
  | cons e es ih =>
    obtain ⟨he, hes⟩ := List.nodup_cons.mp hkeys
    rcases List.mem_cons.mp h with rfl | h
    · have hne : ∀ e' ∈ es, e'.1 ≠ k := fun e' he' heq => he (List.mem_map.mpr ⟨e', he', heq⟩)
      rw [writeAll, own_writeAll_of_ne fun _ => hne, own_write_self]
    · exact ih hes h

/-- A write changes the effective value of an object only to what was written under the key. -/
theorem effective_write (h : o.effective x y = some a) (c : α) :
    (o.write r k c).effective x y = some a ∨ y = k ∧ (o.write r k c).effective x y = some c := by
  have hown : ∀ z, (o.write r k c).own z y = o.own z y ∨ y =
      k ∧ (o.write r k c).own z y = some c := by
    intro z
    by_cases hz : z = r ∧ y = k
    · exact .inr ⟨hz.2, by simp [write, hz]⟩
    · exact .inl (own_write_of_ne hz)
  unfold effective at h ⊢
  rw [base_write]
  rcases hown x with hx | ⟨hy, hx⟩
  · rw [hx]
    cases hxo : o.own x y with
    | some d =>
      rw [hxo, Option.some_or] at h
      exact .inl (by rw [Option.some_or, h])
    | none =>
      rw [hxo, Option.none_or, Option.bind_eq_some_iff] at h
      obtain ⟨z, hz, h⟩ := h
      rcases hown z with hz' | ⟨hy, hz'⟩
      · exact .inl (by simp [hz, hz', h])
      · exact .inr ⟨hy, by simp [hz, hz']⟩
  · exact .inr ⟨hy, by simp [hx]⟩

/-- An object other than a new one, and not based on it, keeps its effective values. -/
theorem effective_link_writeAll (hx : x ≠ r) (hb : o.base x ≠ some r) :
    ((o.link r b).writeAll r es).effective x y = o.effective x y := by
  have hown : ∀ z, z ≠ r → ((o.link r b).writeAll r es).own z y = o.own z y := fun z hz => by
    rw [own_writeAll_of_ne fun h => absurd h hz, own_link_of_ne hz]
  unfold effective
  rw [hown x hx, base_writeAll, base_link_of_ne hx]
  cases hbx : o.base x with
  | none => rfl
  | some z => simp only [Option.bind_some, hown z fun hz => hb (hz ▸ hbx)]

end laws

end Overlay
