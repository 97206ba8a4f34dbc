import Mathlib.Algebra.Order.Field.Basic
import Mathlib.Algebra.Order.Floor.Ring
import Mathlib.Data.Nat.Cast.Order.Ring
import Mathlib.Tactic.Linarith
import Tenancit.Lib.Runs

/-!
Token buckets over an ordered field, and amortised counts along runs. A call refills its
bucket with a credit, up to the capacity, and takes a token if there is one. The calls of a
run that take one are paid for by the level it starts from and by the credits.
-/
namespace Runs

variable {σ ι 𝕜 : Type*} [Field 𝕜] [LinearOrder 𝕜] [IsStrictOrderedRing 𝕜] {R : σ → ι → σ → Prop}

/-- Where each step of a kind costs one unit of a potential and no step adds to it, the
potential pays for the steps of the kind. -/
theorem Run.countP_le {P : σ → Prop} {potential : σ → 𝕜} {p : ι → Bool}
    (hkeep : ∀ s l t, P s → R s l t → P t)
    (hstep : ∀ s l t, P s → R s l t → potential t + (if p l then 1 else 0) ≤ potential s) {s t : σ}
    {ls : List ι} (h : Run R s ls t) (h0 : P s) :
    potential t + (ls.countP p : 𝕜) ≤ potential s := by
  induction h with
  | nil s => simp
  | @cons s u t l ls hr _ ih =>
    have hrest := ih (hkeep s l u h0 hr)
    have hfirst := hstep s l u h0 hr
    rw [List.countP_cons]
    push_cast
    linarith

end Runs

namespace TokenBucket

variable {𝕜 : Type*} [Field 𝕜] [LinearOrder 𝕜] {capacity tokens credit credit' : 𝕜}

/-- The level after a refill. -/
def refill (capacity tokens credit : 𝕜) : 𝕜 := min capacity (tokens + credit)

/-- The level after a call. -/
def spend (level : 𝕜) : 𝕜 := if 1 ≤ level then level - 1 else level

/-- What a call takes. -/
def taken (level : 𝕜) : 𝕜 := if 1 ≤ level then 1 else 0

theorem refill_le_capacity : refill capacity tokens credit ≤ capacity := min_le_left _ _

theorem refill_le : refill capacity tokens credit ≤ tokens + credit := min_le_right _ _

theorem refill_of_le (h : capacity ≤ tokens + credit) : refill capacity tokens credit = capacity :=
  min_eq_left h

theorem refill_nonneg (hcapacity : 0 ≤ capacity) (h : 0 ≤ tokens + credit) :
    0 ≤ refill capacity tokens credit :=
  le_min hcapacity h

theorem spend_add_taken (level : 𝕜) : spend level + taken level = level := by
  unfold spend taken
  split
  · exact sub_add_cancel level 1
  · exact add_zero level

theorem spend_of_lt {level : 𝕜} (h : level < 1) : spend level = level := if_neg h.not_ge

variable [IsStrictOrderedRing 𝕜]

theorem taken_nonneg (level : 𝕜) : 0 ≤ taken level := by
  unfold taken
  split
  · exact zero_le_one
  · exact le_rfl

theorem spend_le (level : 𝕜) : spend level ≤ level := by
  have hsum := spend_add_taken level
  have htaken := taken_nonneg level
  linarith

/-- A level without a token has one again when the time from then on, times the rate, has made
up for what is missing: the least whole time that does is the quotient rounded up. -/
theorem one_le_refill_iff [FloorRing 𝕜] {rate : 𝕜} (tokens : 𝕜) (hcapacity : 1 ≤ capacity)
    (hrate : 0 < rate) (time : ℤ) :
    1 ≤ refill capacity tokens (time * rate) ↔ ⌈(1 - tokens) / rate⌉ ≤ time := by
  rw [refill, le_min_iff, Int.ceil_le, div_le_iff₀ hrate]
  exact ⟨fun h => by linarith [h.2], fun h => ⟨hcapacity, by linarith⟩⟩

theorem ceil_missing_pos [FloorRing 𝕜] {rate : 𝕜} (hrate : 0 < rate) (h : tokens < 1) :
    0 < ⌈(1 - tokens) / rate⌉ :=
  Int.ceil_pos.mpr (div_pos (sub_pos.mpr h) hrate)

/-- What is left is not negative: neither before the call nor, if a token was taken, after it. -/
theorem spend_nonneg {level : 𝕜} (h : 0 ≤ level ∨ 1 ≤ level) : 0 ≤ spend level := by
  unfold spend
  split
  next h1 => exact sub_nonneg.mpr h1
  next h1 => exact h.resolve_right h1

end TokenBucket
