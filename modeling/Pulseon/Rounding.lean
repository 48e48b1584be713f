import Mathlib.Order.Monotone.Basic
import Mathlib.Tactic.Common

/-!
# Rounding to a grid

Rounding a number to the nearer of the two grid points around it, to the one
with the even index when both are as near. On a strictly increasing grid this
is monotone and leaves the grid points where they are.
-/

namespace Pulseon

/-- The index of the nearer of the grid points `m` and `m + 1`. -/
def nearest (grid : Nat → Nat) (m n : Nat) : Nat :=
  if n - grid m < grid (m + 1) - n then m
  else if grid (m + 1) - n < n - grid m then m + 1
  else if m % 2 = 0 then m else m + 1

def Between (grid : Nat → Nat) (m n : Nat) : Prop := grid m ≤ n ∧ n < grid (m + 1)

theorem le_nearest (grid : Nat → Nat) (m n : Nat) : m ≤ nearest grid m n := by
  unfold nearest; split_ifs <;> omega

theorem nearest_le (grid : Nat → Nat) (m n : Nat) : nearest grid m n ≤ m + 1 := by
  unfold nearest; split_ifs <;> omega

/-- The nearer point is at most half a gap away. -/
theorem nearest_near {grid : Nat → Nat} {m n : Nat} (h : Between grid m n) :
    2 * n ≤ 2 * grid (nearest grid m n) + (grid (m + 1) - grid m) ∧
      2 * grid (nearest grid m n) ≤ 2 * n + (grid (m + 1) - grid m) := by
  unfold Between at h
  unfold nearest
  split_ifs <;> omega

section
variable {grid : Nat → Nat} (hg : StrictMono grid)
include hg

theorem between_self (m : Nat) : Between grid m (grid m) :=
  ⟨Nat.le_refl _, hg (Nat.lt_add_one m)⟩

theorem between_le {m k n p : Nat} (hm : Between grid m n) (hk : Between grid k p) (h : n ≤ p) : m ≤ k := by
  have : grid m < grid (k + 1) := by unfold Between at hm hk; omega
  have := hg.lt_iff_lt.mp this
  omega

theorem between_unique {m k n : Nat} (hm : Between grid m n) (hk : Between grid k n) : m = k :=
  Nat.le_antisymm (between_le hg hm hk (Nat.le_refl n)) (between_le hg hk hm (Nat.le_refl n))

theorem nearest_grid (m : Nat) : nearest grid m (grid m) = m := by
  have := hg (Nat.lt_add_one m)
  unfold nearest
  rw [if_pos (by omega)]

theorem nearest_mono {m k n p : Nat} (hm : Between grid m n) (hk : Between grid k p) (h : n ≤ p) :
    nearest grid m n ≤ nearest grid k p := by
  by_cases e : m = k
  · subst e
    unfold Between at hm hk
    unfold nearest
    split_ifs <;> omega
  · have := between_le hg hm hk h
    have := nearest_le grid m n
    have := le_nearest grid k p
    omega

end

end Pulseon
