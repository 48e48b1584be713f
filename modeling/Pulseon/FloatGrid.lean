import Mathlib.Tactic.Ring
import Pulseon.Rounding

/-!
# Grids of binary floating point

The finite numbers of a binary format with `b` bits of fraction, counted from the
least positive one: a magnitude is a multiple of it, and between two powers of
two the multiples are evenly spaced. Rounding a ratio is rounding on a grid whose
points are scaled by the denominator.
-/

namespace Pulseon

/-- The multiple of the least positive number that a magnitude stands for. -/
def gridUnits (b magnitude : Nat) : Nat :=
  if magnitude < 2 ^ b then magnitude else (2 ^ b + magnitude % 2 ^ b) * 2 ^ (magnitude / 2 ^ b - 1)

/-- The greatest magnitude of at most `n` units. -/
def gridBelow (b n : Nat) : Nat :=
  let e := n.log2 - b
  e * 2 ^ b + n / 2 ^ e

section
variable {b : Nat}

theorem gridUnits_normal {e q : Nat} (hl : 2 ^ b ≤ q) (hr : q ≤ 2 ^ (b + 1)) :
    gridUnits b (e * 2 ^ b + q) = q * 2 ^ e := by
  have hpos := Nat.two_pow_pos b
  have hpow : 2 ^ (b + 1) = 2 * 2 ^ b := by rw [Nat.pow_succ, Nat.mul_comm]
  unfold gridUnits
  rw [if_neg (by omega)]
  rcases Nat.eq_or_lt_of_le hr with heq | hlt
  · have hm : e * 2 ^ b + q = (e + 2) * 2 ^ b := by rw [heq, hpow]; ring
    rw [hm, Nat.mul_mod_left, Nat.mul_div_cancel _ hpos, Nat.add_zero, heq, show e + 2 - 1 =
      e + 1 by omega, Nat.pow_succ,
      Nat.pow_succ]
    ring
  · obtain ⟨f, rfl⟩ : ∃ f, q = 2 ^ b + f := ⟨q - 2 ^ b, by omega⟩
    have hf : f < 2 ^ b := by omega
    have hm : e * 2 ^ b + (2 ^ b + f) = f + (e + 1) * 2 ^ b := by ring
    rw [hm, Nat.add_mul_mod_self_right, Nat.mod_eq_of_lt hf, Nat.add_mul_div_right _ _ hpos, Nat.div_eq_of_lt hf,
      show 0 + (e + 1) - 1 = e by omega]

theorem gridUnits_small {m : Nat} (h : m ≤ 2 ^ (b + 1)) : gridUnits b m = m := by
  by_cases hm : m < 2 ^ b
  · unfold gridUnits; rw [if_pos hm]
  · have := @gridUnits_normal b 0 m (by omega) h
    simpa using this

/-- Every magnitude that is not small is in a binade. -/
theorem exists_binade {m : Nat} (h : 2 ^ b ≤ m) : ∃ e q, m = e * 2 ^ b + q ∧ 2 ^ b ≤ q ∧ q < 2 ^ (b + 1) := by
  have hpos := Nat.two_pow_pos b
  have hdiv := Nat.div_add_mod m (2 ^ b)
  have hmod := Nat.mod_lt m hpos
  obtain ⟨e, he⟩ : ∃ e, m / 2 ^ b = e + 1 := ⟨m / 2 ^ b - 1, by have := Nat.div_pos h hpos; omega⟩
  refine ⟨e, 2 ^ b + m % 2 ^ b, ?_, by omega, ?_⟩
  · rw [he] at hdiv
    rw [← hdiv]
    simp only [Nat.mul_add_mod, Nat.mod_mod]
    ring
  · rw [Nat.pow_succ]; omega

theorem gridUnits_strictMono (b : Nat) : StrictMono (gridUnits b) := by
  refine strictMono_nat_of_lt_succ fun m => ?_
  have hpow : 2 ^ (b + 1) = 2 * 2 ^ b := by rw [Nat.pow_succ, Nat.mul_comm]
  by_cases hm : m < 2 ^ b
  · rw [gridUnits_small (by omega), gridUnits_small (by omega)]
    omega
  · obtain ⟨e, q, rfl, hl, hr⟩ := exists_binade (Nat.le_of_not_lt hm)
    rw [Nat.add_assoc, gridUnits_normal hl (by omega), gridUnits_normal (by omega) (by omega)]
    exact Nat.mul_lt_mul_of_pos_right (by omega) (Nat.two_pow_pos e)

theorem gridUnits_below (b n : Nat) : Between (gridUnits b) (gridBelow b n) n := by
  have hpow : 2 ^ (b + 1) = 2 * 2 ^ b := by rw [Nat.pow_succ, Nat.mul_comm]
  unfold gridBelow
  by_cases hsmall : n < 2 ^ (b + 1)
  · have he : n.log2 - b = 0 := by
      by_cases hz : n = 0
      · simp [hz]
      · have := (Nat.log2_lt hz).mpr hsmall
        omega
    rw [he]
    simp only [Nat.zero_mul, Nat.pow_zero, Nat.div_one, Nat.zero_add]
    unfold Between
    rw [gridUnits_small (by omega), gridUnits_small (by omega)]
    omega
  · have hn : n ≠ 0 := by have := Nat.two_pow_pos (b + 1); omega
    have hlog : b + 1 ≤ n.log2 := (Nat.le_log2 hn).mpr (by omega)
    obtain ⟨e, he⟩ : ∃ e, n.log2 = b + e := ⟨n.log2 - b, by omega⟩
    rw [show n.log2 - b = e by omega]
    have hlo : 2 ^ b ≤ n / 2 ^ e := by
      rw [Nat.le_div_iff_mul_le (Nat.two_pow_pos e), ← Nat.pow_add, ← he]
      exact Nat.log2_self_le hn
    have hhi : n / 2 ^ e < 2 ^ (b + 1) := by
      rw [Nat.div_lt_iff_lt_mul (Nat.two_pow_pos e), ← Nat.pow_add, show b + 1 + e = n.log2 + 1 by omega]
      exact Nat.lt_log2_self
    unfold Between
    rw [Nat.add_assoc, gridUnits_normal hlo (by omega), gridUnits_normal (by omega) (by omega)]
    constructor
    · exact Nat.div_mul_le_self n (2 ^ e)
    · rw [Nat.mul_comm]
      exact Nat.lt_mul_div_succ n (Nat.two_pow_pos e)

/-- Significands of full length are compared by their exponents. -/
theorem exponent_le {q z e u : Nat} (h : q * 2 ^ e ≤ z * 2 ^ u) (hl : 2 ^ b ≤ q) (hz : z ≤ 2 ^ b) : e ≤ u := by
  have hpow : 2 ^ b * 2 ^ e ≤ 2 ^ b * 2 ^ u :=
    le_trans (Nat.mul_le_mul_right _ hl) (le_trans h (Nat.mul_le_mul_right _ hz))
  exact (Nat.pow_le_pow_iff_right (by decide)).mp (Nat.le_of_mul_le_mul_left hpow (Nat.two_pow_pos b))

/-- A number with few enough significant bits is on the grid. -/
theorem exists_gridUnits {q : Nat} (h : q ≤ 2 ^ (b + 1)) (e : Nat) : ∃ m, gridUnits b m = q * 2 ^ e := by
  induction e generalizing q with
  | zero => exact ⟨q, by rw [gridUnits_small h, Nat.pow_zero, Nat.mul_one]⟩
  | succ e ih =>
    by_cases hq : 2 ^ b ≤ q
    · exact ⟨_, gridUnits_normal hq h⟩
    · obtain ⟨m, hm⟩ := ih (q := 2 * q) (by rw [Nat.pow_succ]; omega)
      exact ⟨m, by rw [hm, Nat.pow_succ]; ring⟩

/-- A magnitude's units have few significant bits. -/
theorem gridUnits_bits (b m : Nat) : ∃ q e, gridUnits b m = q * 2 ^ e ∧ q < 2 ^ (b + 1) := by
  by_cases hm : m < 2 ^ b
  · exact ⟨m, 0, by rw [gridUnits_small (by rw [Nat.pow_succ]; omega), Nat.pow_zero, Nat.mul_one], by
      rw [Nat.pow_succ]; omega⟩
  · obtain ⟨e, q, rfl, hl, hr⟩ := exists_binade (Nat.le_of_not_lt hm)
    exact ⟨q, e, gridUnits_normal hl (Nat.le_of_lt hr), hr⟩

end

/-! ## Ratios -/

section
variable {grid below : Nat → Nat} (hg : StrictMono grid) (hb : ∀ n, Between grid (below n) n) {d : Nat} (hd : 0 < d)
include hg hd

theorem scaled_strictMono : StrictMono fun m => grid m * d := fun _ _ h => Nat.mul_lt_mul_of_pos_right (hg h) hd

include hb

omit hg in
theorem between_ratio (n : Nat) : Between (fun m => grid m * d) (below (n / d)) n := by
  obtain ⟨hl, hr⟩ := hb (n / d)
  constructor
  · exact le_trans (Nat.mul_le_mul_right d hl) (Nat.div_mul_le_self n d)
  · exact (Nat.div_lt_iff_lt_mul hd).mp hr

theorem nearest_ratio_mono {n p : Nat} (h : n ≤ p) :
    nearest (fun m => grid m * d) (below (n / d)) n ≤ nearest (fun m => grid m * d) (below (p / d)) p :=
  nearest_mono (scaled_strictMono hg hd) (between_ratio hb hd n) (between_ratio hb hd p) h

theorem nearest_ratio_exact (m : Nat) :
    nearest (fun m => grid m * d) (below (grid m * d / d)) (grid m * d) = m := by
  have hstrict := scaled_strictMono hg hd
  rw [between_unique hstrict (between_ratio hb hd (grid m * d)) (between_self hstrict m)]
  exact nearest_grid hstrict m

end

end Pulseon
