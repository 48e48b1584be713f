import Mathlib.Algebra.Order.Field.Rat
import Mathlib.Order.Monotone.Basic
import Mathlib.Tactic.Ring
import Mathlib.Tactic.Positivity
import Pulseon.Model

/-!
# Doubles as numbers

A finite double is a multiple of the least positive one. The magnitude of the
bits counts these multiples in order, so on finite doubles the exact value, the
database's order and `total_cmp` agree up to the sign of zero.
-/

namespace Pulseon

namespace F64

def infinity : Nat := 0x7ff0000000000000

def isFinite (x : F64) : Bool := decide (x.magnitude < infinity)

/-- `==` -/
def eq (x y : F64) : Bool := !x.isNan && !y.isNan && decide (x.key = y.key)

/-- `total_cmp` compares the bits as sign and magnitude. -/
def totalOrder (x : F64) : Int := if x.bits.msb then -(x.magnitude : Int) - 1 else x.magnitude

def totalCmp (x y : F64) : Ordering := compare x.totalOrder y.totalOrder

/-! ## Order -/

theorem magnitude_lt (x : F64) : x.magnitude < 2 ^ 63 := Nat.mod_lt _ (by decide)

theorem isFinite_iff (x : F64) : x.isFinite = true ↔ -(infinity : Int) < x.key ∧ x.key < infinity := by
  unfold isFinite key isNan infinity
  have := x.magnitude_lt
  simp only [decide_eq_true_eq]
  constructor
  · intro h
    have hn : ¬ 0x7ff0000000000000 < x.magnitude := by omega
    simp only [hn, ite_false]
    split <;> omega
  · by_cases hn : 0x7ff0000000000000 < x.magnitude
    · simp only [hn, ite_true]; omega
    · simp only [hn, ite_false]
      split <;> omega

theorem isFinite_congr {x y : F64} (h : x.key = y.key) : x.isFinite = y.isFinite := by
  rw [Bool.eq_iff_iff, isFinite_iff, isFinite_iff, h]

theorem nonFinite_iff (x : F64) : x.isFinite = false ↔ x.key ≤ -(infinity : Int) ∨ (infinity : Int) ≤ x.key := by
  rw [Bool.eq_false_iff, ne_eq, isFinite_iff]
  omega

section
variable {x y : F64} (hx : x.isFinite = true) (hy : y.isFinite = true)

theorem isNan_of_finite (hx : x.isFinite = true) : x.isNan = false := by
  unfold isFinite infinity at hx
  unfold isNan
  have := of_decide_eq_true hx
  exact decide_eq_false (by omega)

theorem key_of_finite (hx : x.isFinite = true) :
    x.key = if x.bits.msb then -(x.magnitude : Int) else x.magnitude := by
  simp [key, isNan_of_finite hx]

include hx hy

theorem eq_iff : x.eq y = true ↔ x.key = y.key := by
  simp [eq, isNan_of_finite hx, isNan_of_finite hy]

/-- Doubles that are not equal are compared by value. -/
theorem totalCmp_of_ne (h : x.key ≠ y.key) : x.totalCmp y = compare x.key y.key := by
  have hlt : x.totalOrder < y.totalOrder ↔ x.key < y.key := by
    rw [key_of_finite hx, key_of_finite hy] at h ⊢
    unfold totalOrder
    by_cases hsx : x.bits.msb = true <;> by_cases hsy : y.bits.msb = true <;>
      simp only [hsx, hsy, Bool.false_eq_true, ite_true, ite_false] at h ⊢ <;> omega
  have heq : x.totalOrder = y.totalOrder ↔ x.key = y.key := by
    refine ⟨fun e => ?_, fun e => absurd e h⟩
    rw [key_of_finite hx, key_of_finite hy]
    unfold totalOrder at e
    by_cases hsx : x.bits.msb = true <;> by_cases hsy : y.bits.msb = true <;>
      simp only [hsx, hsy, Bool.false_eq_true, ite_true, ite_false] at e ⊢ <;> omega
  unfold totalCmp
  simp only [compare, compareOfLessAndEq, hlt, heq]

end

/-! ## Value -/

/-- The multiple of the least positive double that a magnitude stands for. -/
def units (magnitude : Nat) : Nat :=
  if magnitude < 2 ^ 52 then magnitude else (2 ^ 52 + magnitude % 2 ^ 52) * 2 ^ (magnitude / 2 ^ 52 - 1)

/-- The exact value of a finite double. -/
def value (x : F64) : ℚ := (if x.bits.msb then -(units x.magnitude : ℚ) else units x.magnitude) / 2 ^ 1074

theorem units_lt_succ (m : Nat) : units m < units (m + 1) := by
  unfold units
  by_cases hsub : m + 1 < 2 ^ 52
  · have : m < 2 ^ 52 := by omega
    simp only [hsub, this, ite_true]; omega
  · by_cases hlast : m < 2 ^ 52
    · have hm : m + 1 = 2 ^ 52 := by omega
      simp only [hm, hlast, ite_true, Nat.lt_irrefl, ite_false]
      norm_num
      omega
    · simp only [hsub, hlast, ite_false]
      by_cases hcarry : (m + 1) % 2 ^ 52 = 0
      · -- the exponent goes up by one, from the greatest fraction to zero
        have hdiv : (m + 1) / 2 ^ 52 = m / 2 ^ 52 + 1 := by omega
        have hmod : m % 2 ^ 52 = 2 ^ 52 - 1 := by omega
        have hpos : 0 < m / 2 ^ 52 := by omega
        obtain ⟨e, he⟩ : ∃ e, m / 2 ^ 52 = e + 1 := ⟨m / 2 ^ 52 - 1, by omega⟩
        have hpow : 2 ^ (e + 1) = 2 ^ e * 2 := Nat.pow_succ ..
        have := Nat.two_pow_pos e
        rw [hcarry, hdiv, hmod, he, Nat.add_sub_cancel, Nat.add_sub_cancel, hpow]
        omega
      · have hdiv : (m + 1) / 2 ^ 52 = m / 2 ^ 52 := by omega
        have hmod : (m + 1) % 2 ^ 52 = m % 2 ^ 52 + 1 := by omega
        rw [hdiv, hmod]
        exact Nat.mul_lt_mul_of_pos_right (by omega) (Nat.two_pow_pos _)

theorem units_strictMono : StrictMono units := strictMono_nat_of_lt_succ units_lt_succ

theorem units_zero : units 0 = 0 := rfl

section
variable {x y : F64} (hx : x.isFinite = true) (hy : y.isFinite = true)

theorem value_eq (x : F64) :
    x.value = ((if x.bits.msb then -(units x.magnitude : Int) else units x.magnitude : Int) : ℚ) / 2 ^ 1074 := by
  unfold value
  by_cases h : x.bits.msb = true <;> simp [h]

include hx hy

/-- Values are ordered as the database orders the doubles. -/
theorem value_lt_iff : x.value < y.value ↔ x.key < y.key := by
  rw [value_eq, value_eq, div_lt_div_iff_of_pos_right (by positivity), Int.cast_lt, key_of_finite hx,
    key_of_finite hy]
  have hlt := @units_strictMono.lt_iff_lt
  have hzero : ∀ m, units m = 0 ↔ m = 0 := fun m => units_strictMono.injective.eq_iff' units_zero
  have hm := hzero x.magnitude
  have hn := hzero y.magnitude
  have hxy := @hlt x.magnitude y.magnitude
  have hyx := @hlt y.magnitude x.magnitude
  by_cases hsx : x.bits.msb = true <;> by_cases hsy : y.bits.msb = true <;>
    simp only [hsx, hsy, Bool.false_eq_true, ite_true, ite_false] <;> omega

theorem value_eq_iff : x.value = y.value ↔ x.key = y.key := by
  have h := value_lt_iff hx hy
  have h' := value_lt_iff hy hx
  constructor
  · intro e
    rw [e] at h h'
    simp only [lt_irrefl, false_iff] at h h'
    omega
  · intro e
    rw [e] at h h'
    simp only [lt_irrefl, iff_false, not_lt] at h h'
    exact le_antisymm h' h

end

end F64

end Pulseon
