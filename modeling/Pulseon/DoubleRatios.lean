import Pulseon.DoubleArith
import Pulseon.FloatGrid

/-!
# Products and quotients of doubles

A product or a quotient of finite doubles is a ratio of units that is rounded on
a scaled grid. So both are monotone, and exact where the ratio is a double.
-/

namespace Pulseon

namespace F64

/-! ## Ratios -/

section
variable {d : Nat} (hd : 0 < d)
include hd

theorem roundRatio_mono {n p : Nat} (h : n ≤ p) : roundRatio n d ≤ roundRatio p d := by
  have := nearest_ratio_mono units_strictMono between_below hd h
  unfold roundRatio
  omega

theorem roundRatio_units {m : Nat} (h : m ≤ infinity) : roundRatio (units m * d) d = m := by
  unfold roundRatio
  rw [nearest_ratio_exact units_strictMono between_below hd, Nat.min_eq_left h]

theorem roundRatio_le_of_le {n m : Nat} (hm : m ≤ infinity) (h : n ≤ units m * d) : roundRatio n d ≤ m := by
  have := roundRatio_mono hd h
  rwa [roundRatio_units hd hm] at this

theorem roundRatio_zero : roundRatio 0 d = 0 := by
  have := roundRatio_units hd (m := 0) (Nat.zero_le _)
  rwa [units_zero, Nat.zero_mul] at this

end

theorem roundRatio_le (n d : Nat) : roundRatio n d ≤ infinity := Nat.min_le_right _ _

theorem roundRatio_lt (n d : Nat) : roundRatio n d < 2 ^ 63 := by
  have := roundRatio_le n d
  unfold infinity at this
  omega

/-- The units of the ratio of `n` to `d`. -/
def ratioUnits (n : Int) (d : Nat) : Int := n.sign * units (roundRatio n.natAbs d)

theorem ratioUnits_mono {d : Nat} (hd : 0 < d) {n p : Int} (h : n ≤ p) : ratioUnits n d ≤ ratioUnits p d := by
  have hup : n.natAbs ≤ p.natAbs → units (roundRatio n.natAbs d) ≤ units (roundRatio p.natAbs d) :=
    fun h => units_strictMono.monotone (roundRatio_mono hd h)
  have hdown : p.natAbs ≤ n.natAbs → units (roundRatio p.natAbs d) ≤ units (roundRatio n.natAbs d) :=
    fun h => units_strictMono.monotone (roundRatio_mono hd h)
  unfold ratioUnits
  rcases lt_trichotomy n 0 with hn | rfl | hn <;> rcases lt_trichotomy p 0 with hp | rfl | hp <;>
    simp only [Int.sign_eq_neg_one_of_neg, Int.sign_eq_one_of_pos, Int.sign_zero, *] <;> omega

theorem ratioUnits_zero (d : Nat) : ratioUnits 0 d = 0 := by
  unfold ratioUnits
  rw [Int.sign_zero, Int.zero_mul]

theorem ratioUnits_nonneg {n : Int} {d : Nat} (hd : 0 < d) (h : 0 ≤ n) : 0 ≤ ratioUnits n d := by
  have := ratioUnits_mono hd h
  rwa [ratioUnits_zero] at this

/-- The ratio of a multiple of a double is that double. -/
theorem ratioUnits_exact {d : Nat} (hd : 0 < d) {x : F64} (hx : x.isFinite = true) :
    ratioUnits (x.signedUnits * d) d = x.signedUnits := by
  have hm : x.magnitude ≤ infinity := Nat.le_of_lt (of_decide_eq_true hx)
  unfold ratioUnits
  rw [Int.natAbs_mul, Int.natAbs_natCast, natAbs_signedUnits, roundRatio_units hd hm, Int.sign_mul,
    Int.sign_eq_one_of_pos (Int.natCast_pos.mpr hd), Int.mul_one, ← natAbs_signedUnits, Int.sign_mul_natAbs]

theorem signedUnits_ofMagnitude {negative : Bool} {m : Nat} (h : m < 2 ^ 63) :
    (ofMagnitude negative m).signedUnits = if negative then -(units m : Int) else units m := by
  unfold signedUnits
  rw [magnitude_ofMagnitude h, msb_ofMagnitude h]

theorem isFinite_ofMagnitude {negative : Bool} {m : Nat} (h : m < infinity) :
    (ofMagnitude negative m).isFinite = true := by
  unfold isFinite
  rw [magnitude_ofMagnitude (by unfold infinity at h; omega)]
  exact decide_eq_true h

theorem sign_signedUnits (x : F64) : x.signedUnits.sign = 0 ∧ units x.magnitude = 0 ∨
    x.signedUnits.sign = if x.bits.msb then -1 else 1 := by
  unfold signedUnits
  rcases Nat.eq_zero_or_pos (units x.magnitude) with hz | hp
  · left
    simp [hz]
  · right
    by_cases h : x.bits.msb = true
    · simp only [h, ite_true]
      exact Int.sign_eq_neg_one_of_neg (by omega)
    · simp only [h, Bool.false_eq_true, ite_false]
      exact Int.sign_eq_one_of_pos (by omega)

theorem units_pos {x : F64} (h : 0 < x.signedUnits) : 0 < units x.magnitude := by
  rw [← natAbs_signedUnits]
  omega

theorem magnitude_ne_zero {x : F64} (h : 0 < x.signedUnits) : x.magnitude ≠ 0 := by
  intro hz
  have := units_pos h
  rw [hz, units_zero] at this
  omega

section
variable {x y : F64} (hx : x.isFinite = true) (hy : y.isFinite = true)
include hx hy

theorem mul_of_finite : x.mul y = ofMagnitude (x.bits.msb != y.bits.msb)
    (roundRatio (units x.magnitude * units y.magnitude) unitsPerOne) := by
  simp only [mul, isNan_of_finite hx, isNan_of_finite hy, hx, hy, Bool.or_self, Bool.not_true,
    Bool.false_eq_true, ite_false]

theorem div_of_finite (hz : y.magnitude ≠ 0) : x.div y = ofMagnitude (x.bits.msb != y.bits.msb)
    (roundRatio (units x.magnitude * unitsPerOne) (units y.magnitude)) := by
  simp only [div, isNan_of_finite hx, isNan_of_finite hy, hx, hy, Bool.or_self, Bool.not_true,
    Bool.false_eq_true, ite_false, hz]

theorem signedUnits_mul : (x.mul y).signedUnits = ratioUnits (x.signedUnits * y.signedUnits) unitsPerOne := by
  have hone : 0 < unitsPerOne := Nat.two_pow_pos unitExponent
  rw [mul_of_finite hx hy, signedUnits_ofMagnitude (roundRatio_lt _ _)]
  unfold ratioUnits
  rw [Int.natAbs_mul, natAbs_signedUnits, natAbs_signedUnits, Int.sign_mul]
  rcases sign_signedUnits x with ⟨hs, hu⟩ | hs
  · simp [hs, hu, roundRatio_zero hone, units_zero]
  · rcases sign_signedUnits y with ⟨ht, hu⟩ | ht
    · simp [ht, hu, roundRatio_zero hone, units_zero]
    · rw [hs, ht]
      cases x.bits.msb <;> cases y.bits.msb <;> simp

theorem signedUnits_div (hpos : 0 < y.signedUnits) :
    (x.div y).signedUnits = ratioUnits (x.signedUnits * unitsPerOne) y.signedUnits.natAbs := by
  have hone : 0 < unitsPerOne := Nat.two_pow_pos unitExponent
  have hmsb : y.bits.msb = false := by
    rw [Bool.eq_false_iff]
    intro hs
    unfold signedUnits at hpos
    rw [if_pos hs] at hpos
    omega
  rw [div_of_finite hx hy (magnitude_ne_zero hpos), signedUnits_ofMagnitude (roundRatio_lt _ _), hmsb]
  unfold ratioUnits
  rw [Int.natAbs_mul, Int.natAbs_natCast, natAbs_signedUnits, natAbs_signedUnits, Int.sign_mul,
    Int.sign_eq_one_of_pos (Int.natCast_pos.mpr hone), Int.mul_one]
  rcases sign_signedUnits x with ⟨hs, hux⟩ | hs
  · simp [hs, hux, roundRatio_zero (units_pos hpos), units_zero]
  · rw [hs]
    generalize ((units (roundRatio (units x.magnitude * unitsPerOne) (units y.magnitude)) : Nat) : Int) = u
    cases x.bits.msb <;> simp

theorem isFinite_mul {m : Nat} (hm : m < infinity)
    (h : (x.signedUnits * y.signedUnits).natAbs ≤ units m * unitsPerOne) :
    (x.mul y).isFinite = true := by
  rw [Int.natAbs_mul, natAbs_signedUnits, natAbs_signedUnits] at h
  rw [mul_of_finite hx hy]
  exact isFinite_ofMagnitude
    (Nat.lt_of_le_of_lt (roundRatio_le_of_le (Nat.two_pow_pos unitExponent) (Nat.le_of_lt hm) h) hm)

theorem isFinite_div {m : Nat} (hm : m < infinity) (hpos : 0 < y.signedUnits)
    (h : (x.signedUnits * unitsPerOne).natAbs ≤ units m * y.signedUnits.natAbs) : (x.div y).isFinite = true := by
  rw [Int.natAbs_mul, Int.natAbs_natCast, natAbs_signedUnits, natAbs_signedUnits] at h
  rw [div_of_finite hx hy (magnitude_ne_zero hpos)]
  exact isFinite_ofMagnitude (Nat.lt_of_le_of_lt (roundRatio_le_of_le (units_pos hpos) (Nat.le_of_lt hm) h) hm)

end

end F64

end Pulseon
