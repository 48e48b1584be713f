import Pulseon.DoubleRatios
import Pulseon.Singles

/-!
# Singles and doubles

A single is exact as a double, and a double within the singles is rounded to one
in order. Sums of singles are in order as well.
-/

namespace Pulseon

namespace F32

/-! ## Rounding -/

theorem units_strictMono : StrictMono units := gridUnits_strictMono 23

theorem between_below (n : Nat) : Between units (below n) n := gridUnits_below 23 n

theorem units_zero : units 0 = 0 := rfl

theorem units_eq_zero (m : Nat) : units m = 0 ↔ m = 0 := units_strictMono.injective.eq_iff' units_zero

section
variable {d : Nat} (hd : 0 < d)
include hd

theorem roundRatio_mono {n p : Nat} (h : n ≤ p) : roundRatio n d ≤ roundRatio p d := by
  have := nearest_ratio_mono units_strictMono between_below hd h
  unfold roundRatio
  omega

theorem roundRatio_units {m : Nat} (h : m ≤ infinity) : roundRatio (units m * d) d = m := by
  unfold roundRatio
  rw [nearest_ratio_exact units_strictMono between_below hd, Nat.min_eq_left h]

theorem roundRatio_zero : roundRatio 0 d = 0 := by
  have := roundRatio_units hd (m := 0) (Nat.zero_le _)
  rwa [units_zero, Nat.zero_mul] at this

end

theorem roundRatio_le (n d : Nat) : roundRatio n d ≤ infinity := Nat.min_le_right _ _

/-! ## Magnitudes -/

section
variable {negative : Bool} {m : Nat} (h : m ≤ infinity)
include h

theorem magnitude_ofMagnitude : (ofMagnitude negative m).magnitude = m := by
  unfold infinity at h
  unfold ofMagnitude magnitude
  cases negative <;> simp <;> omega

theorem msb_ofMagnitude : (ofMagnitude negative m).bits.msb = negative := by
  unfold infinity at h
  unfold ofMagnitude
  cases negative <;> simp [BitVec.msb_eq_decide] <;> omega

theorem key_ofMagnitude : (ofMagnitude negative m).key = if negative then -(m : Int) else m := by
  unfold key
  rw [magnitude_ofMagnitude h, msb_ofMagnitude h]

theorem isNan_ofMagnitude : (ofMagnitude negative m).isNan = false := by
  unfold isNan
  rw [magnitude_ofMagnitude h]
  exact decide_eq_false (by omega)

end

theorem natAbs_signedUnits (x : F32) : x.signedUnits.natAbs = units x.magnitude := by
  unfold signedUnits
  split <;> simp

theorem natAbs_key (x : F32) : x.key.natAbs = x.magnitude := by
  unfold key
  split <;> simp

theorem isNan_of_finite {x : F32} (h : x.isFinite = true) : x.isNan = false := by
  unfold isFinite at h
  unfold isNan
  have := of_decide_eq_true h
  exact decide_eq_false (by omega)

theorem signedUnits_mono {x y : F32} (h : x.key ≤ y.key) : x.signedUnits ≤ y.signedUnits := by
  have hup : x.magnitude ≤ y.magnitude → units x.magnitude ≤ units y.magnitude :=
    fun h => units_strictMono.monotone h
  have hdown : y.magnitude ≤ x.magnitude → units y.magnitude ≤ units x.magnitude :=
    fun h => units_strictMono.monotone h
  have hx := units_eq_zero x.magnitude
  have hy := units_eq_zero y.magnitude
  unfold key at h
  unfold signedUnits
  split_ifs at h ⊢ <;> omega

/-! ## Sums and conversions -/

/-- The key of the ratio of `n` to `d`. -/
def ratioKey (n : Int) (d : Nat) : Int := n.sign * roundRatio n.natAbs d

theorem ratioKey_mono {d : Nat} (hd : 0 < d) {n p : Int} (h : n ≤ p) : ratioKey n d ≤ ratioKey p d := by
  have hup : n.natAbs ≤ p.natAbs → roundRatio n.natAbs d ≤ roundRatio p.natAbs d := fun h => roundRatio_mono hd h
  have hdown : p.natAbs ≤ n.natAbs → roundRatio p.natAbs d ≤ roundRatio n.natAbs d := fun h => roundRatio_mono hd h
  unfold ratioKey
  rcases lt_trichotomy n 0 with hn | rfl | hn <;> rcases lt_trichotomy p 0 with hp | rfl | hp <;>
    simp only [Int.sign_eq_neg_one_of_neg, Int.sign_eq_one_of_pos, Int.sign_zero, *] <;> omega

theorem ratioKey_exact {d : Nat} (hd : 0 < d) {x : F32} (hx : x.magnitude ≤ infinity) :
    ratioKey (x.signedUnits * d) d = x.key := by
  have hsign : x.signedUnits.sign = 0 ∧ x.magnitude = 0 ∨ x.signedUnits.sign = if x.bits.msb then -1 else 1 := by
    unfold signedUnits
    rcases Nat.eq_zero_or_pos (units x.magnitude) with hz | hp
    · left
      simp [(units_eq_zero _).mp hz, units_zero]
    · right
      split
      · exact Int.sign_eq_neg_one_of_neg (by omega)
      · exact Int.sign_eq_one_of_pos (by omega)
  unfold ratioKey key
  rw [Int.natAbs_mul, Int.natAbs_natCast, natAbs_signedUnits, roundRatio_units hd hx, Int.sign_mul,
    Int.sign_eq_one_of_pos (Int.natCast_pos.mpr hd), Int.mul_one]
  rcases hsign with ⟨hs, hm⟩ | hs
  · simp [hs, hm]
  · rw [hs]
    cases x.bits.msb <;> simp

theorem doubleUnits_pos : 0 < doubleUnits := Nat.two_pow_pos doubleExponent

theorem pow_regroup {a b c d e : Nat} (h : a + (b + c) = d + e) : 2 ^ a * (2 ^ b * 2 ^ c) = 2 ^ d * 2 ^ e := by
  rw [← Nat.pow_add, ← Nat.pow_add, h, Nat.pow_add]

/-- Where the singles end among the doubles. -/
theorem units_infinity : units infinity * doubleUnits = F64.units (1150 * 2 ^ 52 + 2 ^ 52) := by
  have hs : units infinity = 2 ^ 23 * 2 ^ 254 := gridUnits_normal (b := 23) (e := 254) (Nat.le_refl _) (by decide)
  have hd : F64.units (1150 * 2 ^ 52 + 2 ^ 52) = 2 ^ 52 * 2 ^ 1150 := F64.units_normal (Nat.le_refl _) (by decide)
  rw [hs, Nat.mul_assoc, doubleUnits, pow_regroup (show 23 + (254 + doubleExponent) = 52 + 1150 by decide), hd]

section
variable {x y : F32} (hx : x.isFinite = true) (hy : y.isFinite = true)
include hx

theorem magnitude_le : x.magnitude ≤ infinity := Nat.le_of_lt (of_decide_eq_true hx)

theorem key_eq_ratio : x.key = ratioKey x.signedUnits 1 := by
  have := ratioKey_exact (d := 1) Nat.one_pos (magnitude_le hx)
  rw [← this, Nat.cast_one, Int.mul_one]

/-- A single is a double. -/
theorem signedUnits_toF64 : x.toF64.isFinite = true ∧ x.toF64.signedUnits = x.signedUnits * doubleUnits := by
  obtain ⟨q, e, hq, hbits⟩ := gridUnits_bits 23 x.magnitude
  obtain ⟨m, hm⟩ := exists_gridUnits (b := 52) (show q ≤ 2 ^ (52 + 1) by omega) (e + doubleExponent)
  have hunits : F64.units m = units x.magnitude * doubleUnits := by
    calc F64.units m = q * 2 ^ (e + doubleExponent) := hm
      _ = q * 2 ^ e * 2 ^ doubleExponent := by rw [Nat.pow_add, Nat.mul_assoc]
      _ = units x.magnitude * doubleUnits := by rw [← hq]; rfl
  have hsize : m < F64.infinity := by
    have hmag : x.magnitude < infinity := of_decide_eq_true hx
    have h := Nat.mul_lt_mul_of_pos_right (units_strictMono hmag) doubleUnits_pos
    rw [← hunits, units_infinity] at h
    exact lt_trans (F64.units_strictMono.lt_iff_lt.mp h) (by decide)
  unfold toF64
  simp only [isNan_of_finite hx, hx, Bool.not_true, Bool.false_eq_true, ite_false]
  rw [← hunits, F64.roundUnits_units (Nat.le_of_lt hsize)]
  refine ⟨F64.isFinite_ofMagnitude hsize, ?_⟩
  rw [F64.signedUnits_ofMagnitude (by unfold F64.infinity at hsize; omega), hunits]
  unfold signedUnits
  cases x.bits.msb
  · exact Nat.cast_mul _ _
  · rw [if_pos rfl, if_pos rfl, Nat.cast_mul, Int.neg_mul]

include hy

theorem key_add : (x.add y).key = ratioKey (x.signedUnits + y.signedUnits) 1 ∧ (x.add y).isNan = false := by
  unfold add
  simp only [isNan_of_finite hx, isNan_of_finite hy, hx, hy, Bool.or_self, Bool.not_true,
    Bool.false_eq_true, ite_false]
  split
  · rename_i hz
    rw [hz]
    refine ⟨?_, isNan_ofMagnitude (Nat.zero_le _)⟩
    rw [key_ofMagnitude (Nat.zero_le _)]
    cases x.bits.msb && y.bits.msb <;> rfl
  · refine ⟨?_, isNan_ofMagnitude (roundRatio_le _ _)⟩
    rw [key_ofMagnitude (roundRatio_le _ _)]
    unfold ratioKey
    rcases lt_trichotomy (x.signedUnits + y.signedUnits) 0 with h | h | h
    · simp [h, Int.sign_eq_neg_one_of_neg h]
    · contradiction
    · simp [Int.sign_eq_one_of_pos h, Int.not_lt.mpr (Int.le_of_lt h)]

end

theorem key_ofF64 {x : F64} (hx : x.isFinite = true) :
    (ofF64 x).key = ratioKey x.signedUnits doubleUnits ∧ (ofF64 x).isNan = false := by
  unfold ofF64
  simp only [F64.isNan_of_finite hx, hx, Bool.not_true, Bool.false_eq_true, ite_false]
  refine ⟨?_, isNan_ofMagnitude (roundRatio_le _ _)⟩
  rw [key_ofMagnitude (roundRatio_le _ _)]
  unfold ratioKey
  rw [F64.natAbs_signedUnits]
  rcases F64.sign_signedUnits x with ⟨hs, hu⟩ | hs
  · simp [hs, hu, roundRatio_zero doubleUnits_pos]
  · rw [hs]
    cases x.bits.msb <;> simp

end F32

end Pulseon
