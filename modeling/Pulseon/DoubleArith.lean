import Pulseon.Doubles
import Pulseon.Rounding

/-!
# Arithmetic on doubles

The operations of `f64` that the viewer and the chart core use: `+`, `-`, `*` and
`/`, `next_up` and `next_down`, `floor` and `ceil`, and the casts from and to
`i64`. Finite doubles are combined exactly, as multiples of the least positive
one, and the result is rounded.
-/

namespace Pulseon

namespace F64

/-! ## Rounding -/

def ofMagnitude (negative : Bool) (magnitude : Nat) : F64 :=
  ⟨BitVec.ofNat 64 (if negative then 0x8000000000000000 + magnitude else magnitude)⟩

/-- The greatest magnitude of at most `n` units. -/
def below (n : Nat) : Nat :=
  let e := n.log2 - 52
  e * 2 ^ 52 + n / 2 ^ e

/-- From the greatest finite double on, rounding ends in infinity. -/
def roundUnits (n : Nat) : Nat := min (nearest units (below n) n) infinity

def ofUnits (n : Int) : F64 := ofMagnitude (decide (n < 0)) (roundUnits n.natAbs)

/-- The multiple of the least positive double that a finite double is. -/
def signedUnits (x : F64) : Int := if x.bits.msb then -(units x.magnitude : Int) else units x.magnitude

def unitExponent : Nat := 1074

def unitsPerOne : Nat := 2 ^ unitExponent

/-! ## Operations -/

def nan : F64 := ⟨0x7ff8000000000000⟩

def one : F64 := ⟨0x3ff0000000000000⟩

def neg (x : F64) : F64 := ofMagnitude (!x.bits.msb) x.magnitude

/-- `as f64` of an integer -/
def ofInt (n : Int) : F64 := ofUnits (n * unitsPerOne)

def add (x y : F64) : F64 :=
  if x.isNan || y.isNan then nan
  else if !x.isFinite then (if !y.isFinite && x.bits.msb != y.bits.msb then nan else x)
  else if !y.isFinite then y
  else if x.signedUnits + y.signedUnits = 0 then ofMagnitude (x.bits.msb && y.bits.msb) 0
  else ofUnits (x.signedUnits + y.signedUnits)

def sub (x y : F64) : F64 := x.add y.neg

/-- The magnitude of `n / d` units. -/
def roundRatio (n d : Nat) : Nat := min (nearest (fun m => units m * d) (below (n / d)) n) infinity

def mul (x y : F64) : F64 :=
  let negative := x.bits.msb != y.bits.msb
  if x.isNan || y.isNan then nan
  else if !x.isFinite || !y.isFinite then
    if x.magnitude = 0 ∨ y.magnitude = 0 then nan else ofMagnitude negative infinity
  else ofMagnitude negative (roundRatio (units x.magnitude * units y.magnitude) unitsPerOne)

def div (x y : F64) : F64 :=
  let negative := x.bits.msb != y.bits.msb
  if x.isNan || y.isNan then nan
  else if !x.isFinite then if y.isFinite then ofMagnitude negative infinity else nan
  else if !y.isFinite then ofMagnitude negative 0
  else if y.magnitude = 0 then if x.magnitude = 0 then nan else ofMagnitude negative infinity
  else ofMagnitude negative (roundRatio (units x.magnitude * unitsPerOne) (units y.magnitude))

/-- `<` -/
def lt (x y : F64) : Bool := !x.isNan && !y.isNan && decide (x.key < y.key)

/-- `<=` -/
def le (x y : F64) : Bool := !x.isNan && !y.isNan && decide (x.key ≤ y.key)

def nextUp (x : F64) : F64 :=
  if x.isNan || x == ofMagnitude false infinity then x
  else if x.magnitude = 0 then ofMagnitude false 1
  else if x.bits.msb then ofMagnitude true (x.magnitude - 1)
  else ofMagnitude false (x.magnitude + 1)

def nextDown (x : F64) : F64 :=
  if x.isNan || x == ofMagnitude true infinity then x
  else if x.magnitude = 0 then ofMagnitude true 1
  else if x.bits.msb then ofMagnitude true (x.magnitude + 1)
  else ofMagnitude false (x.magnitude - 1)

/-- The integral double of the sign of `x`. -/
def integral (x : F64) (n : Int) : F64 := if n = 0 then ofMagnitude x.bits.msb 0 else ofInt n

def floor (x : F64) : F64 := if x.isFinite then x.integral (x.signedUnits.fdiv unitsPerOne) else x

def ceil (x : F64) : F64 := if x.isFinite then x.integral (-(-x.signedUnits).fdiv unitsPerOne) else x

/-- `as i64`: towards zero and into the range, `NaN` to zero. -/
def toI64 (x : F64) : Int :=
  if x.isNan then 0 else max (-0x8000000000000000) (min (x.signedUnits.tdiv unitsPerOne) 0x7fffffffffffffff)

/-! ## Rounding on the units -/

theorem units_normal {e q : Nat} (hl : 2 ^ 52 ≤ q) (hr : q ≤ 2 ^ 53) : units (e * 2 ^ 52 + q) = q * 2 ^ e := by
  unfold units
  have hm : ¬ e * 2 ^ 52 + q < 2 ^ 52 := by omega
  rw [if_neg hm]
  by_cases htop : q = 2 ^ 53
  · have hmod : (e * 2 ^ 52 + q) % 2 ^ 52 = 0 := by omega
    have hdiv : (e * 2 ^ 52 + q) / 2 ^ 52 = e + 2 := by omega
    rw [hmod, hdiv, htop, Nat.add_zero, show e + 2 - 1 = e + 1 by omega, Nat.pow_succ 2 e, Nat.pow_succ 2 52,
      Nat.mul_assoc, Nat.mul_comm 2]
  · have hmod : (e * 2 ^ 52 + q) % 2 ^ 52 = q - 2 ^ 52 := by omega
    have hdiv : (e * 2 ^ 52 + q) / 2 ^ 52 = e + 1 := by omega
    rw [hmod, hdiv, Nat.add_sub_cancel, Nat.add_sub_cancel' hl]

theorem units_small {m : Nat} (h : m ≤ 2 ^ 53) : units m = m := by
  by_cases hm : m < 2 ^ 52
  · unfold units; rw [if_pos hm]
  · have := @units_normal 0 m (by omega) h
    simpa using this

theorem between_below (n : Nat) : Between units (below n) n := by
  unfold below
  by_cases hsmall : n < 2 ^ 53
  · have he : n.log2 - 52 = 0 := by
      by_cases hz : n = 0
      · simp [hz]
      · have := (Nat.log2_lt hz).mpr hsmall
        omega
    rw [he]
    simp only [Nat.zero_mul, Nat.pow_zero, Nat.div_one, Nat.zero_add]
    unfold Between
    rw [units_small (by omega), units_small (by omega)]
    omega
  · have hn : n ≠ 0 := by omega
    have hlog : 53 ≤ n.log2 := (Nat.le_log2 hn).mpr (by omega)
    obtain ⟨e, he⟩ : ∃ e, n.log2 = 52 + e := ⟨n.log2 - 52, by omega⟩
    rw [show n.log2 - 52 = e by omega]
    have hlo : 2 ^ 52 ≤ n / 2 ^ e := by
      rw [Nat.le_div_iff_mul_le (Nat.two_pow_pos e), ← Nat.pow_add, ← he]
      exact Nat.log2_self_le hn
    have hhi : n / 2 ^ e < 2 ^ 53 := by
      rw [Nat.div_lt_iff_lt_mul (Nat.two_pow_pos e), ← Nat.pow_add, show 53 + e = n.log2 + 1 by omega]
      exact Nat.lt_log2_self
    unfold Between
    rw [Nat.add_assoc, units_normal hlo (by omega), units_normal (by omega) (by omega)]
    constructor
    · exact Nat.div_mul_le_self n (2 ^ e)
    · rw [Nat.mul_comm]
      exact Nat.lt_mul_div_succ n (Nat.two_pow_pos e)

theorem below_units (m : Nat) : below (units m) = m :=
  between_unique units_strictMono (between_below _) (between_self units_strictMono m)

theorem roundUnits_mono {n p : Nat} (h : n ≤ p) : roundUnits n ≤ roundUnits p := by
  have := nearest_mono units_strictMono (between_below n) (between_below p) h
  unfold roundUnits
  omega

theorem roundUnits_units {m : Nat} (h : m ≤ infinity) : roundUnits (units m) = m := by
  unfold roundUnits
  rw [below_units, nearest_grid units_strictMono, Nat.min_eq_left h]

theorem roundUnits_le (n : Nat) : roundUnits n ≤ infinity := Nat.min_le_right _ _

theorem roundUnits_le_of_le {n m : Nat} (hm : m ≤ infinity) (h : n ≤ units m) : roundUnits n ≤ m := by
  have := roundUnits_mono h
  rwa [roundUnits_units hm] at this

/-! ## Signs -/

theorem magnitude_ofMagnitude {negative : Bool} {m : Nat} (h : m < 2 ^ 63) :
    (ofMagnitude negative m).magnitude = m := by
  unfold ofMagnitude magnitude
  cases negative <;> simp <;> omega

theorem msb_ofMagnitude {negative : Bool} {m : Nat} (h : m < 2 ^ 63) :
    (ofMagnitude negative m).bits.msb = negative := by
  unfold ofMagnitude
  cases negative <;> simp [BitVec.msb_eq_decide] <;> omega

theorem roundUnits_lt (n : Nat) : roundUnits n < 2 ^ 63 := by
  have := roundUnits_le n
  unfold infinity at this
  omega

theorem natAbs_signedUnits (x : F64) : x.signedUnits.natAbs = units x.magnitude := by
  unfold signedUnits
  split <;> simp

theorem signedUnits_ofUnits (n : Int) :
    (ofUnits n).signedUnits = if n < 0 then -(units (roundUnits n.natAbs) : Int) else units
    (roundUnits n.natAbs) := by
  unfold ofUnits signedUnits
  rw [magnitude_ofMagnitude (roundUnits_lt _), msb_ofMagnitude (roundUnits_lt _)]
  by_cases h : n < 0 <;> simp [h]

theorem isFinite_ofUnits {n : Int} {m : Nat} (hm : m < infinity) (h : n.natAbs ≤ units m) :
    (ofUnits n).isFinite = true := by
  have := roundUnits_le_of_le (Nat.le_of_lt hm) h
  unfold ofUnits isFinite
  rw [magnitude_ofMagnitude (roundUnits_lt _)]
  exact decide_eq_true (by omega)

theorem ofUnits_mono {a b : Int} (h : a ≤ b) : (ofUnits a).signedUnits ≤ (ofUnits b).signedUnits := by
  rw [signedUnits_ofUnits, signedUnits_ofUnits]
  have hup : a.natAbs ≤ b.natAbs → units (roundUnits a.natAbs) ≤ units (roundUnits b.natAbs) :=
    fun h => units_strictMono.monotone (roundUnits_mono h)
  have hdown : b.natAbs ≤ a.natAbs → units (roundUnits b.natAbs) ≤ units (roundUnits a.natAbs) :=
    fun h => units_strictMono.monotone (roundUnits_mono h)
  split_ifs <;> omega

/-- Rounding leaves the finite doubles where they are. -/
theorem ofUnits_signedUnits {x : F64} (hx : x.isFinite = true) :
    (ofUnits x.signedUnits).signedUnits = x.signedUnits := by
  have hm : x.magnitude ≤ infinity := Nat.le_of_lt (of_decide_eq_true hx)
  rw [signedUnits_ofUnits]
  unfold signedUnits
  by_cases h : x.bits.msb = true
  · simp only [h, ite_true, Int.natAbs_neg, Int.natAbs_natCast, roundUnits_units hm]
    split_ifs <;> omega
  · simp only [h, Bool.false_eq_true, ite_false, Int.natAbs_natCast, roundUnits_units hm]
    split_ifs <;> omega

section
variable {x y : F64} (hx : x.isFinite = true) (hy : y.isFinite = true)
include hx hy

theorem signedUnits_lt_iff : x.signedUnits < y.signedUnits ↔ x.key < y.key := by
  rw [← value_lt_iff hx hy, value_eq, value_eq, div_lt_div_iff_of_pos_right (by positivity), Int.cast_lt]
  rfl

theorem lt_iff : x.lt y = true ↔ x.signedUnits < y.signedUnits := by
  rw [signedUnits_lt_iff hx hy]
  simp [lt, isNan_of_finite hx, isNan_of_finite hy]

theorem le_iff : x.le y = true ↔ x.signedUnits ≤ y.signedUnits := by
  have h := signedUnits_lt_iff hy hx
  simp only [le, isNan_of_finite hx, isNan_of_finite hy, Bool.not_false, Bool.true_and, decide_eq_true_eq]
  omega

end

/-! ## Differences -/

theorem magnitude_neg (x : F64) : x.neg.magnitude = x.magnitude := magnitude_ofMagnitude x.magnitude_lt

theorem msb_neg (x : F64) : x.neg.bits.msb = !x.bits.msb := msb_ofMagnitude x.magnitude_lt

theorem isFinite_neg (x : F64) : x.neg.isFinite = x.isFinite := by
  unfold isFinite
  rw [magnitude_neg]

theorem signedUnits_neg (x : F64) : x.neg.signedUnits = -x.signedUnits := by
  unfold signedUnits
  rw [magnitude_neg, msb_neg]
  by_cases h : x.bits.msb = true <;> simp [h]

theorem signedUnits_zero (negative : Bool) : (ofMagnitude negative 0).signedUnits = 0 := by
  cases negative <;> rfl

theorem signedUnits_ofUnits_zero : (ofUnits 0).signedUnits = 0 := by decide +kernel

section
variable {x y : F64} (hx : x.isFinite = true) (hy : y.isFinite = true)
include hx hy

/-- The exact difference is rounded. -/
theorem sub_of_finite :
    x.sub y = ofUnits (x.signedUnits - y.signedUnits) ∨
      x.signedUnits = y.signedUnits ∧ ∃ negative, x.sub y = ofMagnitude negative 0 := by
  have hy' : y.neg.isFinite = true := by rw [isFinite_neg, hy]
  unfold sub add
  simp only [isNan_of_finite hx, isNan_of_finite hy', hx, hy', Bool.or_self, Bool.not_true, Bool.false_eq_true,
    ite_false, signedUnits_neg]
  by_cases h : x.signedUnits + -y.signedUnits = 0
  · rw [if_pos h]
    exact Or.inr ⟨by omega, _, rfl⟩
  · rw [if_neg h]
    exact Or.inl rfl

theorem signedUnits_sub : (x.sub y).signedUnits = (ofUnits (x.signedUnits - y.signedUnits)).signedUnits := by
  obtain h | ⟨h, negative, hz⟩ := sub_of_finite hx hy
  · rw [h]
  · rw [hz, h, Int.sub_self, signedUnits_zero, signedUnits_ofUnits_zero]

theorem isFinite_sub {m : Nat} (hm : m < infinity) (h : (x.signedUnits - y.signedUnits).natAbs ≤ units m) :
    (x.sub y).isFinite = true := by
  obtain hs | ⟨-, negative, hz⟩ := sub_of_finite hx hy
  · rw [hs]
    exact isFinite_ofUnits hm h
  · rw [hz]
    cases negative <;> rfl

end

/-! ## Neighbours -/

theorem key_ofMagnitude {negative : Bool} {m : Nat} (h : m ≤ infinity) :
    (ofMagnitude negative m).key = if negative then -(m : Int) else m := by
  have hm : m < 2 ^ 63 := by unfold infinity at h; omega
  have hn : (ofMagnitude negative m).isNan = false := by
    unfold isNan
    rw [magnitude_ofMagnitude hm]
    unfold infinity at h
    exact decide_eq_false (by omega)
  unfold key
  rw [hn, msb_ofMagnitude hm, magnitude_ofMagnitude hm]
  simp

theorem ne_infinity {x : F64} (hx : x.isFinite = true) (negative : Bool) :
    (x == ofMagnitude negative infinity) = false := by
  rw [beq_eq_false_iff_ne]
  intro e
  rw [e] at hx
  unfold isFinite at hx
  rw [magnitude_ofMagnitude (by decide)] at hx
  simp at hx

theorem key_nextUp {x : F64} (hx : x.isFinite = true) : x.nextUp.key = x.key + 1 := by
  have hm : x.magnitude < infinity := of_decide_eq_true hx
  rw [key_of_finite hx]
  unfold nextUp
  simp only [isNan_of_finite hx, ne_infinity hx, Bool.or_self, Bool.false_eq_true, ite_false]
  by_cases hz : x.magnitude = 0
  · rw [if_pos hz, key_ofMagnitude (by decide), hz]
    simp
  · rw [if_neg hz]
    by_cases hs : x.bits.msb = true
    · rw [if_pos hs, if_pos hs, key_ofMagnitude (by omega)]
      simp only [ite_true]; omega
    · rw [if_neg hs, if_neg hs, key_ofMagnitude (by omega)]
      simp

end F64

end Pulseon
