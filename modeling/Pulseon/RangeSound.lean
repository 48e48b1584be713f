import Pulseon.Curves

/-!
# Rendered integers and brushable ranges

The `f64` of an `i64` is the nearest double, an integer. `brushable_range`
widens every range to one axis unit once it is rendered, except where both ends
are rendered as two to the power of 63 and the right one is not the greatest
`i64`: then the next double saturates to an `i64` that is rendered the same.
-/

namespace Pulseon

namespace F64

/-! ## Integers -/

def integerLimit : Nat := 0x10000000000000000

theorem unitsPerOne_pos : 0 < unitsPerOne := Nat.two_pow_pos unitExponent

theorem pow_mul_units (e : Nat) : 2 ^ (e + unitExponent) = 2 ^ e * unitsPerOne := Nat.pow_add 2 e unitExponent

theorem natAbs_mul_units (n : Int) : (n * unitsPerOne).natAbs = n.natAbs * unitsPerOne := by
  rw [Int.natAbs_mul, Int.natAbs_natCast]

/-- Below the 54th bit every integer is a double. -/
theorem exists_units {a : Nat} (h : a < 2 ^ 53) : ∃ m, m < infinity ∧ units m = a * unitsPerOne := by
  by_cases hz : a = 0
  · exact ⟨0, by decide, by rw [hz, units_zero, Nat.zero_mul]⟩
  · have hlog : a.log2 ≤ 52 := by
      have := (Nat.log2_lt hz).mpr h
      omega
    obtain ⟨k, hk⟩ : ∃ k, a.log2 + k = 52 := ⟨52 - a.log2, by omega⟩
    have hlo : 2 ^ 52 ≤ a * 2 ^ k := by
      rw [← hk, Nat.pow_add]
      exact Nat.mul_le_mul_right _ (Nat.log2_self_le hz)
    have hhi : a * 2 ^ k ≤ 2 ^ 53 := by
      rw [show 53 = a.log2 + 1 + k by omega, Nat.pow_add 2 (a.log2 + 1)]
      exact Nat.mul_le_mul_right _ (Nat.le_of_lt Nat.lt_log2_self)
    refine ⟨(unitExponent - k) * 2 ^ 52 + a * 2 ^ k, ?_, ?_⟩
    · unfold infinity unitExponent; omega
    · have hexp : k + (unitExponent - k) = unitExponent := by unfold unitExponent; omega
      rw [units_normal hlo hhi, Nat.mul_assoc, ← Nat.pow_add, hexp, unitsPerOne]

def nearestNat (a : Nat) : Nat :=
  let unit := 2 ^ (a.log2 + 1 - 53)
  (a / unit + if unit < 2 * (a % unit) ∨ unit = 2 * (a % unit) ∧ a / unit % 2 = 1 then 1 else 0) * unit

theorem nearestDouble_eq (n : Int) : nearestDouble n = n.sign * nearestNat n.natAbs := by
  unfold nearestDouble nearestNat
  simp only [Bool.or_eq_true, decide_eq_true_eq, Bool.and_eq_true, beq_iff_eq]

theorem nearestNat_small {a : Nat} (h : a < 2 ^ 53) : nearestNat a = a := by
  have he : a.log2 + 1 - 53 = 0 := by
    by_cases hz : a = 0
    · simp [hz]
    · have := (Nat.log2_lt hz).mpr h
      omega
  simp [nearestNat, he, Nat.mod_one]

/-- Rounding in units is rounding to a multiple of a power of two. -/
theorem units_roundUnits {a : Nat} (h : a ≤ integerLimit) :
    units (roundUnits (a * unitsPerOne)) = nearestNat a * unitsPerOne := by
  by_cases hsmall : a < 2 ^ 53
  · obtain ⟨m, hm, hu⟩ := exists_units hsmall
    rw [nearestNat_small hsmall, ← hu, roundUnits_units (Nat.le_of_lt hm)]
  · have hz : a ≠ 0 := by omega
    have hlog : 53 ≤ a.log2 := (Nat.le_log2 hz).mpr (by omega)
    have htop : a.log2 < 65 := (Nat.log2_lt hz).mpr (by unfold integerLimit at h; omega)
    obtain ⟨e, he⟩ : ∃ e, a.log2 = 52 + e := ⟨a.log2 - 52, by omega⟩
    have hlo : 2 ^ 52 ≤ a / 2 ^ e := by
      rw [Nat.le_div_iff_mul_le (Nat.two_pow_pos e), ← Nat.pow_add, ← he]
      exact Nat.log2_self_le hz
    have hhi : a / 2 ^ e < 2 ^ 53 := by
      rw [Nat.div_lt_iff_lt_mul (Nat.two_pow_pos e), ← Nat.pow_add, show 53 + e = a.log2 + 1 by omega]
      exact Nat.lt_log2_self
    have hsplit : a = a / 2 ^ e * 2 ^ e + a % 2 ^ e := (Nat.div_add_mod' a (2 ^ e)).symm
    have hrest : a % 2 ^ e < 2 ^ e := Nat.mod_lt _ (Nat.two_pow_pos e)
    unfold nearestNat
    rw [show a.log2 + 1 - 53 = e by omega]
    dsimp only
    generalize a / 2 ^ e = q at hlo hhi hsplit ⊢
    generalize a % 2 ^ e = r at hsplit hrest ⊢
    have hm : units ((e + unitExponent) * 2 ^ 52 + q) = q * (2 ^ e * unitsPerOne) := by
      rw [units_normal hlo (by omega), pow_mul_units]
    have hm' : units ((e + unitExponent) * 2 ^ 52 + q + 1) = (q + 1) * (2 ^ e * unitsPerOne) := by
      rw [Nat.add_assoc, units_normal (by omega) (by omega), pow_mul_units]
    have ha : a * unitsPerOne = q * (2 ^ e * unitsPerOne) + r * unitsPerOne := by
      rw [hsplit]; ring
    have hlt : r * unitsPerOne < 2 ^ e * unitsPerOne := Nat.mul_lt_mul_of_pos_right hrest unitsPerOne_pos
    have hb : Between units ((e + unitExponent) * 2 ^ 52 + q) (a * unitsPerOne) := by
      unfold Between
      rw [hm, hm', ha, Nat.add_mul, Nat.one_mul]
      omega
    have hbelow := between_unique units_strictMono (between_below _) hb
    have hdown : a * unitsPerOne - units ((e + unitExponent) * 2 ^ 52 + q) = r * unitsPerOne := by
      rw [hm, ha]; omega
    have hup : units ((e + unitExponent) * 2 ^ 52 + q + 1) - a * unitsPerOne = (2 ^ e - r) * unitsPerOne := by
      rw [hm', ha, Nat.add_mul, Nat.one_mul, Nat.sub_mul]; omega
    have hfit : (e + unitExponent) * 2 ^ 52 + q + 1 ≤ infinity := by unfold infinity unitExponent; omega
    unfold roundUnits nearest
    rw [hbelow, hdown, hup]
    simp only [Nat.mul_lt_mul_right unitsPerOne_pos]
    have heven : ((e + unitExponent) * 2 ^ 52 + q) % 2 = q % 2 := by omega
    rw [heven]
    have hfit' : (e + unitExponent) * 2 ^ 52 + q ≤ infinity := Nat.le_of_succ_le hfit
    by_cases h1 : r < 2 ^ e - r
    · rw [if_pos h1, Nat.min_eq_left hfit', hm, if_neg (by omega), Nat.add_zero, Nat.mul_assoc]
    · rw [if_neg h1]
      by_cases h2 : 2 ^ e - r < r
      · rw [if_pos h2, Nat.min_eq_left hfit, hm', if_pos (by omega), Nat.mul_assoc]
      · rw [if_neg h2]
        by_cases h3 : q % 2 = 0
        · rw [if_pos h3, Nat.min_eq_left hfit', hm, if_neg (by omega), Nat.add_zero, Nat.mul_assoc]
        · rw [if_neg h3, Nat.min_eq_left hfit, hm', if_pos (by omega), Nat.mul_assoc]

/-- The cast rounds to the nearest double, as the database's does. -/
theorem signedUnits_ofInt {n : Int} (h : n.natAbs ≤ integerLimit) :
    (ofInt n).signedUnits = nearestDouble n * unitsPerOne := by
  unfold ofInt
  rw [signedUnits_ofUnits, natAbs_mul_units, units_roundUnits h, nearestDouble_eq, Nat.cast_mul]
  have hpos : (0 : Int) < unitsPerOne := Int.natCast_pos.mpr unitsPerOne_pos
  rcases Int.lt_trichotomy n 0 with hn | hn | hn
  · rw [if_pos (Int.mul_neg_of_neg_of_pos hn hpos), Int.sign_eq_neg_one_of_neg hn, Int.neg_mul, Int.neg_mul,
      Int.one_mul]
  · subst hn
    rw [Int.zero_mul, if_neg (Int.lt_irrefl 0), Int.sign_zero, Int.zero_mul, Int.zero_mul, Int.natAbs_zero,
      nearestNat_small (by decide), Nat.cast_zero, Int.zero_mul]
  · rw [if_neg (Int.not_lt.mpr (Int.le_of_lt (Int.mul_pos hn hpos))), Int.sign_eq_one_of_pos hn, Int.one_mul]

theorem units_limit : units (1087 * 2 ^ 52) = integerLimit * unitsPerOne := by
  rw [show 1087 * 2 ^ 52 =
    (12 + unitExponent) * 2 ^ 52 + 2 ^ 52 by decide, units_normal (Nat.le_refl _) (by decide),
    pow_mul_units, ← Nat.mul_assoc, show 2 ^ 52 * 2 ^ 12 = integerLimit by decide]

theorem natAbs_le_units {n : Int} (h : n.natAbs ≤ integerLimit) :
    (n * unitsPerOne).natAbs ≤ units (1087 * 2 ^ 52) := by
  rw [natAbs_mul_units, units_limit]
  exact Nat.mul_le_mul_right _ h

theorem isFinite_ofInt {n : Int} (h : n.natAbs ≤ integerLimit) : (ofInt n).isFinite = true :=
  isFinite_ofUnits (by decide) (natAbs_le_units h)

section
variable {a b : Int} (ha : a.natAbs ≤ integerLimit) (hb : b.natAbs ≤ integerLimit)

include ha

theorem scaled_le_iff {x : F64} {k : Int} (hx : x.signedUnits = k * unitsPerOne) :
    x.signedUnits ≤ (ofInt a).signedUnits ↔ k ≤ nearestDouble a := by
  rw [hx, signedUnits_ofInt ha]
  exact Int.mul_le_mul_right (Int.natCast_pos.mpr unitsPerOne_pos)

/-- An integer that is a double is left where it is. -/
theorem nearestDouble_of_units {x : F64} (hx : x.isFinite = true) (h : x.signedUnits = a * unitsPerOne) :
    nearestDouble a = a := by
  have := ofUnits_signedUnits hx
  rw [h] at this
  change (ofInt a).signedUnits = _ at this
  rw [signedUnits_ofInt ha] at this
  exact Int.eq_of_mul_eq_mul_right (Int.natCast_ne_zero.mpr (Nat.ne_of_gt unitsPerOne_pos)) this

include hb

theorem nearestDouble_mono (h : a ≤ b) : nearestDouble a ≤ nearestDouble b := by
  rw [← scaled_le_iff hb (signedUnits_ofInt ha)]
  exact ofUnits_mono (Int.mul_le_mul_of_nonneg_right h (Int.natCast_nonneg _))

end

/-! ## Rendered spans -/

theorem signedUnits_one : one.signedUnits = unitsPerOne := by decide +kernel

def I64 (n : Int) : Prop := -0x8000000000000000 ≤ n ∧ n ≤ i64Max

theorem I64.limit {n : Int} (h : I64 n) : n.natAbs ≤ integerLimit := by
  unfold I64 i64Max at h
  unfold integerLimit
  omega

theorem nearestDouble_least : nearestDouble (-0x8000000000000000) = -0x8000000000000000 := by decide +kernel

theorem nearestDouble_top : nearestDouble 0x8000000000000000 = 0x8000000000000000 := by decide +kernel

theorem I64.rendered {n : Int} (h : I64 n) :
    -0x8000000000000000 ≤ nearestDouble n ∧ nearestDouble n ≤ 0x8000000000000000 := by
  have hlimit := I64.limit h
  unfold I64 i64Max at h
  constructor
  · exact le_of_eq_of_le nearestDouble_least.symm (nearestDouble_mono (by decide) hlimit h.1)
  · exact le_of_le_of_eq (nearestDouble_mono hlimit (by decide) (by omega)) nearestDouble_top

section
variable {a b : Int} (ha : I64 a) (hb : I64 b)
include ha hb

/-- Two rendered integers are subtracted exactly and the difference rounded. -/
theorem signedUnits_span : ((ofInt b).sub (ofInt a)).signedUnits =
    nearestDouble (nearestDouble b - nearestDouble a) * unitsPerOne := by
  have hra := I64.rendered ha
  have hrb := I64.rendered hb
  rw [signedUnits_sub (isFinite_ofInt (I64.limit hb)) (isFinite_ofInt (I64.limit ha)),
    signedUnits_ofInt (I64.limit ha), signedUnits_ofInt (I64.limit hb), ← Int.sub_mul]
  exact signedUnits_ofInt (by unfold integerLimit; omega)

theorem isFinite_span : ((ofInt b).sub (ofInt a)).isFinite = true := by
  have hra := I64.rendered ha
  have hrb := I64.rendered hb
  apply isFinite_sub (isFinite_ofInt (I64.limit hb)) (isFinite_ofInt (I64.limit ha))
    (show 1087 * 2 ^ 52 < infinity by decide)
  rw [signedUnits_ofInt (I64.limit ha), signedUnits_ofInt (I64.limit hb), ← Int.sub_mul]
  exact natAbs_le_units (by unfold integerLimit; omega)

theorem one_le_span : one.le ((ofInt b).sub (ofInt a)) = true ↔ nearestDouble a + 1 ≤ nearestDouble b := by
  have hra := I64.rendered ha
  have hrb := I64.rendered hb
  have hd : (nearestDouble b - nearestDouble a).natAbs ≤ integerLimit := by unfold integerLimit; omega
  have h0 : nearestDouble 0 = 0 := by decide
  have h1 : nearestDouble 1 = 1 := by decide
  rw [le_iff (by decide) (isFinite_span ha hb), signedUnits_span ha hb, signedUnits_one]
  have hpos : (0 : Int) < unitsPerOne := Int.natCast_pos.mpr unitsPerOne_pos
  have hscale : (unitsPerOne : Int) ≤ nearestDouble (nearestDouble b - nearestDouble a) * unitsPerOne ↔
      1 ≤ nearestDouble (nearestDouble b - nearestDouble a) := by
    rw [← Int.one_mul (unitsPerOne : Int), ← Int.mul_assoc, Int.mul_one]
    exact Int.mul_le_mul_right hpos
  rw [hscale]
  constructor
  · intro h
    by_contra hlt
    have := nearestDouble_mono hd (by decide) (show nearestDouble b - nearestDouble a ≤ 0 by omega)
    omega
  · intro h
    have := nearestDouble_mono (by decide) hd (show 1 ≤ nearestDouble b - nearestDouble a by omega)
    omega

theorem span_lt_one : ((ofInt b).sub (ofInt a)).lt one = true ↔ ¬ nearestDouble a + 1 ≤ nearestDouble b := by
  rw [← one_le_span ha hb, lt_iff (isFinite_span ha hb) (by decide), le_iff (by decide) (isFinite_span ha hb)]
  omega

end

theorem lt_ofInt {a b : Int} (ha : I64 a) (hb : I64 b) (h : a ≤ b) : (ofInt b).lt (ofInt a) = false := by
  rw [Bool.eq_false_iff, ne_eq, lt_iff (isFinite_ofInt (I64.limit hb)) (isFinite_ofInt (I64.limit ha)), Int.not_lt]
  exact ofUnits_mono (Int.mul_le_mul_of_nonneg_right h (Int.natCast_nonneg _))

/-! ## The next double -/

theorem magnitude_of_finite {x : F64} (hx : x.isFinite = true) : x.magnitude = x.key.natAbs := by
  rw [key_of_finite hx]
  split <;> simp

/-- From the 53rd bit on, doubles are integers. -/
theorem unitsPerOne_dvd {m : Nat} (h : 1075 * 2 ^ 52 ≤ m) : unitsPerOne ∣ units m := by
  have hdiv : 1075 ≤ m / 2 ^ 52 := (Nat.le_div_iff_mul_le (Nat.two_pow_pos 52)).mpr h
  have hexp : unitExponent ≤ m / 2 ^ 52 - 1 := by unfold unitExponent; omega
  have hm : ¬ m < 2 ^ 52 := by omega
  unfold units unitsPerOne
  rw [if_neg hm]
  exact Nat.dvd_mul_left_of_dvd (Nat.pow_dvd_pow 2 hexp) _

theorem units_wide : units (1076 * 2 ^ 52) = 2 ^ 53 * unitsPerOne := by
  rw [show 1076 * 2 ^ 52 = (1 + unitExponent) * 2 ^ 52 + 2 ^ 52 by decide, units_normal (Nat.le_refl _) (by decide),
    pow_mul_units, ← Nat.mul_assoc, show 2 ^ 52 * 2 ^ 1 = 2 ^ 53 by decide]

/-- The double after a wide rendered integer is the next rendered integer. -/
theorem exists_next {n : Int} (h : I64 n) (hwide : 2 ^ 53 ≤ (nearestDouble n).natAbs) :
    ∃ y : Int, (ofInt n).nextUp.isFinite = true ∧ (ofInt n).nextUp.signedUnits = y * unitsPerOne ∧
      nearestDouble n < y ∧ ∀ k, I64 k → nearestDouble n < nearestDouble k → y ≤ nearestDouble k := by
  have hx := isFinite_ofInt (I64.limit h)
  have hunits := signedUnits_ofInt (I64.limit h)
  have hmag : units (ofInt n).magnitude = (nearestDouble n).natAbs * unitsPerOne := by
    rw [← natAbs_signedUnits, hunits, natAbs_mul_units]
  have hr := I64.rendered h
  have hlo : 1076 * 2 ^ 52 ≤ (ofInt n).magnitude := by
    rw [← units_strictMono.le_iff_le, hmag, units_wide]
    exact Nat.mul_le_mul_right _ hwide
  have hhi : (ofInt n).magnitude ≤ 1087 * 2 ^ 52 := by
    rw [← units_strictMono.le_iff_le, hmag, units_limit]
    exact Nat.mul_le_mul_right _ (by unfold integerLimit; omega)
  have hkey := key_nextUp hx
  have hm := magnitude_of_finite hx
  have hfin : (ofInt n).nextUp.isFinite = true := by
    rw [isFinite_iff, hkey]
    unfold infinity
    omega
  have hdvd : unitsPerOne ∣ units (ofInt n).nextUp.magnitude := by
    apply unitsPerOne_dvd
    rw [magnitude_of_finite hfin, hkey]
    omega
  rw [← natAbs_signedUnits, ← Int.natCast_dvd] at hdvd
  obtain ⟨y, hy⟩ := hdvd
  rw [Int.mul_comm] at hy
  have hpos : (0 : Int) < unitsPerOne := Int.natCast_pos.mpr unitsPerOne_pos
  refine ⟨y, hfin, hy, ?_, ?_⟩
  · have hlt : (ofInt n).signedUnits < (ofInt n).nextUp.signedUnits := by
      rw [signedUnits_lt_iff hx hfin, hkey]; omega
    rw [hunits, hy] at hlt
    exact Int.lt_of_mul_lt_mul_right hlt (Int.le_of_lt hpos)
  · intro k hk hlt
    have hlt' : (ofInt n).signedUnits < (ofInt k).signedUnits := by
      rw [hunits, signedUnits_ofInt (I64.limit hk)]
      exact Int.mul_lt_mul_of_pos_right hlt hpos
    rw [signedUnits_lt_iff hx (isFinite_ofInt (I64.limit hk))] at hlt'
    rw [← scaled_le_iff (I64.limit hk) hy, ← Int.not_lt, signedUnits_lt_iff
      (isFinite_ofInt (I64.limit hk)) hfin, hkey]
    omega

theorem toI64_of_units {x : F64} (hx : x.isFinite = true) {y : Int} (h : x.signedUnits = y * unitsPerOne) :
    x.toI64 = max (-0x8000000000000000) (min y 0x7fffffffffffffff) := by
  unfold toI64
  rw [isNan_of_finite hx, h, Int.mul_tdiv_cancel _ (Int.natCast_ne_zero.mpr (Nat.ne_of_gt unitsPerOne_pos))]
  rfl

end F64

open F64

/-! ## brushable_range -/

/-- What the viewer needs of the range it brushes. -/
structure Brushable (start stop : Int) (range : AlignmentViewport) : Prop where
  start_le : range.start ≤ start
  le_stop : stop ≤ range.stop
  rendered : one.le ((ofInt range.stop).sub (ofInt range.start)) = true
  brush : ∃ home brush, AxisRange.new (ofInt range.start) (ofInt range.stop) = .ok home ∧
    BrushState.new home = .ok brush

theorem brush_of_rendered {start stop : Int} (hstart : I64 start) (hstop : I64 stop)
    (h : nearestDouble start + 1 ≤ nearestDouble stop) :
    ∃ home brush, AxisRange.new (ofInt start) (ofInt stop) = .ok home ∧ BrushState.new home = .ok brush := by
  have hs := isFinite_ofInt (I64.limit hstart)
  have he := isFinite_ofInt (I64.limit hstop)
  have hle : (ofInt stop).le (ofInt start) = false := by
    rw [Bool.eq_false_iff, ne_eq, le_iff he hs, scaled_le_iff (I64.limit hstart)
      (signedUnits_ofInt (I64.limit hstop))]
    omega
  have haccepted : rangeAccepted (ofInt start) (ofInt stop) = true := by
    simp only [rangeAccepted, Coordinate.isFinite, Coordinate.le, Coordinate.sub, hs, he, hle,
      isFinite_span hstart hstop]
    rfl
  let home : AxisRange F64 := ⟨ofInt start, ofInt stop, haccepted⟩
  have hwide : ¬ Coordinate.lt home.span minBrushSpan = true := fun hlt => (span_lt_one hstart hstop).mp hlt h
  exact ⟨home, ⟨home, home⟩, dif_pos haccepted, if_neg hwide⟩

theorem brushable_of_rendered {start stop : Int} {range : AlignmentViewport} (hs : I64 range.start)
    (he : I64 range.stop) (hl : range.start ≤ start) (hr : stop ≤ range.stop)
    (h : nearestDouble range.start + 1 ≤ nearestDouble range.stop) :
    Brushable start stop range :=
  ⟨hl, hr, (one_le_span hs he).mpr h, brush_of_rendered hs he h⟩

/-- Where two integers in a row are rendered the same, doubles are integers. -/
theorem wide_of_same {n : Int} (h : I64 n) (h' : I64 (n + 1)) (e : nearestDouble (n + 1) = nearestDouble n) :
    2 ^ 53 ≤ (nearestDouble n).natAbs := by
  have hup : nearestDouble 0x20000000000000 = 0x20000000000000 := by decide +kernel
  have hdown : nearestDouble (-0x20000000000000) = -0x20000000000000 := by decide +kernel
  by_cases hhi : 0x20000000000000 ≤ n + 1
  · have := nearestDouble_mono (by decide) (I64.limit h') hhi
    omega
  · by_cases hlo : n ≤ -0x20000000000000
    · have := nearestDouble_mono (I64.limit h) (by decide) hlo
      omega
    · -- both are doubles themselves
      have hn := nearestDouble_eq n
      rw [nearestNat_small (by omega), Int.sign_mul_natAbs] at hn
      have hn' := nearestDouble_eq (n + 1)
      rw [nearestNat_small (by omega), Int.sign_mul_natAbs] at hn'
      omega

theorem rendered_below_top {start : Int} (hstart : I64 start) :
    nearestDouble start < 0x8000000000000000 ↔ start < 0x7ffffffffffffe00 := by
  have htie : nearestDouble 0x7ffffffffffffe00 = 0x8000000000000000 := by decide +kernel
  have hbelow : nearestDouble 0x7ffffffffffffdff = 0x7ffffffffffffc00 := by decide +kernel
  constructor
  · intro hlt
    by_contra hle
    have := nearestDouble_mono (by decide) (I64.limit hstart) (Int.not_lt.mp hle)
    omega
  · intro hlt
    have := nearestDouble_mono (I64.limit hstart) (by decide) (show start ≤ 0x7ffffffffffffdff by omega)
    omega

section
variable {start stop : Int} (hstart : I64 start) (hstop : I64 stop) (h : start ≤ stop)
include hstart hstop h

theorem widenedBounds_cases :
    (nearestDouble start + 1 ≤ nearestDouble stop ∧ widenedBounds start stop = (start, stop)) ∨
      (stop < i64Max ∧ nearestDouble start + 1 ≤ nearestDouble (stop + 1) ∧
        widenedBounds start stop = (start, stop + 1)) ∨
      (stop < i64Max ∧ ∃ next, stop < next ∧ I64 next ∧ widenedBounds start stop = (start, next) ∧
        (nearestDouble start + 1 ≤ nearestDouble next ↔ nearestDouble start < 0x8000000000000000)) ∨
      (stop = i64Max ∧ nearestDouble start = 0x8000000000000000 ∧
        widenedBounds start stop = (0x7ffffffffffffc00, stop)) := by
  have hmono := nearestDouble_mono (I64.limit hstart) (I64.limit hstop) h
  by_cases h1 : nearestDouble start + 1 ≤ nearestDouble stop
  · have hlt : ¬ ((ofInt stop).sub (ofInt start)).lt one = true := fun hlt => (span_lt_one hstart hstop).mp hlt h1
    exact Or.inl ⟨h1, if_neg hlt⟩
  · have hlt := (span_lt_one hstart hstop).mpr h1
    by_cases hmax : stop < i64Max
    · have hnext : I64 (stop + 1) := by unfold I64 at hstop ⊢; omega
      have hle := one_le_span hstart hnext
      by_cases h2 : nearestDouble start + 1 ≤ nearestDouble (stop + 1)
      · refine Or.inr (Or.inl ⟨hmax, h2, ?_⟩)
        unfold widenedBounds
        dsimp only
        rw [if_pos hlt, if_pos ⟨hmax, hle.mpr h2⟩]
      · have hmono' := nearestDouble_mono (I64.limit hstart) (I64.limit hnext) (show start ≤ stop + 1 by omega)
        have hwide := wide_of_same hstop hnext (by omega)
        obtain ⟨y, hfin, hy, hgt, -⟩ :=
          exists_next hstart (by rw [show nearestDouble start = nearestDouble stop by omega]; exact hwide)
        have hto := toI64_of_units hfin hy
        have hr := I64.rendered hstart
        -- the next double lies beyond the range, or the right end would be rendered as it
        have hbeyond : stop < y := by
          by_contra hle
          have hlimit : y.natAbs ≤ integerLimit := by
            unfold I64 i64Max at hstop
            unfold integerLimit
            omega
          have := nearestDouble_of_units hlimit hfin hy
          have := nearestDouble_mono hlimit (I64.limit hstop) (show y ≤ stop by omega)
          omega
        refine Or.inr (Or.inr (Or.inl ⟨hmax, (ofInt start).nextUp.toI64, ?_, ?_, ?_, ?_⟩))
        · unfold I64 i64Max at hstop hmax
          omega
        · unfold I64 i64Max
          omega
        · unfold widenedBounds
          dsimp only
          rw [if_pos hlt, if_neg (fun hc => h2 (hle.mp hc.2)), if_pos]
          unfold I64 i64Max at hstop hmax
          omega
        · unfold I64 i64Max at hstop hmax
          by_cases hfit : y ≤ 0x7fffffffffffffff
          · have hlimit : y.natAbs ≤ integerLimit := by unfold integerLimit; omega
            have := nearestDouble_of_units hlimit hfin hy
            rw [show (ofInt start).nextUp.toI64 = y by omega]
            omega
          · have htop : nearestDouble 0x7fffffffffffffff = 0x8000000000000000 := by decide +kernel
            rw [show (ofInt start).nextUp.toI64 = 0x7fffffffffffffff by omega, htop]
            omega
    · have hstop' : stop = i64Max := by unfold I64 at hstop; omega
      subst hstop'
      have htop : nearestDouble i64Max = 0x8000000000000000 := by decide +kernel
      have hdown : (ofInt i64Max).nextDown.toI64 = 0x7ffffffffffffc00 := by decide +kernel
      have hr := I64.rendered hstart
      have hsat : (ofInt start).nextUp.toI64 ≤ i64Max := by
        unfold toI64 i64Max
        split <;> omega
      refine Or.inr (Or.inr (Or.inr ⟨rfl, by omega, ?_⟩))
      unfold widenedBounds
      dsimp only
      rw [if_pos hlt, if_neg (fun hc => hmax hc.1), if_neg (by omega), hdown]

theorem brushableRange_ok : ∃ range, brushableRange (start, stop) = .ok range ∧
    range.start = (widenedBounds start stop).1 ∧ range.stop = (widenedBounds start stop).2 := by
  have hordered : (widenedBounds start stop).1 ≤ (widenedBounds start stop).2 := by
    obtain ⟨-, e⟩ | ⟨-, -, e⟩ | ⟨-, next, hnext, -, e, -⟩ | ⟨rfl, -, e⟩ := widenedBounds_cases hstart hstop h
    · rw [e]; exact h
    · rw [e]; exact Int.le_add_one h
    · rw [e]; exact Int.le_of_lt (Int.lt_of_le_of_lt h hnext)
    · rw [e]; decide
  exact ⟨⟨_, _, hordered⟩, dif_pos hordered, rfl, rfl⟩

/-- Every range can be brushed but those rendered as the greatest double of an
`i64` that end before the greatest `i64`. -/
theorem brushable_iff_below_top :
    (∃ range, brushableRange (start, stop) = .ok range ∧ Brushable start stop range) ↔
      start < 0x7ffffffffffffe00 ∨ stop = i64Max := by
  obtain ⟨range, hok, hs, he⟩ := brushableRange_ok hstart hstop h
  have hrange : (∃ range, brushableRange (start, stop) = .ok range ∧ Brushable start stop range) ↔
      Brushable start stop range := by
    rw [hok]
    simp
  rw [hrange, ← rendered_below_top hstart]
  have htop := I64.rendered hstop
  obtain ⟨h1, e⟩ | ⟨hmax, h1, e⟩ | ⟨hmax, next, hnext, hmem, e, hiff⟩ | ⟨rfl, h1, e⟩ :=
    widenedBounds_cases hstart hstop h
  · rw [e] at hs he
    constructor
    · intro _; omega
    · intro _
      exact brushable_of_rendered (hs ▸ hstart) (he ▸ hstop) (by omega) (by omega) (by rw [hs, he]; exact h1)
  · have hstop' : I64 (stop + 1) := by unfold I64 at hstop ⊢; omega
    have := I64.rendered hstop'
    rw [e] at hs he
    constructor
    · intro _; omega
    · intro _
      exact brushable_of_rendered (hs ▸ hstart) (he ▸ hstop') (by omega) (by omega) (by rw [hs, he]; exact h1)
  · rw [e] at hs he
    constructor
    · intro hb
      have hrendered := hb.rendered
      rw [hs, he, one_le_span hstart hmem] at hrendered
      exact Or.inl (hiff.mp hrendered)
    · intro hc
      have hlt : nearestDouble start < 0x8000000000000000 := by omega
      exact brushable_of_rendered (hs ▸ hstart) (he ▸ hmem) (by omega) (by omega)
        (by rw [hs, he]; exact hiff.mpr hlt)
  · have hmem : I64 0x7ffffffffffffc00 := ⟨by decide, by decide⟩
    have hdown : nearestDouble 0x7ffffffffffffc00 = 0x7ffffffffffffc00 := by decide +kernel
    have hup : nearestDouble i64Max = 0x8000000000000000 := by decide +kernel
    have hle : 0x7ffffffffffffc00 ≤ start := by
      by_contra hlt
      have := nearestDouble_mono (I64.limit hstart) (I64.limit hmem) (Int.le_of_lt (Int.not_le.mp hlt))
      omega
    rw [e] at hs he
    constructor
    · intro _; exact Or.inr rfl
    · intro _
      exact brushable_of_rendered (hs ▸ hmem) (he ▸ hstop) (by omega) (by omega)
        (by rw [hs, he, hdown, hup]; decide)

end

theorem brushable_iff_below_top_seven :
    ∃ range, brushableRange (7, 7) = .ok range ∧ Brushable 7 7 range :=
  (brushable_iff_below_top ⟨by decide, by decide⟩ ⟨by decide, by decide⟩ (by decide)).mpr (Or.inl (by decide))

/-- Five below the greatest `i64` the widened range is rendered as one double. -/
theorem not_brushable_below_top :
    ¬ ∃ range, brushableRange (0x7ffffffffffffffa, 0x7ffffffffffffffa) = .ok range ∧
      Brushable 0x7ffffffffffffffa 0x7ffffffffffffffa range := by
  rintro ⟨range, hrange, hb⟩
  have hmem : I64 0x7ffffffffffffffa := ⟨by decide, by decide⟩
  obtain ⟨range', hok, hs, he⟩ := brushableRange_ok hmem hmem (Int.le_refl _)
  rw [hok] at hrange
  cases hrange
  have hrendered := hb.rendered
  have hwidened : widenedBounds 0x7ffffffffffffffa 0x7ffffffffffffffa = (0x7ffffffffffffffa, i64Max) := by
    decide +kernel
  rw [hs, he, hwidened] at hrendered
  revert hrendered
  decide +kernel

end Pulseon
