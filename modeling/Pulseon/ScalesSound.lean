import Mathlib.Tactic.Linarith
import Pulseon.BrushHeld
import Pulseon.DoubleRatios
import Pulseon.HitTestSound
import Pulseon.Scales

/-!
# The range of the visible values

The padded range that a chart is drawn over is there exactly when a point is
visible, unless it is beyond the doubles, and holds every visible value strictly.
-/

namespace Pulseon

/-! ## Neighbours -/

namespace F64

theorem key_nextDown {x : F64} (hx : x.isFinite = true) : x.nextDown.key = x.key - 1 := by
  have hm : x.magnitude < infinity := of_decide_eq_true hx
  rw [key_of_finite hx]
  unfold nextDown
  simp only [isNan_of_finite hx, ne_infinity hx, Bool.or_self, Bool.false_eq_true, ite_false]
  by_cases hz : x.magnitude = 0
  · rw [if_pos hz, key_ofMagnitude (by decide), hz]
    simp
  · rw [if_neg hz]
    by_cases hs : x.bits.msb = true
    · rw [if_pos hs, if_pos hs, key_ofMagnitude (by omega)]
      simp only [ite_true]; omega
    · rw [if_neg hs, if_neg hs, key_ofMagnitude (by omega)]
      simp only [Bool.false_eq_true, ite_false]; omega

theorem lt_nextUp {x : F64} (hx : x.isFinite = true) (h : x.nextUp.isFinite = true) :
    x.signedUnits < x.nextUp.signedUnits := by
  rw [signedUnits_lt_iff hx h, key_nextUp hx]
  omega

theorem nextDown_lt {x : F64} (hx : x.isFinite = true) (h : x.nextDown.isFinite = true) :
    x.nextDown.signedUnits < x.signedUnits := by
  rw [signedUnits_lt_iff h hx, key_nextDown hx]
  omega

/-- No double is between two neighbours. -/
theorem nextUp_le {x y : F64} (hx : x.isFinite = true) (hy : y.isFinite = true) (h : x.signedUnits < y.signedUnits)
    (hup : x.nextUp.isFinite = true) : x.nextUp.signedUnits ≤ y.signedUnits := by
  rw [signedUnits_lt_iff hx hy] at h
  have := signedUnits_lt_iff hy hup
  rw [key_nextUp hx] at this
  omega

theorem le_nextDown {x y : F64} (hx : x.isFinite = true) (hy : y.isFinite = true)
    (h : y.signedUnits < x.signedUnits)
    (hdown : x.nextDown.isFinite = true) : y.signedUnits ≤ x.nextDown.signedUnits := by
  rw [signedUnits_lt_iff hy hx] at h
  have := signedUnits_lt_iff hdown hy
  rw [key_nextDown hx] at this
  omega

theorem isFinite_nextUp {x y : F64} (hx : x.isFinite = true) (hy : y.isFinite = true)
    (h : x.signedUnits < y.signedUnits) :
    x.nextUp.isFinite = true := by
  rw [signedUnits_lt_iff hx hy] at h
  rw [isFinite_iff] at hx hy ⊢
  rw [key_nextUp (by rwa [isFinite_iff])]
  omega

theorem isFinite_nextDown {x y : F64} (hx : x.isFinite = true) (hy : y.isFinite = true)
    (h : y.signedUnits < x.signedUnits) :
    x.nextDown.isFinite = true := by
  rw [signedUnits_lt_iff hy hx] at h
  rw [isFinite_iff] at hx hy ⊢
  rw [key_nextDown (by rwa [isFinite_iff])]
  omega

theorem minimum_of_finite {x y : F64} (hx : x.isFinite = true) (hy : y.isFinite = true) :
    (minimum x y = x ∨ minimum x y = y) ∧ (minimum x y).signedUnits ≤ x.signedUnits ∧
      (minimum x y).signedUnits ≤ y.signedUnits := by
  have hself : x.le x = true := (le_iff hx hx).mpr le_rfl
  simp only [minimum, Coordinate.le, Coordinate.lt, hself, Bool.not_true, Bool.false_eq_true, ite_false]
  by_cases h : y.lt x = true
  · have := (lt_iff hy hx).mp h
    rw [if_pos h]
    exact ⟨Or.inr rfl, by omega, le_rfl⟩
  · have := mt (lt_iff hy hx).mpr h
    rw [if_neg h]
    exact ⟨Or.inl rfl, le_rfl, by omega⟩

theorem maximum_of_finite {x y : F64} (hx : x.isFinite = true) (hy : y.isFinite = true) :
    (maximum x y = x ∨ maximum x y = y) ∧ x.signedUnits ≤ (maximum x y).signedUnits ∧
      y.signedUnits ≤ (maximum x y).signedUnits := by
  have hself : x.le x = true := (le_iff hx hx).mpr le_rfl
  simp only [maximum, Coordinate.le, Coordinate.lt, hself, Bool.not_true, Bool.false_eq_true, ite_false]
  by_cases h : x.lt y = true
  · have := (lt_iff hx hy).mp h
    rw [if_pos h]
    exact ⟨Or.inr rfl, by omega, le_rfl⟩
  · have := mt (lt_iff hx hy).mpr h
    rw [if_neg h]
    exact ⟨Or.inl rfl, le_rfl, by omega⟩

end F64

open F64

/-! ## Visible values -/

theorem Series.value_finite (series : Series F64) {p : DataPoint F64} (hp : p ∈ series.points) :
    p.y.isFinite = true :=
  ((checkPoints_sound series.accepted).1 p hp).2

theorem pointsIn_eq (series : Series F64) (range : AxisRange F64) :
    series.pointsIn range = series.points.filter (inRange range) := by
  refine (filter_eq_slice fun i p hp => ?_).symm
  rw [inRange, Bool.and_eq_true, ← firstIn_le_iff series range hp, ← lt_afterIn_iff series range hp]
  exact Iff.rfl

/-- A point of one of the series in the closed range. -/
def VisiblePoint (series : List (Series F64)) (xRange : AxisRange F64) (p : DataPoint F64) : Prop :=
  ∃ s ∈ series, p ∈ s.points ∧ inRange xRange p = true

/-- The least and the greatest value of the points. -/
structure Extremes (points : List (DataPoint F64)) (bounds : F64 × F64) : Prop where
  least : ∃ p ∈ points, p.y = bounds.1
  greatest : ∃ p ∈ points, p.y = bounds.2
  within : ∀ p ∈ points, bounds.1.signedUnits ≤ p.y.signedUnits ∧ p.y.signedUnits ≤ bounds.2.signedUnits

theorem foldl_extremes (points : List (DataPoint F64)) (hfin : ∀ p ∈ points, p.y.isFinite = true) :
    points = [] ∧ points.foldl extendYBounds none = none ∨
      ∃ bounds, points.foldl extendYBounds none = some bounds ∧ Extremes points bounds := by
  induction points using List.reverseRecOn with
  | nil => exact Or.inl ⟨rfl, rfl⟩
  | append_singleton points p ih =>
    have hp : p.y.isFinite = true := hfin p (by simp)
    right
    rw [List.foldl_concat]
    rcases ih fun q hq => hfin q (List.mem_append_left _ hq) with ⟨rfl, hn⟩ | ⟨bounds, hb, hext⟩
    · rw [hn]
      exact ⟨(p.y, p.y), rfl, ⟨p, by simp, rfl⟩, ⟨p, by simp, rfl⟩, by simp⟩
    · obtain ⟨least, hl, hleast⟩ := hext.least
      obtain ⟨greatest, hg, hgreatest⟩ := hext.greatest
      obtain ⟨hmin, hminl, hminp⟩ := minimum_of_finite (hleast ▸ hfin least (List.mem_append_left _ hl)) hp
      obtain ⟨hmax, hmaxg, hmaxp⟩ := maximum_of_finite (hgreatest ▸ hfin greatest (List.mem_append_left _ hg)) hp
      rw [hb]
      refine ⟨_, rfl, ?_, ?_, fun q hq => ?_⟩
      · rcases hmin with e | e
        · exact ⟨least, List.mem_append_left _ hl, hleast.trans e.symm⟩
        · exact ⟨p, by simp, e.symm⟩
      · rcases hmax with e | e
        · exact ⟨greatest, List.mem_append_left _ hg, hgreatest.trans e.symm⟩
        · exact ⟨p, by simp, e.symm⟩
      · rcases List.mem_append.mp hq with hq | hq
        · obtain ⟨hlow, hhigh⟩ := hext.within q hq
          exact ⟨le_trans hminl hlow, le_trans hhigh hmaxg⟩
        · obtain rfl := List.mem_singleton.mp hq
          exact ⟨hminp, hmaxp⟩

theorem visibleYBounds_eq (series : List (Series F64)) (xRange : AxisRange F64) :
    visibleYBounds series xRange = (series.flatMap fun s => s.pointsIn xRange).foldl extendYBounds none := by
  unfold visibleYBounds
  rw [List.foldl_flatMap]

theorem mem_visible {series : List (Series F64)} {xRange : AxisRange F64} {p : DataPoint F64} :
    p ∈ series.flatMap (fun s => s.pointsIn xRange) ↔ VisiblePoint series xRange p := by
  simp only [List.mem_flatMap, pointsIn_eq, List.mem_filter, VisiblePoint]

theorem visible_finite {series : List (Series F64)} {xRange : AxisRange F64} {p : DataPoint F64}
    (h : VisiblePoint series xRange p) : p.y.isFinite = true := by
  obtain ⟨s, -, hp, -⟩ := h
  exact s.value_finite hp

theorem visibleYBounds_spec (series : List (Series F64)) (xRange : AxisRange F64) :
    (∀ p, ¬ VisiblePoint series xRange p) ∧ visibleYBounds series xRange = none ∨
      ∃ least greatest, VisiblePoint series xRange least ∧ VisiblePoint series xRange greatest ∧
        visibleYBounds series xRange = some (least.y, greatest.y) ∧ ∀ p, VisiblePoint series xRange p →
          least.y.signedUnits ≤ p.y.signedUnits ∧ p.y.signedUnits ≤ greatest.y.signedUnits := by
  have hfin : ∀ p ∈ series.flatMap (fun s => s.pointsIn xRange), p.y.isFinite = true :=
    fun p hp => visible_finite (mem_visible.mp hp)
  rw [visibleYBounds_eq]
  rcases foldl_extremes _ hfin with ⟨hnil, hn⟩ | ⟨⟨l, g⟩, hb, ⟨least, hl, rfl⟩, ⟨greatest, hg, rfl⟩, hwithin⟩
  · exact Or.inl ⟨fun p hp => by simpa [hnil] using mem_visible.mpr hp, hn⟩
  · exact Or.inr
      ⟨least, greatest, mem_visible.mp hl, mem_visible.mp hg, hb, fun p hp => hwithin p (mem_visible.mpr hp)⟩

/-! ## Padding -/

theorem range_new_error {start stop : F64} {e : ChartError} (h : AxisRange.new start stop = .error e) :
    e = .invalidRange := by
  unfold AxisRange.new at h
  split at h
  · cases h
  · cases h; rfl

/-- A padded range holds its values strictly. -/
theorem padded_strict {least greatest : F64} {r : AxisRange F64} (hl : least.isFinite = true)
    (hg : greatest.isFinite = true) (h : paddedRange least greatest = .ok r) :
    r.start.signedUnits < least.signedUnits ∧ greatest.signedUnits < r.stop.signedUnits := by
  obtain ⟨hs, he, -⟩ := r.finite
  obtain ⟨hstart, hstop⟩ := range_of_new h
  constructor
  · rw [hstart] at hs ⊢
    split_ifs at hs ⊢ with hlt
    · exact (lt_iff hs hl).mp hlt
    · exact nextDown_lt hl hs
  · rw [hstop] at he ⊢
    split_ifs at he ⊢ with hlt
    · exact (lt_iff hg he).mp hlt
    · exact lt_nextUp hg he

/-! ## Values that can always be padded -/

namespace F64

theorem units_double {m : Nat} (h : 2 ^ 52 ≤ m) : units (m + 2 ^ 52) = 2 * units m := by
  obtain ⟨e, q, rfl, hl, hr⟩ : ∃ e q, m = e * 2 ^ 52 + q ∧ 2 ^ 52 ≤ q ∧ q ≤ 2 ^ 53 :=
    ⟨m / 2 ^ 52 - 1, m - (m / 2 ^ 52 - 1) * 2 ^ 52, by omega, by omega, by omega⟩
  rw [show e * 2 ^ 52 + q + 2 ^ 52 =
    (e + 1) * 2 ^ 52 + q by omega, units_normal hl hr, units_normal hl hr, Nat.pow_succ]
  ring

theorem signedUnits_abs (x : F64) : x.abs.signedUnits = x.signedUnits.natAbs := by
  unfold F64.abs
  rw [signedUnits_ofMagnitude x.magnitude_lt, natAbs_signedUnits]
  rfl

theorem ofUnits_pos {n : Int} (h : 0 < n) : 0 < (ofUnits n).signedUnits := by
  have hone : roundUnits 1 = 1 := roundUnits_units (m := 1) (by decide)
  have hmono := roundUnits_mono (show 1 ≤ n.natAbs by omega)
  have := units_strictMono (show 0 < roundUnits n.natAbs by omega)
  rw [signedUnits_ofUnits, if_neg (by omega)]
  omega

theorem isFinite_add {x y : F64} (hx : x.isFinite = true) (hy : y.isFinite = true) {m : Nat} (hm : m < infinity)
    (h : (x.signedUnits + y.signedUnits).natAbs ≤ units m) : (x.add y).isFinite = true := by
  unfold add
  simp only [isNan_of_finite hx, isNan_of_finite hy, hx, hy, Bool.or_self, Bool.not_true,
    Bool.false_eq_true, ite_false]
  split
  · exact isFinite_ofMagnitude (by decide)
  · exact isFinite_ofUnits hm h

theorem isFinite_abs {x : F64} (h : x.isFinite = true) : x.abs.isFinite = true :=
  isFinite_ofMagnitude (of_decide_eq_true h)

theorem le_ofUnits {x : F64} (hx : x.isFinite = true) {n : Int} (h : x.signedUnits ≤ n) :
    x.signedUnits ≤ (ofUnits n).signedUnits := by
  have := ofUnits_mono h
  rwa [ofUnits_signedUnits hx] at this

theorem ofUnits_le {x : F64} (hx : x.isFinite = true) {n : Int} (h : n ≤ x.signedUnits) :
    (ofUnits n).signedUnits ≤ x.signedUnits := by
  have := ofUnits_mono h
  rwa [ofUnits_signedUnits hx] at this

end F64

/-- Two to the power of 1021. -/
def paddableLimit : F64 := .ofMagnitude false (2044 * 2 ^ 52)

/-- The units of a quarter of the limit, which no padding exceeds. -/
def paddingLimit : Nat := units (2042 * 2 ^ 52)

theorem units_limits : units (2044 * 2 ^ 52) = 4 * paddingLimit ∧ units (2045 * 2 ^ 52) = 8 * paddingLimit ∧
    units (2046 * 2 ^ 52) = 16 * paddingLimit := by
  have h3 := units_double (m := 2042 * 2 ^ 52) (by decide)
  have h4 := units_double (m := 2043 * 2 ^ 52) (by decide)
  have h5 := units_double (m := 2044 * 2 ^ 52) (by decide)
  have h6 := units_double (m := 2045 * 2 ^ 52) (by decide)
  rw [show 2042 * 2 ^ 52 + 2 ^ 52 = 2043 * 2 ^ 52 by decide] at h3
  rw [show 2043 * 2 ^ 52 + 2 ^ 52 = 2044 * 2 ^ 52 by decide] at h4
  rw [show 2044 * 2 ^ 52 + 2 ^ 52 = 2045 * 2 ^ 52 by decide] at h5
  rw [show 2045 * 2 ^ 52 + 2 ^ 52 = 2046 * 2 ^ 52 by decide] at h6
  unfold paddingLimit
  omega

theorem signedUnits_paddable : paddableLimit.signedUnits = 4 * paddingLimit := by
  have h := units_limits.1
  unfold paddableLimit
  rw [signedUnits_ofMagnitude (by decide)]
  simp only [Bool.false_eq_true, ite_false]
  omega

theorem minPadding_le : minConstantYPadding.isFinite = true ∧ 0 ≤ minConstantYPadding.signedUnits ∧
    minConstantYPadding.signedUnits ≤ paddingLimit := by
  refine ⟨by decide, by decide +kernel, ?_⟩
  have h := units_strictMono.monotone (show minConstantYPadding.magnitude ≤ 2042 * 2 ^ 52 by decide)
  have hu : minConstantYPadding.signedUnits ≤ units minConstantYPadding.magnitude := by
    rw [← natAbs_signedUnits]
    exact Int.le_natAbs
  unfold paddingLimit
  omega

theorem fraction_le : yRangePaddingFraction.isFinite = true ∧ 0 ≤ yRangePaddingFraction.signedUnits ∧
    8 * yRangePaddingFraction.signedUnits ≤ unitsPerOne := by
  refine ⟨by decide, by decide +kernel, by decide +kernel⟩

section
variable {x : F64} (hx : x.isFinite = true) (h0 : 0 ≤ x.signedUnits) (ht : x.signedUnits ≤ 8 * paddingLimit)
include hx h0 ht

/-- The fraction of a distance. -/
theorem fraction_padding : (x.mul yRangePaddingFraction).isFinite = true ∧
    0 ≤ (x.mul yRangePaddingFraction).signedUnits ∧ (x.mul yRangePaddingFraction).signedUnits ≤ paddingLimit := by
  obtain ⟨hf, hf0, hft⟩ := fraction_le
  have hone : 0 < unitsPerOne := Nat.two_pow_pos unitExponent
  have hlow := Int.mul_nonneg h0 hf0
  have hhigh : x.signedUnits * yRangePaddingFraction.signedUnits ≤ paddingLimit * unitsPerOne := by
    have h1 := Int.mul_le_mul_of_nonneg_right ht hf0
    have h2 := Int.mul_le_mul_of_nonneg_left hft (Int.natCast_nonneg paddingLimit)
    linarith
  have hlimit : (ofMagnitude false (2042 * 2 ^ 52)).signedUnits = paddingLimit := by
    rw [signedUnits_ofMagnitude (by decide)]
    rfl
  rw [signedUnits_mul hx hf]
  refine ⟨isFinite_mul hx hf (m := 2042 * 2 ^ 52) (by decide) ?_, ?_, ?_⟩
  · have hcast : ((paddingLimit * unitsPerOne : Nat) : Int) = paddingLimit * unitsPerOne := Nat.cast_mul _ _
    have hunits : units (2042 * 2 ^ 52) = paddingLimit := rfl
    rw [hunits]
    omega
  · exact ratioUnits_nonneg hone hlow
  · have := ratioUnits_mono hone hhigh
    rw [← hlimit, ratioUnits_exact hone (by decide)] at this
    rwa [hlimit] at this

end

section
variable {least greatest : F64} (hl : least.isFinite = true) (hg : greatest.isFinite = true)
  (hle : least.signedUnits ≤ greatest.signedUnits) (hlow : -(4 * paddingLimit) ≤ least.signedUnits)
  (hhigh : greatest.signedUnits ≤ 4 * paddingLimit)
include hl hg hle hlow hhigh

theorem yPadding_le : (yPadding least greatest).isFinite = true ∧ 0 ≤ (yPadding least greatest).signedUnits ∧
    (yPadding least greatest).signedUnits ≤ paddingLimit := by
  unfold yPadding
  split
  · obtain ⟨hf, h0, ht⟩ :=
      fraction_padding (isFinite_abs hl) (by rw [signedUnits_abs]; omega) (by rw [signedUnits_abs]; omega)
    obtain ⟨hm, hm0, hmt⟩ := minPadding_le
    rcases (maximum_of_finite hf hm).1 with e | e <;> rw [e]
    · exact ⟨hf, h0, ht⟩
    · exact ⟨hm, hm0, hmt⟩
  · have hlimit := units_limits.2.1
    have hspan : (greatest.sub least).isFinite = true :=
      isFinite_sub hg hl (m := 2045 * 2 ^ 52) (by decide) (by omega)
    have hend : (ofMagnitude false (2045 * 2 ^ 52)).signedUnits = 8 * paddingLimit := by
      rw [signedUnits_ofMagnitude (by decide), hlimit]
      exact Nat.cast_mul 8 paddingLimit
    refine fraction_padding hspan ?_ ?_
    · rw [signedUnits_sub hg hl]
      exact ofUnits_nonneg (by omega)
    · rw [signedUnits_sub hg hl, ← hend]
      exact ofUnits_le (by decide) (by omega)

/-- Values up to the limit can be padded. -/
theorem padded_ok : ∃ r, paddedRange least greatest = .ok r := by
  obtain ⟨hp, hp0, hpt⟩ := yPadding_le hl hg hle hlow hhigh
  obtain ⟨-, hlimit, hspan⟩ := units_limits
  have hdown : (ofMagnitude true (2045 * 2 ^ 52)).signedUnits = -(8 * paddingLimit) := by
    rw [signedUnits_ofMagnitude (by decide), hlimit, if_pos rfl]
    exact congrArg Neg.neg (Nat.cast_mul 8 paddingLimit)
  have hup : (ofMagnitude false (2045 * 2 ^ 52)).signedUnits = 8 * paddingLimit := by
    rw [signedUnits_ofMagnitude (by decide), hlimit]
    exact Nat.cast_mul 8 paddingLimit
  have hpos : 0 < paddingLimit := by decide +kernel
  -- both ends stay within twice the limit
  have hstart : ∀ start, start = (if (least.sub (yPadding least greatest)).lt least then
      least.sub (yPadding least greatest) else least.nextDown) → start.isFinite = true ∧
        -(8 * paddingLimit) ≤ start.signedUnits ∧ start.signedUnits < least.signedUnits := by
    rintro start rfl
    split_ifs with hlt
    · have hf : (least.sub (yPadding least greatest)).isFinite = true :=
        isFinite_sub hl hp (m := 2045 * 2 ^ 52) (by decide) (by omega)
      refine ⟨hf, ?_, (lt_iff hf hl).mp hlt⟩
      rw [signedUnits_sub hl hp, ← hdown]
      exact le_ofUnits (by decide) (by omega)
    · have hf := isFinite_nextDown hl (show (ofMagnitude true (2045 * 2 ^ 52)).isFinite = true by decide) (by omega)
      exact ⟨hf, hdown ▸ le_nextDown hl (by decide) (by omega) hf, nextDown_lt hl hf⟩
  have hstop : ∀ stop, stop = (if greatest.lt (greatest.add (yPadding least greatest)) then
      greatest.add (yPadding least greatest) else greatest.nextUp) → stop.isFinite = true ∧
        stop.signedUnits ≤ 8 * paddingLimit ∧ greatest.signedUnits < stop.signedUnits := by
    rintro stop rfl
    split_ifs with hlt
    · have hf : (greatest.add (yPadding least greatest)).isFinite = true :=
        isFinite_add hg hp (m := 2045 * 2 ^ 52) (by decide) (by omega)
      refine ⟨hf, ?_, (lt_iff hg hf).mp hlt⟩
      rw [signedUnits_add hg hp, ← hup]
      exact ofUnits_le (by decide) (by omega)
    · have hf := isFinite_nextUp hg (show (ofMagnitude false (2045 * 2 ^ 52)).isFinite = true by decide) (by omega)
      exact ⟨hf, hup ▸ nextUp_le hg (by decide) (by omega) hf, lt_nextUp hg hf⟩
  obtain ⟨hs, hsl, hsv⟩ := hstart _ rfl
  obtain ⟨he, het, hev⟩ := hstop _ rfl
  refine ⟨_, dif_pos ?_⟩
  have hwidth := isFinite_sub he hs (m := 2046 * 2 ^ 52) (by decide) (by omega)
  simp only [rangeAccepted, Coordinate.isFinite, Coordinate.le, Coordinate.sub, hs, he, hwidth, Bool.and_true,
    Bool.true_and, Bool.not_eq_true', Bool.eq_false_iff, ne_eq, le_iff he hs]
  omega

end

/-! ## The visible range -/

theorem visibleYRangeFor_some {series : List (Series F64)} {xRange r : AxisRange F64}
    (h : visibleYRangeFor series xRange = .ok (some r)) {p : DataPoint F64} (hp : VisiblePoint series xRange p) :
    r.start.signedUnits < p.y.signedUnits ∧ p.y.signedUnits < r.stop.signedUnits := by
  unfold visibleYRangeFor at h
  rcases visibleYBounds_spec series xRange with ⟨hnone, -⟩ | ⟨least, greatest, hl, hg, hb, hwithin⟩
  · exact absurd hp (hnone p)
  · simp only [hb] at h
    cases hr : paddedRange least.y greatest.y with
    | error e => rw [hr] at h; cases h
    | ok range =>
      rw [hr] at h
      cases h
      obtain ⟨hstart, hstop⟩ := padded_strict (visible_finite hl) (visible_finite hg) hr
      obtain ⟨hlow, hhigh⟩ := hwithin p hp
      exact ⟨lt_of_lt_of_le hstart hlow, lt_of_le_of_lt hhigh hstop⟩

theorem visibleYRangeFor_none {series : List (Series F64)} {xRange : AxisRange F64} :
    visibleYRangeFor series xRange = .ok none ↔ ∀ p, ¬ VisiblePoint series xRange p := by
  unfold visibleYRangeFor
  rcases visibleYBounds_spec series xRange with ⟨hnone, hb⟩ | ⟨least, greatest, hl, -, hb, -⟩
  · simp [hb, hnone]
  · simp only [hb]
    refine ⟨fun h => ?_, fun h => absurd hl (h least)⟩
    cases hr : paddedRange least.y greatest.y <;> simp [hr, Except.map] at h

theorem visibleYRangeFor_error {series : List (Series F64)} {xRange : AxisRange F64} {e : ChartError}
    (h : visibleYRangeFor series xRange = .error e) : e = .invalidRange := by
  unfold visibleYRangeFor at h
  split at h
  · cases h
  · rename_i bounds _
    cases hr : paddedRange bounds.1 bounds.2 with
    | error e' => rw [hr] at h; cases h; exact range_new_error hr
    | ok r => rw [hr] at h; cases h

theorem abs_le_paddable {x : F64} (hx : x.isFinite = true) (h : x.abs.le paddableLimit = true) :
    -(4 * paddingLimit) ≤ x.signedUnits ∧ x.signedUnits ≤ 4 * paddingLimit := by
  rw [le_iff (isFinite_abs hx) (by decide), signedUnits_abs, signedUnits_paddable] at h
  omega

theorem visibleYRangeFor_ok {series : List (Series F64)} {xRange : AxisRange F64}
    (h : ∀ p, VisiblePoint series xRange p → p.y.abs.le paddableLimit = true) :
    ∃ r, visibleYRangeFor series xRange = .ok r := by
  unfold visibleYRangeFor
  rcases visibleYBounds_spec series xRange with ⟨-, hb⟩ | ⟨least, greatest, hl, hg, hb, hwithin⟩
  · exact ⟨none, by simp only [hb]⟩
  · obtain ⟨hlow, -⟩ := abs_le_paddable (visible_finite hl) (h least hl)
    obtain ⟨-, hhigh⟩ := abs_le_paddable (visible_finite hg) (h greatest hg)
    obtain ⟨r, hr⟩ := padded_ok (visible_finite hl) (visible_finite hg) (hwithin least hl).2 hlow hhigh
    exact ⟨some r, by simp only [hb, hr, Except.map]⟩

/-- There is no range exactly when no point is visible; a range holds every
visible value strictly, and values up to two to the power of 1021 have one. -/
theorem visible_y_range_exact (series : List (Series F64)) (xRange : AxisRange F64) :
    (visibleYRangeFor series xRange = .ok none ↔ ∀ p, ¬ VisiblePoint series xRange p) ∧
      (∀ r, visibleYRangeFor series xRange = .ok (some r) → ∀ p, VisiblePoint series xRange p →
        r.start.lt p.y = true ∧ p.y.lt r.stop = true) ∧
      (∀ e, visibleYRangeFor series xRange = .error e → e = .invalidRange ∧
        ∃ p, VisiblePoint series xRange p ∧ p.y.abs.le paddableLimit = false) := by
  refine ⟨visibleYRangeFor_none, fun r h p hp => ?_, fun e h => ⟨visibleYRangeFor_error h, ?_⟩⟩
  · have hy := visible_finite hp
    obtain ⟨hlow, hhigh⟩ := visibleYRangeFor_some h hp
    exact ⟨(lt_iff r.finite.1 hy).mpr hlow, (lt_iff hy r.finite.2.1).mpr hhigh⟩
  · by_contra hall
    obtain ⟨r, hr⟩ := visibleYRangeFor_ok fun p hp => by
      by_contra hle
      exact hall ⟨p, hp, by simpa using hle⟩
    rw [hr] at h
    cases h

end Pulseon
