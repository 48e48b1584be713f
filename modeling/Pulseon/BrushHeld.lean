import Pulseon.RangeSound

/-!
# The brush stays within the integers

The brush over an overview lies between zero and two to the power of 63, and no
gesture leaves these bounds: a pan adds a rounded difference, but the sum is
rounded back onto the bound. So what is selected is covered by the integers
around it that a detail request asks for.
-/

namespace Pulseon

namespace F64

/-! ## Rounding below two to the power of 63 -/

/-- The units of two to the power of 63, and the magnitude that has them. -/
def topUnits : Nat := 2 ^ 63 * unitsPerOne

def topMagnitude : Nat := 1086 * 2 ^ 52

theorem units_top : units topMagnitude = topUnits := by
  rw [topMagnitude, show 1086 * 2 ^ 52 = (11 + unitExponent) * 2 ^ 52 + 2 ^ 52 by decide,
    units_normal (Nat.le_refl _) (by decide), pow_mul_units, ← Nat.mul_assoc, show 2 ^ 52 * 2 ^ 11 =
      2 ^ 63 by decide, topUnits]

theorem units_succ_top : units (topMagnitude + 1) = topUnits + 2 ^ 11 * unitsPerOne := by
  rw [topMagnitude, show 1086 * 2 ^ 52 + 1 = (11 + unitExponent) * 2 ^ 52 + (2 ^ 52 + 1) by decide,
    units_normal (by decide) (by decide), pow_mul_units, Nat.add_mul, Nat.one_mul, ← Nat.mul_assoc,
    show 2 ^ 52 * 2 ^ 11 = 2 ^ 63 by decide, topUnits]

/-- The gap after a magnitude is a power of two. -/
theorem units_succ (m : Nat) : units (m + 1) = units m + 2 ^ (m / 2 ^ 52 - 1) := by
  by_cases hm : m < 2 ^ 52
  · have he : m / 2 ^ 52 - 1 = 0 := by omega
    rw [units_small (by omega), units_small (by omega), he, Nat.pow_zero]
  · obtain ⟨e, he⟩ : ∃ e, m / 2 ^ 52 = e + 1 := ⟨m / 2 ^ 52 - 1, by omega⟩
    obtain ⟨q, rfl⟩ : ∃ q, m = e * 2 ^ 52 + q := ⟨m - e * 2 ^ 52, by omega⟩
    have hq : 2 ^ 52 ≤ q ∧ q < 2 ^ 53 := by omega
    rw [Nat.add_assoc, units_normal hq.1 (by omega), units_normal (by omega) (by omega), he, Nat.add_sub_cancel,
      Nat.add_mul, Nat.one_mul]

/-- Below the top a number is rounded by at most half the widest gap. -/
theorem units_roundUnits_le {n : Nat} (h : n ≤ topUnits) : units (roundUnits n) ≤ n + 2 ^ 9 * unitsPerOne := by
  rcases Nat.eq_or_lt_of_le h with heq | hlt
  · rw [heq, ← units_top, roundUnits_units (by decide)]
    exact Nat.le_add_right _ _
  · have hb := between_below n
    have hbelow : below n < topMagnitude := units_strictMono.lt_iff_lt.mp (lt_of_le_of_lt hb.1 (units_top ▸ hlt))
    have hgap : 2 ^ (below n / 2 ^ 52 - 1) ≤ 2 ^ 10 * unitsPerOne := by
      rw [← pow_mul_units]
      apply Nat.pow_le_pow_right (by decide)
      unfold topMagnitude at hbelow
      unfold unitExponent
      omega
    have hnear := (nearest_near hb).2
    rw [units_succ, Nat.add_sub_cancel_left] at hnear
    have hmin : units (roundUnits n) ≤ units (nearest units (below n) n) :=
      units_strictMono.monotone (Nat.min_le_left _ _)
    omega

/-- Half a gap above the top is rounded back. -/
theorem roundUnits_le_top {n : Nat} (h : n ≤ topUnits + 2 ^ 9 * unitsPerOne) : roundUnits n ≤ topMagnitude := by
  by_cases hle : n ≤ topUnits
  · exact roundUnits_le_of_le (by decide) (units_top ▸ hle)
  · have hpos := unitsPerOne_pos
    have hb : Between units topMagnitude n := by
      unfold Between
      rw [units_top, units_succ_top]
      omega
    have hbelow := between_unique units_strictMono (between_below n) hb
    refine le_trans (Nat.min_le_left _ _) ?_
    rw [hbelow]
    unfold nearest
    rw [units_top, units_succ_top, if_pos (by omega)]

/-- What is added stays below the top when it is at most the rounded rest. -/
theorem add_rest_le {t d : Int} (h0 : 0 ≤ t) (ht : t ≤ topUnits) (hd : d ≤ (ofUnits (topUnits - t)).signedUnits) :
    (ofUnits (t + d)).signedUnits ≤ topUnits := by
  have hrest : (ofUnits (topUnits - t)).signedUnits = units (roundUnits (topUnits - t).natAbs) := by
    rw [signedUnits_ofUnits, if_neg (by omega)]
  have hround := units_roundUnits_le (show (topUnits - t).natAbs ≤ topUnits by omega)
  rw [signedUnits_ofUnits]
  by_cases hn : t + d < 0
  · rw [if_pos hn]
    omega
  · rw [if_neg hn]
    have := roundUnits_le_top (show (t + d).natAbs ≤ topUnits + 2 ^ 9 * unitsPerOne by omega)
    have := units_strictMono.monotone this
    rw [units_top] at this
    omega

theorem ofUnits_nonneg {n : Int} (h : 0 ≤ n) : 0 ≤ (ofUnits n).signedUnits := by
  rw [signedUnits_ofUnits, if_neg (by omega)]
  exact Int.natCast_nonneg _

theorem signedUnits_add {x y : F64} (hx : x.isFinite = true) (hy : y.isFinite = true) :
    (x.add y).signedUnits = (ofUnits (x.signedUnits + y.signedUnits)).signedUnits := by
  unfold add
  simp only [isNan_of_finite hx, isNan_of_finite hy, hx, hy, Bool.or_self, Bool.not_true,
    Bool.false_eq_true, ite_false]
  by_cases h : x.signedUnits + y.signedUnits = 0
  · rw [if_pos h, h, signedUnits_zero, signedUnits_ofUnits_zero]
  · rw [if_neg h]

/-! ## The integers around a double -/

theorem topUnits_eq : (topUnits : Int) = 0x8000000000000000 * unitsPerOne := by
  rw [topUnits, Nat.cast_mul]
  rfl

theorem natAbs_le_limit {n : Int} (h0 : 0 ≤ n) (ht : n ≤ 0x8000000000000000) : n.natAbs ≤ integerLimit := by
  unfold integerLimit
  omega

section
variable {x : F64} (h0 : 0 ≤ x.signedUnits) (ht : x.signedUnits ≤ topUnits)
include h0 ht

theorem floor_bounds : 0 ≤ x.signedUnits.fdiv unitsPerOne ∧ x.signedUnits.fdiv unitsPerOne ≤ 0x8000000000000000 ∧
    x.signedUnits.fdiv unitsPerOne * unitsPerOne ≤ x.signedUnits := by
  have hpos : (0 : Int) < unitsPerOne := Int.natCast_pos.mpr unitsPerOne_pos
  rw [Int.fdiv_eq_ediv_of_nonneg _ (Int.le_of_lt hpos)]
  refine ⟨Int.ediv_nonneg h0 (Int.le_of_lt hpos), ?_, Int.ediv_mul_le _ (Int.ne_of_gt hpos)⟩
  exact Int.ediv_le_of_le_mul hpos (topUnits_eq ▸ ht)

theorem ceil_bounds :
    0 ≤ -(-x.signedUnits).fdiv unitsPerOne ∧ -(-x.signedUnits).fdiv unitsPerOne ≤ 0x8000000000000000 ∧
    x.signedUnits ≤ -(-x.signedUnits).fdiv unitsPerOne * unitsPerOne := by
  have hpos : (0 : Int) < unitsPerOne := Int.natCast_pos.mpr unitsPerOne_pos
  rw [Int.fdiv_eq_ediv_of_nonneg _ (Int.le_of_lt hpos)]
  have hle := Int.ediv_mul_le (-x.signedUnits) (Int.ne_of_gt hpos)
  have hup : -0x8000000000000000 ≤ -x.signedUnits / unitsPerOne :=
    (Int.le_ediv_iff_mul_le hpos).mpr (by rw [Int.neg_mul, ← topUnits_eq]; omega)
  have hdown : -x.signedUnits / unitsPerOne ≤ 0 := by
    by_contra hlt
    have := Int.mul_le_mul_of_nonneg_right (show 1 ≤ -x.signedUnits / unitsPerOne by omega) (Int.le_of_lt hpos)
    omega
  refine ⟨by omega, by omega, ?_⟩
  rw [Int.neg_mul]
  omega

end

/-- An integral double is the nearest one of its integer. -/
theorem integral_units {x : F64} {n : Int} (h : n.natAbs ≤ integerLimit) :
    (x.integral n).isFinite = true ∧ (x.integral n).signedUnits = nearestDouble n * unitsPerOne := by
  unfold integral
  by_cases hz : n = 0
  · rw [if_pos hz, hz, signedUnits_zero, show nearestDouble 0 = 0 by decide, Int.zero_mul]
    refine ⟨?_, rfl⟩
    cases x.bits.msb <;> rfl
  · rw [if_neg hz]
    exact ⟨isFinite_ofInt h, signedUnits_ofInt h⟩

/-- The integer of an integral double renders as it does. -/
theorem toI64_integral {x : F64} {n : Int} (h0 : 0 ≤ n) (ht : n ≤ 0x8000000000000000) :
    I64 (x.integral n).toI64 ∧ 0 ≤ (x.integral n).toI64 ∧ (x.integral n).toI64 = min (nearestDouble n) i64Max ∧
      nearestDouble (x.integral n).toI64 = nearestDouble n := by
  have hlimit := natAbs_le_limit h0 ht
  obtain ⟨hfin, hunits⟩ := @integral_units x n hlimit
  have hn0 : 0 ≤ nearestDouble n := by
    have := nearestDouble_mono (show (0 : Int).natAbs ≤ integerLimit by decide) hlimit h0
    rwa [show nearestDouble 0 = 0 by decide] at this
  have hnt : nearestDouble n ≤ 0x8000000000000000 := by
    have := nearestDouble_mono hlimit (show (0x8000000000000000 : Int).natAbs ≤ integerLimit by decide) ht
    rwa [nearestDouble_top] at this
  have hsame : nearestDouble (nearestDouble n) = nearestDouble n :=
    nearestDouble_of_units (natAbs_le_limit hn0 hnt) hfin hunits
  have hi : (x.integral n).toI64 = min (nearestDouble n) i64Max := by
    rw [toI64_of_units hfin hunits]
    unfold i64Max
    omega
  rw [hi]
  unfold I64 i64Max
  refine ⟨by omega, by omega, rfl, ?_⟩
  by_cases hfit : nearestDouble n ≤ 0x7fffffffffffffff
  · rw [min_eq_left hfit, hsame]
  · have htop : nearestDouble n = 0x8000000000000000 := by omega
    rw [htop]
    decide +kernel

section
variable {x : F64} (hx : x.isFinite = true) (h0 : 0 ≤ x.signedUnits) (ht : x.signedUnits ≤ topUnits)
include hx h0 ht

/-- The floor as an `i64` is rendered at or below. -/
theorem toI64_floor : I64 x.floor.toI64 ∧ 0 ≤ x.floor.toI64 ∧ (ofInt x.floor.toI64).le x = true := by
  obtain ⟨hn0, hnt, hle⟩ := floor_bounds h0 ht
  unfold floor
  rw [if_pos hx]
  obtain ⟨hi, hi0, -, hn⟩ := @toI64_integral x _ hn0 hnt
  refine ⟨hi, hi0, ?_⟩
  have hround := ofUnits_mono hle
  rw [ofUnits_signedUnits hx] at hround
  rw [le_iff (isFinite_ofInt (I64.limit hi)) hx, signedUnits_ofInt (I64.limit hi), hn,
    ← signedUnits_ofInt (natAbs_le_limit hn0 hnt)]
  exact hround

theorem toI64_ceil : I64 x.ceil.toI64 ∧ 0 ≤ x.ceil.toI64 ∧ x.le (ofInt x.ceil.toI64) = true := by
  obtain ⟨hn0, hnt, hle⟩ := ceil_bounds h0 ht
  unfold ceil
  rw [if_pos hx]
  obtain ⟨hi, hi0, -, hn⟩ := @toI64_integral x _ hn0 hnt
  refine ⟨hi, hi0, ?_⟩
  have hround := ofUnits_mono hle
  rw [ofUnits_signedUnits hx] at hround
  rw [le_iff hx (isFinite_ofInt (I64.limit hi)), signedUnits_ofInt (I64.limit hi), hn,
    ← signedUnits_ofInt (natAbs_le_limit hn0 hnt)]
  exact hround

theorem toI64_ordered {y : F64} (hy : y.isFinite = true) (hyt : y.signedUnits ≤ topUnits)
    (h : x.signedUnits ≤ y.signedUnits) : x.floor.toI64 ≤ y.ceil.toI64 := by
  have hpos : (0 : Int) < unitsPerOne := Int.natCast_pos.mpr unitsPerOne_pos
  obtain ⟨hn0, hnt, hle⟩ := floor_bounds h0 ht
  obtain ⟨hm0, hmt, hge⟩ := ceil_bounds (le_trans h0 h) hyt
  have hnm := Int.le_of_mul_le_mul_right (le_trans hle (le_trans h hge)) hpos
  unfold floor ceil
  rw [if_pos hx, if_pos hy, (toI64_integral hn0 hnt).2.2.1, (toI64_integral hm0 hmt).2.2.1]
  exact min_le_min_right _ (nearestDouble_mono (natAbs_le_limit hn0 hnt) (natAbs_le_limit hm0 hmt) hnm)

end

/-! ## Clamps -/

section
variable {x y lower upper : F64}

theorem clamp_cases (h : clamp x lower upper = some y) : Coordinate.le lower upper = true ∧
    (y = lower ∨ y = upper ∨ (y = x ∧ Coordinate.lt x lower = false ∧ Coordinate.lt upper x = false)) := by
  unfold clamp at h
  split at h
  · rename_i hle
    refine ⟨hle, ?_⟩
    cases h
    by_cases h1 : Coordinate.lt x lower = true
    · simp [h1]
    · by_cases h2 : Coordinate.lt upper x = true <;> simp [h1, h2]
  · cases h

theorem lower_le_clamp (h : clamp x lower upper = some y) (hl : lower.isFinite = true) (hy : y.isFinite = true) :
    lower.signedUnits ≤ y.signedUnits := by
  obtain ⟨hle, rfl | rfl | ⟨rfl, hlt, -⟩⟩ := clamp_cases h
  · exact le_rfl
  · exact (le_iff hl hy).mp hle
  · simpa [Coordinate.lt, lt_iff hy hl, Bool.eq_false_iff] using hlt

theorem clamp_le_upper (h : clamp x lower upper = some y) (hu : upper.isFinite = true) (hy : y.isFinite = true) :
    y.signedUnits ≤ upper.signedUnits := by
  obtain ⟨hle, rfl | rfl | ⟨rfl, -, hlt⟩⟩ := clamp_cases h
  · exact (le_iff hy hu).mp hle
  · exact le_rfl
  · simpa [Coordinate.lt, lt_iff hu hy, Bool.eq_false_iff] using hlt

theorem minimum_le (hy : y.isFinite = true) (h : (minimum x y).isFinite = true) :
    (minimum x y).signedUnits ≤ y.signedUnits := by
  unfold minimum at h ⊢
  split_ifs at h ⊢ with h1 h2
  · exact le_rfl
  · exact le_rfl
  · simpa [Coordinate.lt, lt_iff hy h, Bool.eq_false_iff] using h2

theorem le_maximum (hy : y.isFinite = true) (h : (maximum x y).isFinite = true) :
    y.signedUnits ≤ (maximum x y).signedUnits := by
  unfold maximum at h ⊢
  split_ifs at h ⊢ with h1 h2
  · exact le_rfl
  · exact le_rfl
  · simpa [Coordinate.lt, lt_iff h hy, Bool.eq_false_iff] using h2

end

end F64

open F64

/-! ## Held brushes -/

theorem AxisRange.finite (r : AxisRange F64) :
    r.start.isFinite = true ∧ r.stop.isFinite = true ∧ r.start.signedUnits < r.stop.signedUnits := by
  have h := r.accepted
  simp only [rangeAccepted, Coordinate.isFinite, Coordinate.le, Bool.and_eq_true, Bool.not_eq_true'] at h
  obtain ⟨⟨⟨hs, he⟩, hlt⟩, -⟩ := h
  rw [Bool.eq_false_iff, ne_eq, le_iff he hs, Int.not_le] at hlt
  exact ⟨hs, he, hlt⟩

theorem range_of_new {start stop : F64} {r : AxisRange F64} (h : AxisRange.new start stop = .ok r) :
    r.start = start ∧ r.stop = stop := by
  unfold AxisRange.new at h
  split at h
  · cases h; exact ⟨rfl, rfl⟩
  · cases h

/-- Between zero and two to the power of 63. -/
structure AxisRange.Bounded (r : AxisRange F64) : Prop where
  start : 0 ≤ r.start.signedUnits
  stop : r.stop.signedUnits ≤ topUnits

structure BrushState.Held (b : BrushState F64) : Prop where
  home : b.home.Bounded
  selected : b.selected.Bounded

namespace BrushState

theorem held_new {home : AxisRange F64} {b : BrushState F64} (hhome : home.Bounded)
    (h : BrushState.new home = .ok b) :
    b.Held := by
  unfold BrushState.new at h
  split at h
  · cases h
  · cases h; exact ⟨hhome, hhome⟩

section
variable {b b' : BrushState F64} (h : b.Held)
include h

/-- The selection of a brush may move between the bounds. -/
theorem Held.select {start stop : F64} (hs : start.isFinite = true → 0 ≤ start.signedUnits)
    (he : stop.isFinite = true → stop.signedUnits ≤ topUnits)
    (hr : (AxisRange.new start stop).map (fun selected => { b with selected }) = .ok b') : b'.Held := by
  cases hn : AxisRange.new start stop with
  | error e => rw [hn] at hr; cases hr
  | ok r =>
    rw [hn] at hr
    cases hr
    obtain ⟨rfl, rfl⟩ := range_of_new hn
    exact ⟨h.home, hs r.finite.1, he r.finite.2.1⟩

theorem Held.resizeStart {position : F64} (hr : b.resizeStart position = some (.ok b')) : b'.Held := by
  unfold BrushState.resizeStart at hr
  split at hr
  · cases hr
  · obtain ⟨start, hc, hr⟩ := Option.map_eq_some_iff.mp hr
    refine h.select (fun hs => ?_) (fun _ => h.selected.stop) hr
    exact le_trans h.home.start (lower_le_clamp hc b.home.finite.1 hs)

theorem Held.resizeEnd {position : F64} (hr : b.resizeEnd position = some (.ok b')) : b'.Held := by
  unfold BrushState.resizeEnd at hr
  split at hr
  · cases hr
  · obtain ⟨stop, hc, hr⟩ := Option.map_eq_some_iff.mp hr
    refine h.select (fun _ => h.selected.start) (fun he => ?_) hr
    exact le_trans (clamp_le_upper hc b.home.finite.2.1 he) h.home.stop

/-- The rooms of a pan are finite, and a pan within them stays between the bounds. -/
theorem Held.panned {x delta : F64} (hx : x.isFinite = true)
    (hc : clamp x (Coordinate.sub b.home.start b.selected.start) (Coordinate.sub b.home.stop b.selected.stop) =
      some delta) :
    0 ≤ (b.selected.start.add delta).signedUnits ∧ (b.selected.stop.add delta).signedUnits ≤ topUnits := by
  obtain ⟨hhs, hhe, hh⟩ := b.home.finite
  obtain ⟨hss, hse, hs⟩ := b.selected.finite
  have hh0 := h.home.start
  have hht := h.home.stop
  have hs0 := h.selected.start
  have hst := h.selected.stop
  have hleft : (b.home.start.sub b.selected.start).isFinite = true :=
    isFinite_sub hhs hss (show topMagnitude < infinity by decide) (by rw [units_top]; omega)
  have hright : (b.home.stop.sub b.selected.stop).isFinite = true :=
    isFinite_sub hhe hse (show topMagnitude < infinity by decide) (by rw [units_top]; omega)
  have hdelta : delta.isFinite = true := by
    rcases (clamp_cases hc).2 with rfl | rfl | ⟨rfl, -⟩
    · exact hleft
    · exact hright
    · exact hx
  have hlow := lower_le_clamp hc hleft hdelta
  have hhigh := clamp_le_upper hc hright hdelta
  simp only [Coordinate.sub, signedUnits_sub hhs hss, signedUnits_sub hhe hse] at hlow hhigh
  rw [signedUnits_add hss hdelta, signedUnits_add hse hdelta]
  constructor
  · -- the least room is a double, so that it takes the start to zero
    have hle : b.selected.start.neg.signedUnits ≤ b.home.start.signedUnits - b.selected.start.signedUnits := by
      rw [signedUnits_neg]; omega
    have hback := ofUnits_mono hle
    rw [ofUnits_signedUnits (by rw [isFinite_neg, hss]), signedUnits_neg] at hback
    exact ofUnits_nonneg (by omega)
  · have hback := ofUnits_mono (show b.home.stop.signedUnits - b.selected.stop.signedUnits ≤
      topUnits - b.selected.stop.signedUnits by omega)
    exact add_rest_le (by omega) hst (le_trans hhigh hback)

theorem Held.panBy {delta : F64} (hr : b.panBy delta = some (.ok b')) : b'.Held := by
  unfold BrushState.panBy at hr
  split at hr
  · cases hr
  · rename_i hfin
    obtain ⟨room, hc, hr⟩ := Option.map_eq_some_iff.mp hr
    obtain ⟨hstart, hstop⟩ := h.panned (by simpa [Coordinate.isFinite] using hfin) hc
    refine h.select (fun hs => ?_) (fun he => ?_) hr
    · unfold pannedEnds at hs ⊢
      dsimp only at hs ⊢
      split_ifs at hs ⊢
      · exact hstart
      · exact le_trans h.home.start (le_maximum b.home.finite.1 hs)
      · exact hstart
    · unfold pannedEnds at he ⊢
      dsimp only at he ⊢
      split_ifs at he ⊢
      · exact le_trans (minimum_le b.home.finite.2.1 he) h.home.stop
      · exact hstop
      · exact hstop

theorem Held.reset : b.reset.Held := ⟨h.home, h.home⟩

theorem Held.zoomAt {anchor factor : F64} (hr : b.zoomAt anchor factor = some (.ok b')) : b'.Held := by
  unfold BrushState.zoomAt at hr
  split at hr
  · cases hr
  · split at hr
    · cases hr; exact h
    · obtain ⟨span, -, hr⟩ := Option.bind_eq_some_iff.mp hr
      split at hr
      · cases hr; exact h.reset
      · obtain ⟨start, hc, hr⟩ := Option.map_eq_some_iff.mp hr
        refine h.select (fun hs => ?_) (fun he => ?_) hr
        · exact le_trans h.home.start (lower_le_clamp hc b.home.finite.1 hs)
        · exact le_trans (minimum_le b.home.finite.2.1 he) h.home.stop

theorem Held.gesture {g : Gesture F64} {outcome : Except ChartError Unit} (hg : b.gesture g = some (outcome, b')) :
    b'.Held := by
  unfold BrushState.gesture at hg
  obtain ⟨result, hr, hg⟩ := Option.map_eq_some_iff.mp hg
  cases result with
  | error e => cases hg; exact h
  | ok moved =>
    cases hg
    cases g with
    | resizeStart position => exact h.resizeStart hr
    | resizeEnd position => exact h.resizeEnd hr
    | panBy delta => exact h.panBy hr
    | zoomAt anchor factor => exact h.zoomAt hr
    | reset => cases hr; exact h.reset

/-- A held selection is covered by the integers around it. -/
theorem Held.covered :
    ∃ viewport, AlignmentViewport.new b.selected.start.floor.toI64 b.selected.stop.ceil.toI64 = .ok viewport ∧
    (ofInt viewport.start).le b.selected.start = true ∧ b.selected.stop.le (ofInt viewport.stop) = true := by
  obtain ⟨hs, he, hlt⟩ := b.selected.finite
  have h0 := h.selected.start
  have ht := h.selected.stop
  have hordered := toI64_ordered hs h0 (by omega) he ht (Int.le_of_lt hlt)
  exact ⟨⟨_, _, hordered⟩, dif_pos hordered, (toI64_floor hs h0 (by omega)).2.2, (toI64_ceil he (by omega) ht).2.2⟩

end

end BrushState

end Pulseon
