import Pulseon.FramesSound
import Pulseon.ScalesSound
import Pulseon.SinglesSound

/-!
# Points on the canvas

A scale of the charts is monotone in spite of rounding and takes the ends of its
domain to the ends of its output, so every point of a viewport is drawn on the
canvas and two points are drawn in their order. The viewports that the desktop
window draws with hold all points in their range of the axis.
-/

namespace Pulseon

open Coordinate Scalar

namespace F64

/-- A difference within a finite one is finite. -/
theorem isFinite_sub_within {x y z w : F64} (hx : x.isFinite = true) (hy : y.isFinite = true)
    (hz : z.isFinite = true) (hw : w.isFinite = true) (hfin : (z.sub w).isFinite = true)
    (h : (x.signedUnits - y.signedUnits).natAbs ≤ (z.signedUnits - w.signedUnits).natAbs) :
    (x.sub y).isFinite = true := by
  rcases sub_of_finite hz hw with e | ⟨e, -⟩
  · rw [e] at hfin
    unfold ofUnits isFinite at hfin
    rw [magnitude_ofMagnitude (roundUnits_lt _)] at hfin
    have hmono := roundUnits_mono h
    rcases sub_of_finite hx hy with e' | ⟨-, negative, e'⟩
    · rw [e']
      exact isFinite_ofMagnitude (Nat.lt_of_le_of_lt hmono (of_decide_eq_true hfin))
    · rw [e']
      exact isFinite_ofMagnitude (by decide)
  · exact isFinite_sub hx hy (m := 0) (by decide) (by rw [units_zero]; omega)

end F64

open F64

/-! ## Ratios -/

/-- The value is in the closed range. -/
structure AxisRange.Within (r : AxisRange F64) (value : F64) : Prop where
  finite : value.isFinite = true
  lower : r.start.signedUnits ≤ value.signedUnits
  upper : value.signedUnits ≤ r.stop.signedUnits

namespace AxisRange
variable (r : AxisRange F64)

theorem isFinite_span : r.span.isFinite = true := by
  have h := r.accepted
  simp only [rangeAccepted, Bool.and_eq_true] at h
  exact h.2

theorem span_pos : 0 < r.span.signedUnits := by
  obtain ⟨hs, he, hlt⟩ := r.finite
  show 0 < (r.stop.sub r.start).signedUnits
  rw [signedUnits_sub he hs]
  exact ofUnits_pos (by omega)

/-- How far a value is along the range, as `map` computes it. -/
def ratio (value : F64) : F64 := (value.sub r.start).div r.span

section
variable {r} {v w : F64} (hv : r.Within v)
include hv

theorem offset_finite : (v.sub r.start).isFinite = true := by
  obtain ⟨hs, he, -⟩ := r.finite
  have := hv.lower
  have := hv.upper
  exact isFinite_sub_within hv.finite hs he hs r.isFinite_span (by omega)

theorem offset_bounds : 0 ≤ (v.sub r.start).signedUnits ∧ (v.sub r.start).signedUnits ≤ r.span.signedUnits := by
  obtain ⟨hs, he, -⟩ := r.finite
  have hlow := hv.lower
  have hhigh := hv.upper
  show _ ∧ _ ≤ (r.stop.sub r.start).signedUnits
  rw [signedUnits_sub hv.finite hs, signedUnits_sub he hs]
  exact ⟨ofUnits_nonneg (by omega), ofUnits_mono (by omega)⟩

theorem units_ratio : (r.ratio v).signedUnits =
    ratioUnits ((v.sub r.start).signedUnits * unitsPerOne) r.span.signedUnits.natAbs :=
  signedUnits_div (offset_finite hv) r.isFinite_span r.span_pos

theorem ratio_finite : (r.ratio v).isFinite = true := by
  obtain ⟨h0, ht⟩ := offset_bounds hv
  have hpos := r.span_pos
  refine isFinite_div (offset_finite hv) r.isFinite_span (m := one.magnitude) (by decide) hpos ?_
  have hone : units one.magnitude = unitsPerOne := by
    rw [← natAbs_signedUnits, signedUnits_one, Int.natAbs_natCast]
  rw [hone, Int.natAbs_mul, Int.natAbs_natCast, Nat.mul_comm]
  exact Nat.mul_le_mul_left _ (by omega)

theorem ratio_bounds : 0 ≤ (r.ratio v).signedUnits ∧ (r.ratio v).signedUnits ≤ unitsPerOne := by
  obtain ⟨h0, ht⟩ := offset_bounds hv
  have hpos := r.span_pos
  have hspan : 0 < r.span.signedUnits.natAbs := by omega
  have hone : ratioUnits (r.span.signedUnits * unitsPerOne) r.span.signedUnits.natAbs = unitsPerOne := by
    have := ratioUnits_exact hspan (show one.isFinite = true by decide)
    rw [signedUnits_one] at this
    rwa [Int.natAbs_of_nonneg (Int.le_of_lt hpos), Int.mul_comm] at this
  rw [units_ratio hv]
  refine ⟨ratioUnits_nonneg hspan (Int.mul_nonneg h0 (Int.natCast_nonneg _)), ?_⟩
  calc ratioUnits ((v.sub r.start).signedUnits * unitsPerOne) r.span.signedUnits.natAbs
      ≤ ratioUnits (r.span.signedUnits * unitsPerOne) r.span.signedUnits.natAbs :=
        ratioUnits_mono hspan (Int.mul_le_mul_of_nonneg_right ht (Int.natCast_nonneg _))
    _ = unitsPerOne := hone

theorem ratio_mono (hw : r.Within w) (h : v.signedUnits ≤ w.signedUnits) :
    (r.ratio v).signedUnits ≤ (r.ratio w).signedUnits := by
  obtain ⟨hs, -, -⟩ := r.finite
  have hpos := r.span_pos
  rw [units_ratio hv, units_ratio hw]
  refine ratioUnits_mono (by omega) (Int.mul_le_mul_of_nonneg_right ?_ (Int.natCast_nonneg _))
  rw [signedUnits_sub hv.finite hs, signedUnits_sub hw.finite hs]
  exact ofUnits_mono (by omega)

end

end AxisRange

/-! ## Scales -/

section
variable {ratio width : F64} (hr : ratio.isFinite = true) (hw : width.isFinite = true) (h0 : 0 ≤ ratio.signedUnits)
  (ht : ratio.signedUnits ≤ unitsPerOne)
include hr hw h0 ht

/-- A part of a width is finite and within it. -/
theorem part_finite : (ratio.mul width).isFinite = true := by
  refine isFinite_mul hr hw (m := width.magnitude) (of_decide_eq_true hw) ?_
  rw [Int.natAbs_mul, ← natAbs_signedUnits, Nat.mul_comm]
  exact Nat.mul_le_mul_left _ (by omega)

theorem part_up (hpos : 0 ≤ width.signedUnits) :
    0 ≤ (ratio.mul width).signedUnits ∧ (ratio.mul width).signedUnits ≤ width.signedUnits := by
  have hone : 0 < unitsPerOne := Nat.two_pow_pos unitExponent
  rw [signedUnits_mul hr hw]
  refine ⟨ratioUnits_nonneg hone (Int.mul_nonneg h0 hpos), ?_⟩
  calc ratioUnits (ratio.signedUnits * width.signedUnits) unitsPerOne
      ≤ ratioUnits (width.signedUnits * unitsPerOne) unitsPerOne := ratioUnits_mono hone (by
        rw [Int.mul_comm width.signedUnits]
        exact Int.mul_le_mul_of_nonneg_right ht hpos)
    _ = width.signedUnits := ratioUnits_exact hone hw

theorem part_down (hneg : width.signedUnits ≤ 0) :
    width.signedUnits ≤ (ratio.mul width).signedUnits ∧ (ratio.mul width).signedUnits ≤ 0 := by
  have hone : 0 < unitsPerOne := Nat.two_pow_pos unitExponent
  rw [signedUnits_mul hr hw]
  constructor
  · calc width.signedUnits = ratioUnits (width.signedUnits * unitsPerOne) unitsPerOne :=
      (ratioUnits_exact hone hw).symm
      _ ≤ ratioUnits (ratio.signedUnits * width.signedUnits) unitsPerOne := ratioUnits_mono hone (by
        rw [Int.mul_comm width.signedUnits]
        exact Int.mul_le_mul_of_nonpos_right ht hneg)
  · calc ratioUnits (ratio.signedUnits * width.signedUnits) unitsPerOne
        ≤ ratioUnits 0 unitsPerOne := ratioUnits_mono hone (Int.mul_nonpos_of_nonneg_of_nonpos h0 hneg)
      _ = 0 := ratioUnits_zero _

end

theorem part_mono {ratio ratio' width : F64} (hr : ratio.isFinite = true) (hr' : ratio'.isFinite = true)
    (hw : width.isFinite = true) (h : ratio.signedUnits ≤ ratio'.signedUnits) :
    (0 ≤ width.signedUnits → (ratio.mul width).signedUnits ≤ (ratio'.mul width).signedUnits) ∧
      (width.signedUnits ≤ 0 → (ratio'.mul width).signedUnits ≤ (ratio.mul width).signedUnits) := by
  have hone : 0 < unitsPerOne := Nat.two_pow_pos unitExponent
  rw [signedUnits_mul hr hw, signedUnits_mul hr' hw]
  exact ⟨fun hpos => ratioUnits_mono hone (Int.mul_le_mul_of_nonneg_right h hpos),
    fun hneg => ratioUnits_mono hone (Int.mul_le_mul_of_nonpos_right h hneg)⟩

theorem scale_of_new {range : AxisRange F64} {outputStart outputEnd : F64} {scale : LinearScale F64}
    (h : LinearScale.new range outputStart outputEnd = .ok scale) (value : F64) :
    scale.map value = outputStart.add ((range.ratio value).mul (outputEnd.sub outputStart)) := by
  unfold LinearScale.new at h
  split at h
  · cases h; rfl
  · cases h

section
variable {size : F64} (hsize : size.isFinite = true)
include hsize

theorem units_zero_sub :
    ((zero : F64).sub size).isFinite = true ∧ ((zero : F64).sub size).signedUnits = -size.signedUnits := by
  have hz : (zero : F64).isFinite = true := rfl
  refine ⟨isFinite_sub_zero hz hsize (Or.inl (signedUnits_zero false)), ?_⟩
  have hneg := ofUnits_signedUnits (show size.neg.isFinite = true by rw [isFinite_neg, hsize])
  rw [signedUnits_sub hz hsize, show (zero : F64).signedUnits = 0 from signedUnits_zero false, Int.zero_sub,
    ← signedUnits_neg, hneg]

theorem units_sub_zero : (size.sub zero).isFinite = true ∧ (size.sub zero).signedUnits = size.signedUnits := by
  have hz : (zero : F64).isFinite = true := rfl
  refine ⟨isFinite_sub_zero hsize hz (Or.inr (signedUnits_zero false)), ?_⟩
  rw [signedUnits_sub hsize hz, show (zero : F64).signedUnits = 0 from signedUnits_zero false, Int.sub_zero,
    ofUnits_signedUnits hsize]

variable (hpos : 0 < size.signedUnits) {range : AxisRange F64} {scale : LinearScale F64} {v w : F64}
    (hv : range.Within v)
include hpos hv

/-- The horizontal scale of a canvas. -/
theorem map_across (h : LinearScale.new range zero size = .ok scale) :
    (scale.map v).isFinite = true ∧ 0 ≤ (scale.map v).signedUnits ∧ (scale.map v).signedUnits ≤ size.signedUnits ∧
      (scale.map v).signedUnits = ((range.ratio v).mul (size.sub zero)).signedUnits := by
  have hz : (zero : F64).isFinite = true := rfl
  have hz0 : (zero : F64).signedUnits = 0 := signedUnits_zero false
  obtain ⟨hwf, hwu⟩ := units_sub_zero hsize
  have hrf := AxisRange.ratio_finite hv
  obtain ⟨h0, ht⟩ := AxisRange.ratio_bounds hv
  have hpf := part_finite hrf hwf h0 ht
  obtain ⟨hp0, hpt⟩ := part_up hrf hwf h0 ht (by omega)
  have hsum : (scale.map v).signedUnits = ((range.ratio v).mul (size.sub zero)).signedUnits := by
    rw [scale_of_new h, signedUnits_add hz hpf, hz0, Int.zero_add, ofUnits_signedUnits hpf]
  refine ⟨?_, by omega, by omega, hsum⟩
  rw [scale_of_new h]
  refine isFinite_add hz hpf (of_decide_eq_true hsize) ?_
  rw [← natAbs_signedUnits]
  omega

/-- The vertical scale of a canvas, from the bottom up. -/
theorem map_up (h : LinearScale.new range size zero = .ok scale) :
    (scale.map v).isFinite = true ∧ 0 ≤ (scale.map v).signedUnits ∧ (scale.map v).signedUnits ≤ size.signedUnits ∧
      (scale.map v).signedUnits =
        (ofUnits (size.signedUnits + ((range.ratio v).mul ((zero : F64).sub size)).signedUnits)).signedUnits := by
  obtain ⟨hwf, hwu⟩ := units_zero_sub hsize
  have hrf := AxisRange.ratio_finite hv
  obtain ⟨h0, ht⟩ := AxisRange.ratio_bounds hv
  have hpf := part_finite hrf hwf h0 ht
  obtain ⟨hp0, hpt⟩ := part_down hrf hwf h0 ht (by omega)
  have hsum : (scale.map v).signedUnits =
      (ofUnits (size.signedUnits + ((range.ratio v).mul ((zero : F64).sub size)).signedUnits)).signedUnits := by
    rw [scale_of_new h, signedUnits_add hsize hpf]
  refine ⟨?_, ?_, ?_, hsum⟩
  · rw [scale_of_new h]
    refine isFinite_add hsize hpf (of_decide_eq_true hsize) ?_
    rw [← natAbs_signedUnits]
    omega
  · rw [hsum]
    exact ofUnits_nonneg (by omega)
  · rw [hsum]
    exact ofUnits_le hsize (by omega)

variable (hw : range.Within w) (hle : v.signedUnits ≤ w.signedUnits)
include hw hle

theorem map_across_mono (h : LinearScale.new range zero size = .ok scale) :
    (scale.map v).signedUnits ≤ (scale.map w).signedUnits := by
  obtain ⟨hwf, hwu⟩ := units_sub_zero hsize
  rw [(map_across hsize hpos hv h).2.2.2, (map_across hsize hpos hw h).2.2.2]
  exact (part_mono (AxisRange.ratio_finite hv) (AxisRange.ratio_finite hw) hwf (AxisRange.ratio_mono hv hw hle)).1
    (by omega)

theorem map_up_anti (h : LinearScale.new range size zero = .ok scale) :
    (scale.map w).signedUnits ≤ (scale.map v).signedUnits := by
  obtain ⟨hwf, hwu⟩ := units_zero_sub hsize
  rw [(map_up hsize hpos hv h).2.2.2, (map_up hsize hpos hw h).2.2.2]
  have hparts :=
    (part_mono (AxisRange.ratio_finite hv) (AxisRange.ratio_finite hw) hwf (AxisRange.ratio_mono hv hw hle)).2
      (by omega)
  exact ofUnits_mono (by omega)

end

/-! ## Viewports -/

theorem CanvasSize.sides (canvas : CanvasSize F64) :
    (canvas.width.isFinite = true ∧ 0 < canvas.width.signedUnits) ∧ canvas.height.isFinite = true ∧
      0 < canvas.height.signedUnits := by
  have h := canvas.accepted
  have hz : (zero : F64).isFinite = true := rfl
  have hz0 : (zero : F64).signedUnits = 0 := signedUnits_zero false
  simp only [sizeAccepted, Coordinate.isFinite, Coordinate.le, Bool.and_eq_true, Bool.not_eq_true',
    Bool.eq_false_iff] at h
  obtain ⟨⟨⟨hwidth, hheight⟩, hwpos⟩, hhpos⟩ := h
  rw [ne_eq, le_iff hwidth hz] at hwpos
  rw [ne_eq, le_iff hheight hz] at hhpos
  exact ⟨⟨hwidth, by omega⟩, hheight, by omega⟩

theorem drawnYRange_some {snapshot : CurveSnapshot} {range y : AxisRange F64}
    (h : snapshot.drawnYRange range = some y)
    {p : DataPoint F64} (hp : VisiblePoint snapshot.drawn range p) : y.Within p.y := by
  unfold CurveSnapshot.drawnYRange at h
  cases hr : visibleYRangeFor snapshot.drawn range with
  | error e => simp [hr, Except.toOption] at h
  | ok bounds =>
    cases bounds with
    | none => simp [hr, Except.toOption] at h
    | some r =>
      obtain rfl : r = y := by simpa [hr, Except.toOption] using h
      obtain ⟨hlow, hhigh⟩ := visibleYRangeFor_some hr hp
      exact ⟨visible_finite hp, Int.le_of_lt hlow, Int.le_of_lt hhigh⟩

/-- What a detail chart is drawn over is within the snapshot. -/
theorem shown_within (selected : Option (AxisRange F64)) (outer : AxisRange F64) :
    outer.start.signedUnits ≤
        ((selected.filter fun s => outer.start.le s.start && s.stop.le outer.stop).getD outer).start.signedUnits ∧
      ((selected.filter fun s => outer.start.le s.start && s.stop.le outer.stop).getD outer).stop.signedUnits ≤
        outer.stop.signedUnits := by
  cases hf : selected.filter fun s => outer.start.le s.start && s.stop.le outer.stop with
  | none => simp
  | some r =>
    have hr := (Option.filter_eq_some_iff.mp hf).2
    simp only [Bool.and_eq_true] at hr
    exact ⟨(le_iff outer.finite.1 r.finite.1).mp hr.1, (le_iff r.finite.2.1 outer.finite.2.1).mp hr.2⟩

theorem VisiblePoint.widen {series : List (Series F64)} {inner outer : AxisRange F64} {p : DataPoint F64}
    (h : VisiblePoint series inner p) (hs : outer.start.signedUnits ≤ inner.start.signedUnits)
    (he : inner.stop.signedUnits ≤ outer.stop.signedUnits) : VisiblePoint series outer p := by
  obtain ⟨s, hmem, hp, hin⟩ := h
  have hx := s.finite hp
  simp only [inRange, Bool.and_eq_true, le_iff inner.finite.1 hx, le_iff hx inner.finite.2.1] at hin
  refine ⟨s, hmem, hp, ?_⟩
  simp only [inRange, Bool.and_eq_true, le_iff outer.finite.1 hx, le_iff hx outer.finite.2.1]
  exact ⟨le_trans hs hin.1, le_trans hin.2 he⟩

theorem visible_within {series : List (Series F64)} {range : AxisRange F64} {p : DataPoint F64}
    (h : VisiblePoint series range p) : range.Within p.x := by
  obtain ⟨s, -, hp, hin⟩ := h
  have hx := s.finite hp
  simp only [inRange, Bool.and_eq_true, le_iff range.finite.1 hx, le_iff hx range.finite.2.1] at hin
  exact ⟨hx, hin.1, hin.2⟩

/-- The points that a detail chart shows are within its range of values. -/
theorem detailViewport_within {snapshot : CurveSnapshot} {selected : Option (AxisRange F64)}
    {viewport : Viewport F64} (h : snapshot.detailViewport selected = some viewport) {p : DataPoint F64}
    (hp : VisiblePoint snapshot.drawn viewport.x p) : viewport.y.Within p.y := by
  simp only [CurveSnapshot.detailViewport, bind, Option.bind_eq_some_iff, pure, Option.some.injEq] at h
  obtain ⟨snapshotX, -, y, hy, rfl⟩ := h
  obtain ⟨hs, he⟩ := shown_within selected snapshotX
  rcases Option.or_eq_some_iff.mp hy with hy | ⟨-, hy⟩
  · exact drawnYRange_some hy hp
  · -- the range of the whole snapshot holds these points as well
    split at hy
    · cases hy
    · exact drawnYRange_some hy (hp.widen hs he)

theorem overviewViewport_within {snapshot : CurveSnapshot} {brush : BrushState F64} {viewport : Viewport F64}
    (h : snapshot.overviewViewport brush = some viewport) {p : DataPoint F64}
    (hp : VisiblePoint snapshot.drawn viewport.x p) : viewport.y.Within p.y := by
  obtain ⟨y, hy, rfl⟩ := Option.map_eq_some_iff.mp h
  exact drawnYRange_some hy hp

/-! ## Pixels -/

namespace F32

theorem finite_of_toF64 {x : F32} (h : x.toF64.isFinite = true) : x.isFinite = true := by
  unfold toF64 at h
  split at h
  · cases h
  · split at h
    · rw [F64.isFinite, F64.magnitude_ofMagnitude (by decide)] at h
      simp at h
    · rename_i hfin
      simpa using hfin

section
variable {origin size : F32} {a b : F64} (ho : origin.isFinite = true) (hs : size.isFinite = true)
    (ha : a.isFinite = true)
  (h0 : 0 ≤ a.signedUnits) (ht : a.signedUnits ≤ size.toF64.signedUnits)
include hs ha h0 ht

/-- A part of a size, rounded to a single. -/
theorem ofF64_within :
    (ofF64 a).isFinite = true ∧ 0 ≤ (ofF64 a).signedUnits ∧ (ofF64 a).signedUnits ≤ size.signedUnits := by
  have hkey := (key_ofF64 ha).1
  have hlow : 0 ≤ (ofF64 a).key := by
    have := ratioKey_mono doubleUnits_pos h0
    rwa [ratioKey, Int.sign_zero, Int.zero_mul, ← hkey] at this
  have hhigh : (ofF64 a).key ≤ size.key := by
    rw [hkey, ← ratioKey_exact doubleUnits_pos (magnitude_le hs), ← (signedUnits_toF64 hs).2]
    exact ratioKey_mono doubleUnits_pos ht
  refine ⟨?_, ?_, signedUnits_mono hhigh⟩
  · have hsize : size.magnitude < infinity := of_decide_eq_true hs
    rw [← natAbs_key] at hsize
    unfold isFinite
    rw [← natAbs_key]
    exact decide_eq_true (by omega)
  · have := signedUnits_mono (show (ofMagnitude false 0).key ≤ (ofF64 a).key from hlow)
    exact this

include ho

theorem add_within :
    origin.le (origin.add (ofF64 a)) = true ∧ (origin.add (ofF64 a)).le (origin.add size) = true := by
  obtain ⟨hfin, hlow, hhigh⟩ := ofF64_within hs ha h0 ht
  obtain ⟨hk, hn⟩ := key_add ho hfin
  obtain ⟨hk', hn'⟩ := key_add ho hs
  have ho' := key_eq_ratio ho
  simp only [le, isNan_of_finite ho, hn, hn', Bool.not_false, Bool.true_and, decide_eq_true_eq]
  rw [hk, hk', ho']
  exact ⟨ratioKey_mono Nat.one_pos (by omega), ratioKey_mono Nat.one_pos (by omega)⟩

theorem add_ordered (hb : b.isFinite = true) (hab : a.signedUnits ≤ b.signedUnits)
    (hbt : b.signedUnits ≤ size.toF64.signedUnits) : (origin.add (ofF64 a)).le (origin.add (ofF64 b)) = true := by
  obtain ⟨hfin, -, -⟩ := ofF64_within hs ha h0 ht
  obtain ⟨hfin', -, -⟩ := ofF64_within hs hb (le_trans h0 hab) hbt
  obtain ⟨hk, hn⟩ := key_add ho hfin
  obtain ⟨hk', hn'⟩ := key_add ho hfin'
  have hkeys : (ofF64 a).key ≤ (ofF64 b).key := by
    rw [(key_ofF64 ha).1, (key_ofF64 hb).1]
    exact ratioKey_mono doubleUnits_pos hab
  have hunits := signedUnits_mono hkeys
  simp only [le, hn, hn', Bool.not_false, Bool.true_and, decide_eq_true_eq]
  rw [hk, hk']
  exact ratioKey_mono Nat.one_pos (by omega)

end

end F32

/-! ## Frames -/

/-- A position within the bounds. -/
structure Bounds.Holds (bounds : Bounds F32) (position : Position F32) : Prop where
  left : bounds.originX.le position.x = true
  right : position.x.le bounds.right = true
  top : bounds.originY.le position.y = true
  bottom : position.y.le (bounds.originY.add bounds.height) = true

theorem canvas_of_new {bounds : Bounds F32} {canvas : CanvasSize F64}
    (hc : CanvasSize.new bounds.width.toF64 bounds.height.toF64 = .ok canvas) :
    canvas.width = bounds.width.toF64 ∧ canvas.height = bounds.height.toF64 := by
  unfold CanvasSize.new at hc
  split at hc
  · cases hc; exact ⟨rfl, rfl⟩
  · cases hc

section
variable {bounds : Bounds F32} {canvas : CanvasSize F64} {viewport : Viewport F64} {xScale yScale : LinearScale F64}
  (hox : bounds.originX.isFinite = true) (hoy : bounds.originY.isFinite = true)
  (hc : CanvasSize.new bounds.width.toF64 bounds.height.toF64 = .ok canvas)
  (hxs : LinearScale.new viewport.x zero canvas.width = .ok xScale)
  (hys : LinearScale.new viewport.y canvas.height zero = .ok yScale) {p q : DataPoint F64}
  (hpx : viewport.x.Within p.x) (hpy : viewport.y.Within p.y)
include hox hoy hc hxs hys hpx hpy

/-- A point of the viewport is placed within the bounds. -/
theorem placed_within : bounds.Holds (placed bounds (project xScale yScale p)) := by
  obtain ⟨hw, hh⟩ := canvas_of_new hc
  obtain ⟨⟨hwf, hwp⟩, hhf, hhp⟩ := canvas.sides
  obtain ⟨hxf, hx0, hxt, -⟩ := map_across hwf hwp hpx hxs
  obtain ⟨hyf, hy0, hyt, -⟩ := map_up hhf hhp hpy hys
  rw [hw] at hwf hxt
  rw [hh] at hhf hyt
  obtain ⟨hl, hr⟩ := F32.add_within hox (F32.finite_of_toF64 hwf) hxf hx0 hxt
  obtain ⟨ht, hb⟩ := F32.add_within hoy (F32.finite_of_toF64 hhf) hyf hy0 hyt
  exact ⟨hl, hr, ht, hb⟩

variable (hqx : viewport.x.Within q.x) (hqy : viewport.y.Within q.y)
include hqx hqy

/-- Points are placed in the order of their coordinates. -/
theorem placed_ordered :
    (p.x.le q.x = true →
      (placed bounds (project xScale yScale p)).x.le (placed bounds (project xScale yScale q)).x = true) ∧
    (p.y.le q.y = true →
      (placed bounds (project xScale yScale q)).y.le (placed bounds (project xScale yScale p)).y = true) := by
  obtain ⟨hw, hh⟩ := canvas_of_new hc
  obtain ⟨⟨hwf, hwp⟩, hhf, hhp⟩ := canvas.sides
  constructor
  · intro hle
    have hmono := map_across_mono hwf hwp hpx hqx ((le_iff hpx.finite hqx.finite).mp hle) hxs
    obtain ⟨hpf, hp0, hpt, -⟩ := map_across hwf hwp hpx hxs
    obtain ⟨hqf, -, hqt, -⟩ := map_across hwf hwp hqx hxs
    rw [hw] at hwf hpt hqt
    exact F32.add_ordered hox (F32.finite_of_toF64 hwf) hpf hp0 hpt hqf hmono hqt
  · intro hle
    have hanti := map_up_anti hhf hhp hpy hqy ((le_iff hpy.finite hqy.finite).mp hle) hys
    obtain ⟨hpf, -, hpt, -⟩ := map_up hhf hhp hpy hys
    obtain ⟨hqf, hq0, hqt, -⟩ := map_up hhf hhp hqy hys
    rw [hh] at hhf hpt hqt
    exact F32.add_ordered hoy (F32.finite_of_toF64 hhf) hqf hq0 hqt hpf hanti hpt

end

namespace ViewerApp

section
variable {Path : Type} {app : ViewerApp Path} {shown : CurveSnapshot × Viewport F64} {p : DataPoint F64}

theorem shownDetail_within (h : app.shownDetail = some shown) (hp : VisiblePoint shown.1.drawn shown.2.x p) :
    shown.2.y.Within p.y := by
  unfold shownDetail at h
  split at h
  · simp only [bind, Option.bind_eq_some_iff, pure, Option.some.injEq] at h
    obtain ⟨snapshot, -, viewport, hv, rfl⟩ := h
    exact detailViewport_within hv hp
  · cases h

theorem shownOverview_within (h : app.shownOverview = some shown) (hp : VisiblePoint shown.1.drawn shown.2.x p) :
    shown.2.y.Within p.y := by
  simp only [shownOverview, bind, Option.bind_eq_some_iff, pure, Option.some.injEq] at h
  obtain ⟨-, -, snapshot, -, brush, -, viewport, hv, rfl⟩ := h
  exact overviewViewport_within hv hp

/-- Whatever the window shows, the points in the range of the axis are painted
within the bounds of their chart, and in the order of their coordinates. -/
theorem points_painted_inside (h : app.shownDetail = some shown ∨ app.shownOverview = some shown)
    {bounds : Bounds F32} (hox : bounds.originX.isFinite = true) (hoy : bounds.originY.isFinite = true)
    {canvas : CanvasSize F64} (hc : CanvasSize.new bounds.width.toF64 bounds.height.toF64 = .ok canvas) :
    ∃ place : DataPoint F64 → Position F32,
      (∀ s ∈ shown.1.drawn, ∃ path, buildPath s shown.2 canvas = .ok path ∧
        path.map (placed bounds) = (s.visiblePoints shown.2.x).map place) ∧
      ∀ p, VisiblePoint shown.1.drawn shown.2.x p → bounds.Holds (place p) ∧
        ∀ q, VisiblePoint shown.1.drawn shown.2.x q →
          (p.x.le q.x = true → (place p).x.le (place q).x = true) ∧
          (p.y.le q.y = true → (place q).y.le (place p).y = true) := by
  have hwithin : ∀ p, VisiblePoint shown.1.drawn shown.2.x p → shown.2.y.Within p.y := fun p hp => by
    rcases h with h | h
    · exact shownDetail_within h hp
    · exact shownOverview_within h hp
  obtain ⟨xScale, yScale, hxs, hys⟩ := scales_ok shown.2 canvas
  refine ⟨fun p => placed bounds (project xScale yScale p), fun s _ =>
    ⟨_, buildPath_eq s hxs hys, ?_⟩, fun p hp => ?_⟩
  · rw [List.map_map]
    rfl
  · refine ⟨placed_within hox hoy hc hxs hys (visible_within hp) (hwithin p hp), fun q hq => ?_⟩
    exact placed_ordered hox hoy hc hxs hys (visible_within hp) (hwithin p hp) (visible_within hq) (hwithin q hq)

def pairPoints : List (DataPoint F64) := [⟨F64.ofInt 0, F64.one⟩, ⟨F64.ofInt 10, F64.ofInt 2⟩]

/-- The two points of the curve are painted inside, the second to the right of the
first and above it. -/
theorem points_painted_inside_pair : ∃ app shown s canvas path a b,
    exec (step positions) {} pairOps = some app ∧ app.shownDetail = some shown ∧ s ∈ shown.1.drawn ∧
      CanvasSize.new squares.detail.width.toF64 squares.detail.height.toF64 = .ok canvas ∧
      buildPath s shown.2 canvas = .ok path ∧ path.map (placed squares.detail) = [a, b] ∧
      squares.detail.Holds a ∧ squares.detail.Holds b ∧ a.x.le b.x = true ∧ b.y.le a.y = true := by
  have hrun : (exec (step positions) {} pairOps).any (fun app => app.shownDetail.any fun shown =>
      shown.1.drawn.any fun s => decide (s.points = pairPoints ∧ s.visiblePoints shown.2.x = pairPoints) &&
        pairPoints.all fun p => inRange shown.2.x p) = true := by decide +kernel
  obtain ⟨app, happ, h⟩ := (Option.any_eq_true _ _).mp hrun
  obtain ⟨shown, hshown, h⟩ := (Option.any_eq_true _ _).mp h
  obtain ⟨s, hs, h⟩ := List.any_eq_true.mp h
  simp only [Bool.and_eq_true, decide_eq_true_eq, List.all_eq_true] at h
  obtain ⟨⟨hpoints, hvisible⟩, hin⟩ := h
  have hshows : ∀ p ∈ pairPoints, VisiblePoint shown.1.drawn shown.2.x p := fun p hp =>
    ⟨s, hs, by rw [hpoints]; exact hp, hin p hp⟩
  have hox : squares.detail.originX.isFinite = true := by decide
  have hoy : squares.detail.originY.isFinite = true := by decide
  have hc : CanvasSize.new squares.detail.width.toF64 squares.detail.height.toF64 =
      .ok ⟨squares.detail.width.toF64, squares.detail.height.toF64, by decide +kernel⟩ :=
        dif_pos (by decide +kernel)
  obtain ⟨place, hpaths, hplace⟩ := points_painted_inside (Or.inl hshown) hox hoy hc
  obtain ⟨path, hpath, hplaced⟩ := hpaths s hs
  obtain ⟨hfirst, horder⟩ := hplace ⟨F64.ofInt 0, F64.one⟩ (hshows _ (by simp [pairPoints]))
  have hsecond := hshows ⟨F64.ofInt 10, F64.ofInt 2⟩ (by simp [pairPoints])
  obtain ⟨hright, habove⟩ := horder _ hsecond
  rw [hvisible] at hplaced
  exact ⟨app, shown, s, _, path, _, _, happ, hshown, hs, hc, hpath, hplaced, hfirst, (hplace _ hsecond).1,
    hright (by decide +kernel), habove (by decide +kernel)⟩

end

end ViewerApp

end Pulseon
